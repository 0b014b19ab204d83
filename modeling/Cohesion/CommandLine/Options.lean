/-!
The options of the program. Before the command there are only the general ones; each command has
its own besides. An option either takes a value or stands alone.
-/

namespace Cohesion

inductive CommandName where
  | coupling
  | dendrogram
  | modules
  | init
  deriving DecidableEq

def CommandName.ofText? : String → Option CommandName
  | "coupling" => some coupling
  | "dendrogram" => some dendrogram
  | "modules" => some modules
  | "init" => some init
  | _ => none

inductive Switch where
  | help
  | version
  | verbose
  | plain
  | force
  deriving DecidableEq

/-- Options with a value, and the path that is given without an option. -/
inductive Slot where
  | path
  | config
  | separator
  | format
  | output
  | threshold
  deriving DecidableEq

inductive OptionKind where
  | switch (switch : Switch)
  | slot (slot : Slot)
  deriving DecidableEq

structure OptionSpec where
  long : String
  short : Option Char
  kind : OptionKind

inductive Place where
  | front
  | command (name : CommandName)
  deriving DecidableEq

namespace Place

def generalOptions : List OptionSpec :=
  [⟨"help", some 'h', .switch .help⟩, ⟨"verbose", some 'v', .switch .verbose⟩]

def inputOptions : List OptionSpec :=
  [⟨"config", some 'c', .slot .config⟩, ⟨"separator", none, .slot .separator⟩,
    ⟨"format", some 'f', .slot .format⟩, ⟨"output", some 'o', .slot .output⟩,
    ⟨"plain", none, .switch .plain⟩]

def options : Place → List OptionSpec
  | front => ⟨"version", some 'V', .switch .version⟩ :: generalOptions
  | command .coupling | command .dendrogram => inputOptions ++ generalOptions
  | command .modules =>
      ⟨"threshold", some 't', .slot .threshold⟩ :: inputOptions ++ generalOptions
  | command .init => ⟨"force", some 'f', .switch .force⟩ :: generalOptions

def long? (place : Place) (name : String) : Option OptionKind :=
  (place.options.find? fun option => option.long = name).map OptionSpec.kind

def short? (place : Place) (letter : Char) : Option OptionKind :=
  (place.options.find? fun option => option.short = some letter).map OptionSpec.kind

def takesPath : Place → Bool
  | command .init | front => false
  | command _ => true

end Place

end Cohesion
