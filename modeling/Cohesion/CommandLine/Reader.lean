import Cohesion.CommandLine.Basic
import Cohesion.CommandLine.Options
import Cohesion.Decimal.Reader

/-!
Reading a command line. Arguments are taken one after another. A value that stands apart from its
option is looked at only when the next option or path comes, or at the end, so of two mistakes the
unknown option is reported before the wrong value in front of it.
-/

namespace Cohesion

/-- A value that is not looked at yet; it is absent while it has not been given. -/
structure Pending where
  slot : Slot
  value : Option String

structure Gathered where
  path : Option String
  config : Option String
  separator : Option String
  format : Option OutputFormat
  output : Option String
  thresholds : Option (List Float)
  plain : Bool
  force : Bool
  verbosity : Option Nat
  pending : Option Pending
  /-- All options are over. -/
  trailing : Bool

namespace Gathered

def start : Gathered where
  path := none
  config := none
  separator := none
  format := none
  output := none
  thresholds := none
  plain := false
  force := false
  verbosity := none
  pending := none
  trailing := false

def isAny (gathered : Gathered) : Bool := gathered.verbosity.isSome

def awaiting (gathered : Gathered) : Option Slot :=
  match gathered.pending with
  | some ⟨slot, none⟩ => some slot
  | _ => none

/-- Take a text once, unless it must not be empty and is. -/
def once (old : Option String) (mayBeEmpty : Bool) (value : String) : Except UsageError String :=
  if old.isSome then .error .repeatedArgument
  else if value = "" ∧ !mayBeEmpty then .error .invalidValue
  else .ok value

def numbers (text : String) : Except UsageError (List Float) :=
  (text.toList.splitOn ',').mapM fun part =>
    match Decimal.read? (String.ofList part) with
    | some value => .ok value
    | none => .error .invalidNumber

def fill (gathered : Gathered) (slot : Slot) (value : String) : Except UsageError Gathered :=
  match slot with
  | .path => (once gathered.path false value).map fun path => { gathered with path }
  | .config => (once gathered.config false value).map fun config => { gathered with config }
  | .separator =>
      (once gathered.separator true value).map fun separator => { gathered with separator }
  | .output => (once gathered.output false value).map fun output => { gathered with output }
  | .format =>
      if gathered.format.isSome then .error .repeatedArgument
      else match OutputFormat.ofName? value with
        | some format => .ok { gathered with format }
        | none => .error .invalidValue
  | .threshold => (numbers value).map fun more =>
      { gathered with thresholds := some (gathered.thresholds.getD [] ++ more) }

def settle (gathered : Gathered) : Except UsageError Gathered :=
  match gathered.pending with
  | none => .ok gathered
  | some ⟨_, none⟩ => .error .invalidValue
  | some ⟨slot, some value⟩ => { gathered with pending := none }.fill slot value

def switchOn (gathered : Gathered) (switch : Switch) : Except UsageError Gathered := do
  let gathered ← gathered.settle
  match switch with
  | .help => .error .helpWanted
  | .version => .error .versionWanted
  | .verbose =>
      .ok { gathered with verbosity := some (min 255 (gathered.verbosity.getD 0 + 1)) }
  | .plain =>
      if gathered.plain then .error .repeatedArgument else .ok { gathered with plain := true }
  | .force =>
      if gathered.force then .error .repeatedArgument else .ok { gathered with force := true }

def takeSlot (gathered : Gathered) (slot : Slot) (attached : Option String) :
    Except UsageError Gathered := do
  let gathered ← gathered.settle
  match attached with
  | some value => gathered.fill slot value
  | none => .ok { gathered with pending := some ⟨slot, none⟩ }

def takeLong (place : Place) (gathered : Gathered) (text : List Char) :
    Except UsageError Gathered :=
  let name := String.ofList (text.takeWhile (· ≠ '='))
  let attached := match text.dropWhile (· ≠ '=') with
    | [] => none
    | _ :: value => some (String.ofList value)
  match place.long? name with
  | none => .error .unknownArgument
  | some (.slot slot) => gathered.takeSlot slot attached
  | some (.switch switch) =>
      if attached.isSome then .error .needlessValue else gathered.switchOn switch

/-- Letters after one dash. A letter with a value takes the rest of them. -/
def takeLetters (place : Place) (gathered : Gathered) : List Char → Except UsageError Gathered
  | [] => .ok gathered
  | letter :: rest =>
      match place.short? letter with
      | none => .error .unknownArgument
      | some (.switch switch) => do
          let gathered ← gathered.switchOn switch
          gathered.takeLetters place rest
      | some (.slot slot) =>
          let attached := match rest with
            | [] => none
            | '=' :: value => some (String.ofList value)
            | value => some (String.ofList value)
          gathered.takeSlot slot attached

/-- Whether a text after a dash is a number: digits, a point after the first of them, and an
exponent mark that is not at the end. -/
def isNumeral (text : List Char) : Bool :=
  let isMark (character : Char) : Bool := character = 'e' || character = 'E'
  let mantissa := text.takeWhile fun character => !isMark character
  let exponent := text.drop mantissa.length
  let whole := mantissa.takeWhile Char.isDigit
  let goodMantissa := match mantissa.drop whole.length with
    | [] => true
    | '.' :: places => !whole.isEmpty && places.all Char.isDigit
    | _ => false
  let goodExponent := match exponent with
    | [] => true
    | _ :: places => !mantissa.isEmpty && !places.isEmpty && places.all Char.isDigit
  goodMantissa && goodExponent

def takeWord (place : Place) (gathered : Gathered) (word : String) :
    Except UsageError Gathered :=
  match gathered.trailing, gathered.awaiting with
  | false, some slot => .ok { gathered with pending := some ⟨slot, some word⟩ }
  | _, _ =>
      let taken := gathered.path.isSome ||
        (gathered.pending.map fun pending => decide (pending.slot = .path)).getD false
      if !place.takesPath || taken then .error .unknownArgument
      else (gathered.settle).map fun gathered =>
        { gathered with pending := some ⟨.path, some word⟩ }

def take (place : Place) (gathered : Gathered) (argument : String) :
    Except UsageError Gathered :=
  if gathered.trailing then gathered.takeWord place argument
  else match argument.toList with
    | ['-', '-'] => .ok { gathered with trailing := true }
    | '-' :: '-' :: text => gathered.takeLong place text
    | '-' :: first :: rest =>
        if gathered.awaiting = some .threshold ∧ isNumeral (first :: rest) then
          gathered.takeWord place argument
        else gathered.takeLetters place (first :: rest)
    | _ => gathered.takeWord place argument

end Gathered

namespace CommandLine

def inputOf (gathered : Gathered) : Except UsageError InputArguments :=
  match gathered.path with
  | none => .error .missingPath
  | some callGraph => .ok
      { callGraph
        config := gathered.config
        separator := gathered.separator
        format := gathered.format
        output := gathered.output
        plain := gathered.plain }

def afterCommand (name : CommandName) (verbosity : Option Nat) (arguments : List String) :
    Except UsageError CommandLine := do
  let gathered ← arguments.foldlM (Gathered.take (.command name)) Gathered.start
  let gathered ← gathered.settle
  let command ← match name with
    | .coupling => (inputOf gathered).map Command.coupling
    | .dendrogram => (inputOf gathered).map Command.dendrogram
    | .modules => (inputOf gathered).map (Command.modules · gathered.thresholds)
    | .init => .ok (Command.init gathered.force)
  .ok ⟨command, (gathered.verbosity <|> verbosity).getD 0⟩

def afterHelp : List String → UsageError
  | [] => .helpWanted
  | [word] =>
      if (CommandName.ofText? word).isSome || word = "help" then .helpWanted else .unknownCommand
  | _ => .unknownCommand

def beforeCommand (gathered : Gathered) : List String → Except UsageError CommandLine
  | [] => .error (if gathered.isAny then .missingCommand else .nothingGiven)
  | argument :: rest =>
      let named := CommandName.ofText? argument
      if gathered.trailing then
        .error (if named.isSome || argument = "help" then .unknownArgument else .unknownCommand)
      else if argument = "help" then .error (afterHelp rest)
      else match named with
        | some name => afterCommand name gathered.verbosity rest
        | none =>
            if argument.toList.head? = some '-' ∧ argument ≠ "-" then do
              beforeCommand (← gathered.take .front argument) rest
            else .error .unknownCommand

def parse (arguments : List String) : Except UsageError CommandLine :=
  beforeCommand Gathered.start arguments

end CommandLine

end Cohesion
