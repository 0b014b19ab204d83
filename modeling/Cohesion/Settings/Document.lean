import Cohesion.Settings.Basic
import Cohesion.Toml.Document

/-!
Settings as a TOML document. Names that are not known are passed over, though their numbers have
to be in range. A section may be written as a table, or as an array of its fields in order, where
nothing is asked of items after the last field.
-/

namespace Cohesion

namespace Toml

def fitsWord (value : Int) : Bool :=
  -(Nat.pow 2 63 : Int) ≤ value && value < (Nat.pow 2 64 : Int)

mutual

/-- Whether all numbers in a value have a value themselves and are in range. -/
def inRange : Value → Bool
  | .integer value => value.any fun value =>
      -(Nat.pow 2 127 : Int) ≤ value && value < (Nat.pow 2 128 : Int)
  | .decimal value => value.isSome
  | .array _ items => allInRange items
  | .table _ members => membersInRange members
  | _ => true

def allInRange : List Value → Bool
  | [] => true
  | item :: rest => inRange item && allInRange rest

def membersInRange : List (String × Value) → Bool
  | [] => true
  | (_, value) :: rest => inRange value && membersInRange rest

end

def text? : Value → Option String
  | .text value => some value
  | _ => none

def boolean? : Value → Option Bool
  | .boolean value => some value
  | _ => none

def number? : Value → Option Float
  | .decimal value => value
  | .integer value => value.bind fun value =>
      if fitsWord value then
        some (if value < 0 then -(Float.ofNat value.natAbs) else Float.ofNat value.natAbs)
      else none
  | _ => none

/-- The fields of a section: members of a table, or items of an array in the order of the names.
A moment is a table without any field that has a meaning. -/
def fields? (names : List String) : Value → Option (List (String × Value))
  | .table _ members => some members
  | .array _ items => some (names.zip items)
  | .moment => some []
  | _ => none

def field {Result : Type} (decode : Value → Option Result) (fields : List (String × Value))
    (name : String) : Option (Option Result) :=
  match fields.lookup name with
  | none => some none
  | some value => (decode value).map some

/-- The fields of a section, after a check of those that have no meaning. -/
def sectionFields? (names : List String) (value : Value) : Option (List (String × Value)) := do
  let fields ← fields? names value
  if membersInRange (fields.filter fun (name, _) => !names.contains name) then some fields else none

end Toml

namespace Settings

def callGraphSection? (value : Toml.Value) : Option CallGraphSection := do
  let fields ← Toml.sectionFields? ["separator"] value
  some ⟨← Toml.field Toml.text? fields "separator"⟩

def clusteringSection? (value : Toml.Value) : Option ClusteringSection := do
  let fields ← Toml.sectionFields? ["threshold"] value
  some ⟨← Toml.field Toml.number? fields "threshold"⟩

/-- The section about output. As an array it has to have its first field. -/
def outputSection? (value : Toml.Value) : Option OutputSection := do
  let fields ← Toml.sectionFields? ["default_format", "use_color"] value
  match value with
  | .array _ [] => none
  | _ => some ⟨← Toml.field Toml.text? fields "default_format",
      ← Toml.field Toml.boolean? fields "use_color"⟩

def ofTable? (table : Toml.Table) : Option Settings := do
  let known := ["call_graph", "clustering", "output"]
  if Toml.membersInRange (table.members.filter fun (name, _) => !known.contains name) then
    some
      { callGraph := ← Toml.field callGraphSection? table.members "call_graph"
        clustering := ← Toml.field clusteringSection? table.members "clustering"
        output := ← Toml.field outputSection? table.members "output" }
  else none

def parse (document : String) : Except ConfigurationError Settings :=
  match (Toml.parse? document).bind ofTable? with
  | none => .error .notParsed
  | some settings => (settings.validate).map fun _ => settings

def template : String := String.join <| List.map (· ++ "\n")
  ["# Archmap Configuration",
    "",
    "[call_graph]",
    "# Separator between class and method in call graph identifiers",
    "separator = \".\"",
    "",
    "[clustering]",
    "# A dendrogram subtree becomes a module once its average internal",
    "# coupling is strictly greater than this value",
    "threshold = 0.05",
    "",
    "[output]",
    "default_format = \"terminal\""]

end Settings

end Cohesion
