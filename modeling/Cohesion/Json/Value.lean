import Cohesion.Decimal.Layout
import Cohesion.Json.Quoted

/-!
JSON values and their two texts: the compact one without any blank, and the indented one with a
line for each member.
-/

namespace Cohesion

/-- A JSON value. The members of an object keep their order. -/
inductive Json where
  | null
  | count (value : Nat)
  | number (value : Float)
  | text (value : String)
  | array (items : List Json)
  | object (members : List (String × Json))

namespace Json

/-- The text of a value without parts; infinities and the value that is no number become null. -/
def scalar : Json → String
  | count value => toString value
  | number value => (Decimal.data? value).getD "null"
  | text value => quote value
  | _ => "null"

mutual

def compact : Json → String
  | array items => "[" ++ compactItems true items ++ "]"
  | object members => "\x7b" ++ compactMembers true members ++ "\x7d"
  | value => value.scalar

def compactItems (first : Bool) : List Json → String
  | [] => ""
  | item :: rest => (if first then "" else ",") ++ compact item ++ compactItems false rest

def compactMembers (first : Bool) : List (String × Json) → String
  | [] => ""
  | (name, value) :: rest =>
      (if first then "" else ",") ++ quote name ++ ":" ++ compact value ++
        compactMembers false rest

end

def newLine (depth : Nat) : String := String.ofList ('\n' :: List.replicate (2 * depth) ' ')

mutual

def indented (depth : Nat) : Json → String
  | array [] => "[]"
  | array (item :: rest) =>
      "[" ++ newLine (depth + 1) ++ indented (depth + 1) item ++
        indentedItems (depth + 1) rest ++ newLine depth ++ "]"
  | object [] => "\x7b\x7d"
  | object ((name, value) :: rest) =>
      "\x7b" ++ newLine (depth + 1) ++ quote name ++ ": " ++ indented (depth + 1) value ++
        indentedMembers (depth + 1) rest ++ newLine depth ++ "\x7d"
  | value => value.scalar

def indentedItems (depth : Nat) : List Json → String
  | [] => ""
  | item :: rest => "," ++ newLine depth ++ indented depth item ++ indentedItems depth rest

def indentedMembers (depth : Nat) : List (String × Json) → String
  | [] => ""
  | (name, value) :: rest =>
      "," ++ newLine depth ++ quote name ++ ": " ++ indented depth value ++
        indentedMembers depth rest

end

end Json

end Cohesion
