/-!
Class names inside identifiers. The class of an identifier is what stands before the first
occurrence of the separator, or the whole identifier when the separator does not occur.
-/

namespace Cohesion

/-- The part of a text before the first place where a pattern starts. -/
def before? (pattern : List Char) : List Char → Option (List Char)
  | [] => if pattern.isEmpty then some [] else none
  | head :: rest =>
      if pattern.isPrefixOf (head :: rest) then some []
      else (before? pattern rest).map (head :: ·)

/-- A text that divides the class from the member in an identifier; it is not empty. -/
structure Separator where
  text : String
  nonempty : text ≠ ""
  deriving DecidableEq

namespace Separator

def standard : Separator := ⟨".", by decide⟩

instance : Inhabited Separator := ⟨standard⟩

def ofString? (text : String) : Option Separator :=
  if nonempty : text ≠ "" then some ⟨text, nonempty⟩ else none

/-- What stands before the first occurrence, or the whole identifier when there is none. -/
def classOf (separator : Separator) (identifier : String) : String :=
  match before? separator.text.toList identifier.toList with
  | some className => String.ofList className
  | none => identifier

theorem of_string_eq_none_iff {text : String} : ofString? text = none ↔ text = "" := by
  simp [ofString?]

end Separator

end Cohesion
