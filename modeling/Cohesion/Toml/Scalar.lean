import Cohesion.Decimal.Reader
import Cohesion.Toml.Quoted
import Cohesion.Toml.Value

/-!
Bare scalars in TOML: truth values, whole numbers in four bases, decimal numbers, and moments in
time. A bare scalar is read as a whole. A whole number has a form and a value: a scalar that has
the form is taken as a whole number, even if it turns out to have no value.
-/

namespace Cohesion.Toml

def isScalarPart (character : Char) : Bool :=
  !isBlank character && !"=,[]\x7b\x7d#\r\n".toList.contains character

/-- Whether a digit follows every underscore, and one precedes it if anything does. -/
def isGrouped (isDigit : Char → Bool) : List Char → Bool
  | [] => true
  | character :: rest =>
      isGrouped isDigit rest &&
        if character = '_' then rest.head?.any isDigit
        else rest.head? ≠ some '_' || isDigit character

def ungrouped? (isDigit : Char → Bool) (text : List Char) : Option (List Char) :=
  if text.head? ≠ some '_' && isGrouped isDigit text then some (text.filter (· ≠ '_'))
  else none

def digitIn (base : Nat) (character : Char) : Bool :=
  let value :=
    if character.isDigit then character.toNat - '0'.toNat
    else if 'a' ≤ character && character ≤ 'f' then character.toNat - 'a'.toNat + 10
    else if 'A' ≤ character && character ≤ 'F' then character.toNat - 'A'.toNat + 10
    else base
  value < base

def natIn (base : Nat) (row : List Char) : Nat :=
  row.foldl (fun value character =>
    base * value +
      if character.isDigit then character.toNat - '0'.toNat
      else character.toLower.toNat - 'a'.toNat + 10) 0

def intIn? (base : Nat) (text : List Char) : Option Int :=
  let (negative, row) := Decimal.splitSign text
  if row.isEmpty || !row.all (digitIn base) then none
  else some (if negative then -(natIn base row : Int) else natIn base row)

def based? (base : Nat) (text : List Char) : Option Value :=
  if text.all fun character => character = '_' || digitIn base character then
    (ungrouped? (digitIn base) text).map fun row => .integer (intIn? base row)
  else none

/-- A whole number without a base mark. It has the form if there are only digits up to the first
underscore, a hexadecimal digit on both sides of every underscore, and no space; for a value all of
it has to be decimal digits. A zero in front stands alone. -/
def whole? (text : List Char) : Option Value :=
  let (_, row) := Decimal.splitSign text
  let tail := row.dropWhile Char.isDigit
  if row.isEmpty || (row.head? = some '0' && 1 < row.length) || row.contains ' ' then none
  else if tail.isEmpty || tail.head? = some '_' then
    (ungrouped? (digitIn 16) text).map fun digits => .integer (intIn? 10 digits)
  else none

def hasWholeParts (row : List Char) : Bool :=
  let parts := match row.dropWhile Char.isDigit with
    | '.' :: rest => [row, rest]
    | _ => [row]
  parts.all fun part => part.head?.any Char.isDigit

/-- A decimal number with a point or an exponent. A zero in front stands alone before the point. -/
def decimal? (text : List Char) : Option Value := do
  let (_, row) := Decimal.splitSign text
  let leading := row.takeWhile fun character => character.isDigit || character = '_'
  if row.head? = some '0' && 1 < (leading.filter Char.isDigit).length then none
  let (negative, digits) := Decimal.splitSign (← ungrouped? Char.isDigit text)
  if !hasWholeParts digits then none
  let magnitude ← Decimal.magnitude? digits
  some (.decimal
    (if magnitude.isInf then none else some (if negative then -magnitude else magnitude)))

def special? (text : List Char) : Option Value :=
  let (negative, word) := Decimal.splitSign text
  if word = "inf".toList then some (.decimal (some (if negative then -1.0 / 0.0 else 1.0 / 0.0)))
  else if word = "nan".toList then some (.decimal (some (0.0 / 0.0)))
  else none

def numeral? (text : List Char) : Option Value :=
  match special? text with
  | some value => some value
  | none =>
      if text.any fun character => character = '.' || character = 'e' || character = 'E' then
        decimal? text
      else whole? text

def field? (count low high : Nat) (text : List Char) : Option (Nat × List Char) :=
  let row := text.take count
  let value := Decimal.natOfDigits row
  if row.length = count && row.all Char.isDigit && low ≤ value && value ≤ high then
    some (value, text.drop count)
  else none

def after? (character : Char) : List Char → Option (List Char)
  | head :: rest => if head = character then some rest else none
  | [] => none

def daysIn (year month : Nat) : Nat :=
  if month = 2 then if year % 4 = 0 && (year % 100 ≠ 0 || year % 400 = 0) then 29 else 28
  else if month = 4 || month = 6 || month = 9 || month = 11 then 30
  else 31

def date? (text : List Char) : Option (List Char) := do
  let (year, text) ← field? 4 0 9999 text
  let text ← after? '-' text
  let (month, text) ← field? 2 1 12 text
  let text ← after? '-' text
  let (_, text) ← field? 2 1 (daysIn year month) text
  some text

def seconds? (text : List Char) : Option (List Char) :=
  match after? ':' text with
  | none => some text
  | some text => do
      let (_, text) ← field? 2 0 60 text
      match after? '.' text with
      | none => some text
      | some places =>
          if (places.takeWhile Char.isDigit).isEmpty then none
          else some (places.dropWhile Char.isDigit)

def time? (text : List Char) : Option (List Char) := do
  let (_, text) ← field? 2 0 23 text
  let text ← after? ':' text
  let (_, text) ← field? 2 0 59 text
  seconds? text

def isZone : List Char → Bool
  | [] => true
  | [mark] => mark = 'Z' || mark = 'z'
  | sign :: rest =>
      (sign = '+' || sign = '-') && (do
        let (_, text) ← field? 2 0 23 rest
        let text ← after? ':' text
        let (_, text) ← field? 2 0 59 text
        some text.isEmpty) = some true

def isMoment (text : List Char) : Bool :=
  match date? text with
  | some [] => true
  | some (mark :: rest) =>
      (mark = 'T' || mark = 't' || mark = ' ') && ((time? rest).map isZone).getD false
  | none => (time? text).map List.isEmpty = some true

def scalar? (text : List Char) : Option Value :=
  if text = "true".toList then some (.boolean true)
  else if text = "false".toList then some (.boolean false)
  else match text with
    | '0' :: 'x' :: row => based? 16 row
    | '0' :: 'o' :: row => based? 8 row
    | '0' :: 'b' :: row => based? 2 row
    | _ => match numeral? text with
        | some value => some value
        | none => if isMoment text then some .moment else none

/-- The bare scalar at the start of a text. It goes on after blanks if another part of it follows,
but not if quotes open there. The flag tells whether blanks have just been passed. -/
def splitScalar (afterBlank : Bool) : List Char → List Char × List Char
  | [] => ([], [])
  | character :: rest =>
      let opensQuotes := afterBlank && (character = '"' || character = '\'')
      if isBlank character then
        let (scalar, after) := splitScalar true rest
        if scalar.isEmpty then ([], character :: rest) else (character :: scalar, after)
      else if isScalarPart character && !opensQuotes then
        let (scalar, after) := splitScalar false rest
        (character :: scalar, after)
      else ([], character :: rest)

end Cohesion.Toml
