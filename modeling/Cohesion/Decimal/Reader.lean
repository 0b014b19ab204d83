/-!
Reading decimal numbers. A number is an optional sign, digits with at most one point among or
beside them, and an optional exponent; it is read as the nearest double. The words for infinity
and for no number are read in any case.
-/

namespace Cohesion.Decimal

def digitValue (digit : Char) : Nat := digit.toNat - '0'.toNat

def natOfDigits (row : List Char) : Nat :=
  row.foldl (fun value digit => 10 * value + digitValue digit) 0

/-- The double nearest to a coefficient times a power of ten. Beyond the reach of doubles the
power itself is not computed. -/
def nearestFloat (coefficient : Nat) (exponent : Int) : Float :=
  let leading := exponent + (Nat.toDigits 10 coefficient).length
  if coefficient = 0 then 0.0
  else if 400 < leading then 1.0 / 0.0
  else if leading < -400 then 0.0
  else if exponent < 0 then Float.ofScientific coefficient true exponent.natAbs
  else Float.ofScientific coefficient false exponent.natAbs

def splitSign : List Char → Bool × List Char
  | '-' :: rest => (true, rest)
  | '+' :: rest => (false, rest)
  | text => (false, text)

def exponent? : List Char → Option Int
  | [] => some 0
  | mark :: rest =>
      let (negative, row) := splitSign rest
      if (mark = 'e' ∨ mark = 'E') ∧ !row.isEmpty ∧ row.all Char.isDigit then
        some (if negative then -(natOfDigits row : Int) else natOfDigits row)
      else none

def magnitude? (text : List Char) : Option Float :=
  let whole := text.takeWhile Char.isDigit
  let afterWhole := text.dropWhile Char.isDigit
  let (fraction, tail) := match afterWhole with
    | '.' :: rest => (rest.takeWhile Char.isDigit, rest.dropWhile Char.isDigit)
    | _ => ([], afterWhole)
  if whole.isEmpty && fraction.isEmpty then none
  else (exponent? tail).map fun exponent =>
    nearestFloat (natOfDigits (whole ++ fraction)) (exponent - fraction.length)

/-- Read a number, of which no part of the text may be left over. -/
def read? (text : String) : Option Float :=
  let (negative, rest) := splitSign text.toList
  let value := match String.ofList (rest.map Char.toLower) with
    | "inf" => some (1.0 / 0.0)
    | "infinity" => some (1.0 / 0.0)
    | "nan" => some (0.0 / 0.0)
    | _ => magnitude? rest
  value.map fun magnitude => if negative then -magnitude else magnitude

end Cohesion.Decimal
