import Cohesion.Decimal.Shortest

/-!
Decimal texts of doubles in three layouts. The plain layout has the shortest digits and never an
exponent; of two equally near decimals it takes the greater one. The fixed layout has four places,
half going to the even neighbour. The data layout has the shortest digits too, with the even one
of two equally near decimals; it marks every number as fractional and turns to an exponent for very
large and very small numbers.
-/

namespace Cohesion.Decimal

def zeros (count : Nat) : List Char := List.replicate count '0'

def signed (negative : Bool) (text : List Char) : List Char :=
  if negative then '-' :: text else text

def Numeral.parts (numeral : Numeral) : List Char × List Char :=
  let coefficient := digits numeral.coefficient
  let places := (-numeral.exponent).toNat
  if places = 0 then (coefficient ++ zeros numeral.exponent.toNat, [])
  else if places < coefficient.length then coefficient.splitAt (coefficient.length - places)
  else (['0'], zeros (places - coefficient.length) ++ coefficient)

def withFraction (whole fraction : List Char) : List Char :=
  if fraction.isEmpty then whole else whole ++ '.' :: fraction

def Numeral.positional (numeral : Numeral) : List Char :=
  withFraction numeral.parts.1 numeral.parts.2

def Numeral.leading (numeral : Numeral) : Int :=
  numeral.exponent + ((digits numeral.coefficient).length : Int) - 1

/-- One digit before the point, then the exponent with its sign. -/
def Numeral.scientific (numeral : Numeral) : List Char :=
  let coefficient := digits numeral.coefficient
  let sign := if numeral.leading < 0 then '-' else '+'
  withFraction (coefficient.take 1) (coefficient.drop 1) ++
    'e' :: sign :: digits numeral.leading.natAbs

/-- Positional with at least one place when the first digit stands between the fifth place after
the point and the sixteenth before it, scientific elsewhere. -/
def Numeral.fractional (numeral : Numeral) : List Char :=
  if -5 ≤ numeral.leading ∧ numeral.leading ≤ 15 then
    let (whole, fraction) := numeral.parts
    whole ++ '.' :: if fraction.isEmpty then ['0'] else fraction
  else numeral.scientific

def plain (value : Float) : String :=
  match Binary.ofFloat value with
  | .notANumber => "NaN"
  | .infinite negative => String.ofList (signed negative "inf".toList)
  | .finite negative mantissa exponent =>
      String.ofList (signed negative (shortest .upward mantissa exponent).positional)

/-- Four places after the point, rounded from the exact value; a zero keeps its sign. -/
def fixed (value : Float) : String :=
  match Binary.ofFloat value with
  | .notANumber => "NaN"
  | .infinite negative => String.ofList (signed negative "inf".toList)
  | .finite negative mantissa exponent =>
      let units := ((Ratio.scaled 2 mantissa exponent).shift 4).round .toEven
      let fraction := digits (units % 10000)
      String.ofList <| signed negative <|
        digits (units / 10000) ++ '.' :: zeros (4 - fraction.length) ++ fraction

def data? (value : Float) : Option String :=
  match Binary.ofFloat value with
  | .notANumber => none
  | .infinite _ => none
  | .finite negative mantissa exponent =>
      some (String.ofList (signed negative (shortest .toEven mantissa exponent).fractional))

end Cohesion.Decimal
