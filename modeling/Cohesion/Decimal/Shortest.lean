import Cohesion.Decimal.Binary

/-!
The shortest decimal that reads back as a given double. Of the decimals with the fewest digits
inside the interval of reals that round to the double, the one nearest to it is taken, and a rule
decides between two equally near.
-/

namespace Cohesion.Decimal

def digits (value : Nat) : List Char := Nat.toDigits 10 value

structure Numeral where
  coefficient : Nat
  exponent : Int
  deriving DecidableEq

namespace Numeral

def dropZeros : Nat → Numeral → Numeral
  | 0, numeral => numeral
  | limit + 1, ⟨coefficient, exponent⟩ =>
      if coefficient % 10 = 0 then dropZeros limit ⟨coefficient / 10, exponent + 1⟩
      else ⟨coefficient, exponent⟩

end Numeral

/-- The reals that round to a double: both ends, whether the ends belong, and the double itself,
all over one denominator. -/
structure RoundingInterval where
  low : Nat
  value : Nat
  high : Nat
  denominator : Nat
  closed : Bool

namespace RoundingInterval

/-- The interval around mantissa times two to the exponent. Below a power of two the next double
is only half as far away, unless the exponent is already the least. -/
def around (mantissa : Nat) (exponent : Int) : RoundingInterval :=
  let narrowBelow := mantissa = Nat.pow 2 52 ∧ -1074 < exponent
  let unit := Ratio.scaled 2 1 (exponent - 2)
  { low := (4 * mantissa - if narrowBelow then 1 else 2) * unit.numerator
    value := 4 * mantissa * unit.numerator
    high := (4 * mantissa + 2) * unit.numerator
    denominator := unit.denominator
    closed := mantissa % 2 = 0 }

def magnitude (interval : RoundingInterval) : Int :=
  let guess : Int := (digits interval.value).length - (digits interval.denominator).length
  let atGuess := Ratio.shift ⟨interval.value, interval.denominator⟩ (-guess)
  if atGuess.numerator < atGuess.denominator then guess - 1 else guess

def holds (interval : RoundingInterval) (grid : Int) (whole : Nat) : Bool :=
  let scale := Ratio.scaled 10 1 grid
  let point := whole * scale.numerator * interval.denominator
  let low := interval.low * scale.denominator
  let high := interval.high * scale.denominator
  if interval.closed then low ≤ point && point ≤ high else low < point && point < high

/-- The nearer of the two neighbours on a grid that lies in the interval. -/
def nearest? (tie : Tie) (interval : RoundingInterval) (grid : Int) : Option Numeral :=
  let scaled := Ratio.shift ⟨interval.value, interval.denominator⟩ (-grid)
  let below := scaled.numerator / scaled.denominator
  let chosen := scaled.round tie
  let other := if chosen = below then below + 1 else below
  if interval.holds grid chosen then some ⟨chosen, grid⟩
  else if interval.holds grid other then some ⟨other, grid⟩
  else none

/-- The decimal with the fewest digits in the interval; seventeen digits always suffice. -/
def shortest (tie : Tie) (interval : RoundingInterval) : Numeral :=
  let top := interval.magnitude
  let found := (List.range 17).findSome? fun count : Nat =>
    interval.nearest? tie (top - (count : Int))
  (found.getD ⟨0, 0⟩).dropZeros 20

end RoundingInterval

def shortest (tie : Tie) (mantissa : Nat) (exponent : Int) : Numeral :=
  if mantissa = 0 then ⟨0, 0⟩ else (RoundingInterval.around mantissa exponent).shortest tie

end Cohesion.Decimal
