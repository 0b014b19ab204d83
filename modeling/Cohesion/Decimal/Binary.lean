/-!
Double precision numbers taken apart: a finite one is a sign and a whole number times a power of
two. Its magnitude as a fraction of whole numbers is what every decimal form starts from.
-/

namespace Cohesion.Decimal

/-- What a double stands for. A finite one is mantissa times two to the exponent. -/
inductive Binary where
  | notANumber
  | infinite (negative : Bool)
  | finite (negative : Bool) (mantissa : Nat) (exponent : Int)
  deriving DecidableEq

namespace Binary

/-- The parts of a double: one sign bit, eleven exponent bits and fifty-two fraction bits. -/
def ofFloat (value : Float) : Binary :=
  let bits := value.toBits.toNat
  let negative := decide (Nat.pow 2 63 ≤ bits)
  let exponentField : Nat := bits / Nat.pow 2 52 % Nat.pow 2 11
  let fraction : Nat := bits % Nat.pow 2 52
  if exponentField = Nat.pow 2 11 - 1 then
    if fraction = 0 then infinite negative else notANumber
  else if exponentField = 0 then finite negative fraction (-1074)
  else finite negative (Nat.pow 2 52 + fraction) ((exponentField : Int) - 1075)

end Binary

inductive Tie where
  | toEven
  | upward
  deriving DecidableEq

structure Ratio where
  numerator : Nat
  denominator : Nat
  deriving DecidableEq

namespace Ratio

def scaled (base value : Nat) (exponent : Int) : Ratio :=
  ⟨value * Nat.pow base exponent.toNat, Nat.pow base (-exponent).toNat⟩

def shift (ratio : Ratio) (places : Int) : Ratio :=
  ⟨ratio.numerator * Nat.pow 10 places.toNat, ratio.denominator * Nat.pow 10 (-places).toNat⟩

def round (tie : Tie) (ratio : Ratio) : Nat :=
  let floor := ratio.numerator / ratio.denominator
  let twiceRest := 2 * (ratio.numerator % ratio.denominator)
  if twiceRest < ratio.denominator then floor
  else if ratio.denominator < twiceRest then floor + 1
  else match tie with
    | .toEven => if floor % 2 = 0 then floor else floor + 1
    | .upward => floor + 1

end Ratio

end Cohesion.Decimal
