/-!
The arithmetic of coupling weights. Everything between the call graph and the report is written
over it: the program runs on double precision numbers, exact statements use the rationals.
-/

namespace Cohesion

class Weight (W : Type) where
  /-- The affinity of classes that are not coupled, where every accumulation starts. -/
  zero : W
  /-- The sum of no weights. -/
  emptySum : W
  add : W → W → W
  ofCount : Nat → W
  /-- A weight divided by a positive number of things. -/
  divCount : W → Nat → W
  /-- The first weight is strictly greater than the second. -/
  exceeds : W → W → Bool
  isFinite : W → Bool

namespace Weight

variable {W : Type} [Weight W]

def share (total count : Nat) : W := divCount (ofCount count) total

def accumulate (weights : List W) : W := weights.foldl add zero

/-- The weights added from left to right onto the sum of no weights. -/
def sum (weights : List W) : W := weights.foldl add emptySum

end Weight

/-- Double precision: the sum of no weights is negative zero, the neutral element of rounding. -/
instance : Weight Float where
  zero := 0.0
  emptySum := -0.0
  add := (· + ·)
  ofCount := Float.ofNat
  divCount weight count := weight / Float.ofNat count
  exceeds left right := decide (right < left)
  isFinite := Float.isFinite

instance : Weight Rat where
  zero := 0
  emptySum := 0
  add := (· + ·)
  ofCount count := (count : Rat)
  divCount weight count := weight / (count : Rat)
  exceeds left right := decide (right < left)
  isFinite _ := true

end Cohesion
