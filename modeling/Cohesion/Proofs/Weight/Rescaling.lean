import Mathlib.Algebra.Order.Field.Rat
import Cohesion.Weight

/-!
# Changes of scale

A change of scale commutes with the arithmetic of weights and keeps every comparison. Multiplying
exact weights by a positive number is one; leaving weights of any kind as they are is another.
-/

namespace Cohesion

variable {V W : Type} [Weight V] [Weight W]

/-- A map of weights that commutes with sums and means and keeps what exceeds what. -/
structure Rescaling (rescale : V → W) : Prop where
  zero : rescale Weight.zero = Weight.zero
  add : ∀ first second,
    rescale (Weight.add first second) = Weight.add (rescale first) (rescale second)
  div_count : ∀ weight count,
    rescale (Weight.divCount weight count) = Weight.divCount (rescale weight) count
  exceeds : ∀ first second,
    Weight.exceeds (rescale first) (rescale second) = Weight.exceeds first second
  is_finite : ∀ weight, Weight.isFinite (rescale weight) = Weight.isFinite weight

theorem rescaling_id : Rescaling (id : W → W) := by
  constructor <;> simp

theorem rescaling_mul {factor : Rat} (positive : 0 < factor) :
    Rescaling fun weight : Rat => factor * weight where
  zero := mul_zero factor
  add := mul_add factor
  div_count weight count := mul_div_assoc' factor weight count
  exceeds first second := by
    simp only [Weight.exceeds, mul_lt_mul_iff_right₀ positive]
  is_finite _ := rfl

theorem Rescaling.accumulate {rescale : V → W} (rescaling : Rescaling rescale)
    (weights : List V) :
    Weight.accumulate (weights.map rescale) = rescale (Weight.accumulate weights) := by
  have folded : ∀ start : V, (weights.map rescale).foldl Weight.add (rescale start) =
      rescale (weights.foldl Weight.add start) := by
    induction weights with
    | nil => simp
    | cons head rest induction =>
        intro start
        rw [List.map_cons, List.foldl_cons, List.foldl_cons, ← rescaling.add, induction]
  rw [Weight.accumulate, Weight.accumulate, ← folded, rescaling.zero]

end Cohesion
