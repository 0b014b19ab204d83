import Mathlib.Algebra.Order.Ring.Rat
import Mathlib.Data.Prod.Lex
import Cohesion.Weight

/-!
# The order of weights

Weights are compared by one strict test. On numbers it behaves like the strict part of a linear
preorder; for double precision this is shown on the model of the format, where the values other than
the not-a-number are ordered by their sign, exponent and significand.
-/

namespace Cohesion

/-- Weights whose strict test orders the values that are numbers. -/
class OrderedWeight (W : Type) [Weight W] where
  isNumber : W → Prop
  exceeds_asymm {first second : W} : Weight.exceeds first second = true →
    Weight.exceeds second first = false
  not_exceeds_trans {first second third : W} : isNumber second →
    Weight.exceeds first second = false → Weight.exceeds second third = false →
    Weight.exceeds first third = false

namespace OrderedWeight

variable {W : Type} [Weight W] [OrderedWeight W]

theorem exceeds_irrefl (weight : W) : Weight.exceeds weight weight = false := by
  cases test : Weight.exceeds weight weight with
  | false => rfl
  | true => exact (test.symm.trans (exceeds_asymm test))

/-- Something that exceeds a weight exceeds all numbers that do not exceed it. -/
theorem exceeds_of_not_exceeds {first second third : W} (number : isNumber third)
    (above : Weight.exceeds first second = true) (notAbove : Weight.exceeds third second = false) :
    Weight.exceeds first third = true := by
  cases test : Weight.exceeds first third with
  | true => rfl
  | false =>
      have contradiction := not_exceeds_trans number test notAbove
      rw [above] at contradiction
      exact contradiction.symm

end OrderedWeight

instance : OrderedWeight Rat where
  isNumber _ := True
  exceeds_asymm {first second} above := by
    simp only [Weight.exceeds, decide_eq_true_eq, decide_eq_false_iff_not] at above ⊢
    exact above.not_gt
  not_exceeds_trans {first second third} _ notFirst notSecond := by
    simp only [Weight.exceeds, decide_eq_false_iff_not, not_lt] at notFirst notSecond ⊢
    exact notFirst.trans notSecond

section Doubles

open Float.Model Float.Model.UnpackedFloat

/-- Where a value other than the not-a-number stands: below or above zero, then by exponent, then
by significand. -/
def orderKey : UnpackedFloat → Int ×ₗ Int ×ₗ Int
  | .notANumber => toLex (3, toLex (0, 0))
  | .infinity .positive => toLex (2, toLex (0, 0))
  | .infinity .negative => toLex (-2, toLex (0, 0))
  | .zero _ => toLex (0, toLex (0, 0))
  | .finite .positive significand exponent _ => toLex (1, toLex (exponent, significand))
  | .finite .negative significand exponent _ => toLex (-1, toLex (-exponent, -significand))

theorem is_ge_then {first second : Ordering} :
    (first.then second).isGE ↔ first = .gt ∨ first = .eq ∧ second.isGE := by
  revert first second
  decide

theorem compare_signs : compare Sign.negative Sign.negative = .eq ∧
    compare Sign.negative Sign.positive = .lt ∧ compare Sign.positive Sign.negative = .gt ∧
    compare Sign.positive Sign.positive = .eq :=
  ⟨rfl, rfl, rfl, rfl⟩

theorem lt_iff_order_key {first second : UnpackedFloat} (firstNumber : first.isNaN = false)
    (secondNumber : second.isNaN = false) :
    first.lt second = true ↔ orderKey first < orderKey second := by
  rcases first with (_ | _) | _ | _ | ⟨_ | _, firstSignificand, firstExponent, _⟩ <;>
    rcases second with (_ | _) | _ | _ | ⟨_ | _, significand, exponent, _⟩ <;>
    cases firstNumber <;> cases secondNumber <;>
    dsimp only [UnpackedFloat.lt, UnpackedFloat.compare, orderKey] <;>
    simp [compare_signs, Prod.Lex.toLex_lt_toLex, Ordering.then_eq_lt, Ordering.then_eq_gt,
      compare_lt_iff_lt, compare_gt_iff_gt]

theorem le_iff_order_key {first second : UnpackedFloat} (firstNumber : first.isNaN = false)
    (secondNumber : second.isNaN = false) :
    first.le second = true ↔ orderKey first ≤ orderKey second := by
  rcases first with (_ | _) | _ | _ | ⟨_ | _, firstSignificand, firstExponent, _⟩ <;>
    rcases second with (_ | _) | _ | _ | ⟨_ | _, significand, exponent, _⟩ <;>
    cases firstNumber <;> cases secondNumber <;>
    dsimp only [UnpackedFloat.le, UnpackedFloat.compare, orderKey] <;>
    simp [compare_signs, Prod.Lex.toLex_le_toLex, Ordering.isLE_then_iff_or, is_ge_then,
      compare_lt_iff_lt, compare_gt_iff_gt, Nat.isLE_compare, Nat.isGE_compare]

theorem lt_of_not_number {first second : UnpackedFloat}
    (some_nan : first.isNaN = true ∨ second.isNaN = true) : first.lt second = false := by
  rcases first with _ | _ | _ | _
  case notANumber => cases second <;> rfl
  all_goals
    obtain secondNan := some_nan.resolve_left Bool.false_ne_true
    cases second with
    | notANumber => rfl
    | infinity | zero | finite => cases secondNan

end Doubles

theorem float_lt_iff (first second : Float) :
    first < second ↔ first.toModel.unpack.lt second.toModel.unpack = true := by
  change (decide (first.toModel < second.toModel)) = true ↔ _
  rw [decide_eq_true_iff]
  rfl

theorem float_le_iff (first second : Float) :
    first ≤ second ↔ first.toModel.unpack.le second.toModel.unpack = true := by
  change (decide (first.toModel ≤ second.toModel)) = true ↔ _
  rw [decide_eq_true_iff]
  rfl

theorem is_number_of_finite {weight : Float} (finite : weight.isFinite = true) :
    weight.isNaN = false := by
  change weight.toModel.unpack.isFinite = true at finite
  change weight.toModel.unpack.isNaN = false
  generalize weight.toModel.unpack = value at finite
  cases value with
  | notANumber => cases finite
  | infinity | zero | finite => rfl

theorem float_not_lt_iff {first second : Float} (firstNumber : first.isNaN = false)
    (secondNumber : second.isNaN = false) : ¬first < second ↔ second ≤ first := by
  rw [float_lt_iff, float_le_iff, lt_iff_order_key firstNumber secondNumber,
    le_iff_order_key secondNumber firstNumber, not_lt]

theorem float_lt_asymm {first second : Float} (less : first < second) : ¬second < first := by
  intro greater
  rw [float_lt_iff] at less greater
  cases firstNumber : first.toModel.unpack.isNaN with
  | true =>
      rw [lt_of_not_number (.inl firstNumber)] at less
      contradiction
  | false =>
      cases secondNumber : second.toModel.unpack.isNaN with
      | true =>
          rw [lt_of_not_number (.inr secondNumber)] at less
          contradiction
      | false =>
          rw [lt_iff_order_key firstNumber secondNumber] at less
          rw [lt_iff_order_key secondNumber firstNumber] at greater
          exact lt_asymm less greater

theorem float_not_lt_trans {first second third : Float} (number : second.isNaN = false)
    (notFirst : ¬second < first) (notSecond : ¬third < second) : ¬third < first := by
  intro less
  rw [float_lt_iff] at notFirst notSecond less
  cases firstNumber : first.toModel.unpack.isNaN with
  | true =>
      rw [lt_of_not_number (.inr firstNumber)] at less
      contradiction
  | false =>
      cases thirdNumber : third.toModel.unpack.isNaN with
      | true =>
          rw [lt_of_not_number (.inl thirdNumber)] at less
          contradiction
      | false =>
          rw [lt_iff_order_key thirdNumber firstNumber] at less
          rw [lt_iff_order_key number firstNumber, not_lt] at notFirst
          rw [lt_iff_order_key thirdNumber number, not_lt] at notSecond
          exact not_lt_of_ge (notFirst.trans notSecond) less

instance : OrderedWeight Float where
  isNumber weight := weight.isNaN = false
  exceeds_asymm {first second} above := by
    simp only [Weight.exceeds, decide_eq_true_eq, decide_eq_false_iff_not] at above ⊢
    exact float_lt_asymm above
  not_exceeds_trans {first second third} number notFirst notSecond := by
    simp only [Weight.exceeds, decide_eq_false_iff_not] at notFirst notSecond ⊢
    exact float_not_lt_trans number notFirst notSecond

end Cohesion
