import Cohesion.Proofs.Weight.Counted
import Cohesion.Proofs.Weight.Unsigned

/-!
# Sums of nonnegative weights

With exact weights and with doubles a sum of nonnegative weights is zero only if all of them are.
For doubles this is so because a sum of subnormal numbers is exact: rounding never takes a positive
sum down to zero.
-/

namespace Cohesion

namespace Weight

variable {W : Type} [Weight W]

def Positive (weight : W) : Prop := exceeds weight zero = true

/-- A number that is not below zero; negative zero and infinity are among them. -/
def Nonnegative [OrderedWeight W] (weight : W) : Prop :=
  OrderedWeight.isNumber weight ∧ exceeds zero weight = false

end Weight

/-- Weights in which a sum of nonnegative weights is zero only if all of them are. -/
class ConicalWeight (W : Type) [Weight W] [OrderedWeight W] : Prop where
  number_of_finite {weight : W} : Weight.isFinite weight = true → OrderedWeight.isNumber weight
  zero_nonnegative : Weight.Nonnegative (Weight.zero : W)
  add_nonnegative {first second : W} : Weight.Nonnegative first → Weight.Nonnegative second →
    Weight.Nonnegative (Weight.add first second)
  add_positive {first second : W} : Weight.Nonnegative first → Weight.Nonnegative second →
    (Weight.Positive (Weight.add first second) ↔ Weight.Positive first ∨ Weight.Positive second)
  zero_add_eq_zero {weight : W} : Weight.Nonnegative weight → ¬Weight.Positive weight →
    Weight.add Weight.zero weight = Weight.zero

namespace Weight

variable {W : Type} [Weight W] [OrderedWeight W] [ConicalWeight W]

theorem foldl_add_nonnegative {weights : List W} (nonnegative : ∀ weight ∈ weights,
    Nonnegative weight) {start : W} (startNonnegative : Nonnegative start) :
    Nonnegative (weights.foldl add start) ∧ (Positive (weights.foldl add start) ↔
      Positive start ∨ ∃ weight ∈ weights, Positive weight) := by
  induction weights generalizing start with
  | nil => simp [startNonnegative]
  | cons weight rest induction =>
      rw [List.forall_mem_cons] at nonnegative
      have added := ConicalWeight.add_nonnegative startNonnegative nonnegative.1
      rw [List.foldl_cons, List.exists_mem_cons_iff, ← or_assoc,
        ← ConicalWeight.add_positive startNonnegative nonnegative.1]
      exact induction nonnegative.2 added

section Sums

variable {weights : List W} (nonnegative : ∀ weight ∈ weights, Nonnegative weight)

include nonnegative

theorem accumulate_nonnegative : Nonnegative (accumulate weights) :=
  (foldl_add_nonnegative nonnegative ConicalWeight.zero_nonnegative).1

theorem accumulate_positive :
    Positive (accumulate weights) ↔ ∃ weight ∈ weights, Positive weight := by
  rw [accumulate, (foldl_add_nonnegative nonnegative ConicalWeight.zero_nonnegative).2]
  apply or_iff_right
  intro zeroPositive
  rw [Positive, OrderedWeight.exceeds_irrefl] at zeroPositive
  contradiction

theorem accumulate_eq_zero (nonePositive : ∀ weight ∈ weights, ¬Positive weight) :
    accumulate weights = zero := by
  rw [accumulate]
  induction weights with
  | nil => rfl
  | cons weight rest induction =>
      rw [List.forall_mem_cons] at nonnegative nonePositive
      rw [List.foldl_cons, ConicalWeight.zero_add_eq_zero nonnegative.1 nonePositive.1]
      exact induction nonnegative.2 nonePositive.2

end Sums

end Weight

section Rationals

theorem rat_positive_iff {weight : Rat} : Weight.Positive weight ↔ 0 < weight :=
  decide_eq_true_iff

theorem rat_nonnegative_iff {weight : Rat} : Weight.Nonnegative weight ↔ 0 ≤ weight := by
  rw [Weight.Nonnegative, ← not_lt]
  exact (and_iff_right trivial).trans decide_eq_false_iff_not

instance : ConicalWeight Rat where
  number_of_finite _ := trivial
  zero_nonnegative := rat_nonnegative_iff.mpr le_rfl
  add_nonnegative {first second} := by
    simp only [rat_nonnegative_iff]
    exact add_nonneg
  add_positive {first second} := by
    simp only [rat_nonnegative_iff, rat_positive_iff]
    intro firstNonnegative secondNonnegative
    constructor
    · intro positive
      by_contra neither
      rw [not_or, not_lt, not_lt] at neither
      exact absurd positive (not_lt_of_ge (add_nonpos neither.1 neither.2))
    · intro either
      rcases either with positive | positive
      · exact add_pos_of_pos_of_nonneg positive secondNonnegative
      · exact add_pos_of_nonneg_of_pos firstNonnegative positive
  zero_add_eq_zero {weight} := by
    simp only [rat_nonnegative_iff, rat_positive_iff, not_lt]
    intro nonnegative notPositive
    rw [le_antisymm notPositive nonnegative]
    exact add_zero (0 : Rat)

end Rationals

section Doubles

open Float.Model Float.Model.UnpackedFloat

/-- Positive infinity, or a positive number in the form that packed doubles have. -/
def AboveZero : UnpackedFloat → Prop
  | .infinity .positive => True
  | .finite .positive significand exponent _ => significand < 2 ^ 53 ∧ -1074 ≤ exponent
  | _ => False

theorem above_zero_of_components {exponent : BitVec 11} {mantissa : BitVec 52}
    (number : exponent = -1#_ → mantissa = 0#_) (nonzero : exponent = 0#_ → mantissa ≠ 0#_) :
    AboveZero (UnpackedFloat.unpack Format.binary64
      (packComponents Format.binary64 .positive exponent mantissa)) := by
  rw [unpack_components]
  split
  · next atTop =>
      rw [if_pos (number atTop)]
      trivial
  · split
    · next atZero =>
        rw [dif_neg (nonzero atZero)]
        have short := mantissa.isLt
        exact ⟨by omega, by omega⟩
    · next notZero =>
        have long := (1#1 ++ mantissa).isLt
        have some_exponent : 0 < exponent.toNat := by
          rw [Nat.pos_iff_ne_zero]
          intro none
          exact notZero (BitVec.eq_of_toNat_eq none)
        exact ⟨long, by omega⟩

/-- Packing turns what is too great into infinity and never takes a positive number to zero. -/
theorem AboveZero.unpack_pack {value : UnpackedFloat} (above : AboveZero value) :
    AboveZero (UnpackedFloat.unpack Format.binary64
      (UnpackedFloat.pack Format.binary64 value)) := by
  rcases value with (_ | _) | _ | _ | ⟨_ | _, significand, exponent, positive⟩
  all_goals first | contradiction | skip
  · exact above_zero_of_components (fun _ => rfl) (fun zero => by contradiction)
  · rcases above with ⟨fits, least⟩
    have bias : Format.binary64.exponentBias = 1023 := rfl
    have bits : Format.binary64.mantissaBits = 53 := rfl
    simp only [UnpackedFloat.pack, bias, bits]
    split
    · exact above_zero_of_components (fun _ => rfl) (fun zero => by contradiction)
    · next notTop =>
        have stored : ((exponent + (1023 : Nat) + (52 : Nat)).toNat) < 2047 := by omega
        split
        · apply above_zero_of_components
          · intro atTop
            exact absurd atTop (exponent_ne_top stored)
          · intro atZero
            exact absurd atZero (of_nat_ne_zero (by omega) (by omega))
        · next notFull =>
            apply above_zero_of_components
            · intro atTop
              contradiction
            · intro _
              have short : significand < 2 ^ 52 := by
                by_contra long
                rw [log2_eq_of_full (Nat.le_of_not_lt long) fits] at notFull
                contradiction
              exact of_nat_ne_zero positive short

theorem above_zero_of_unpack {bits : BitVec Format.binary64.numBits} {significand : Nat}
    {exponent : Int} {positive : 0 < significand} (value : UnpackedFloat.unpack Format.binary64 bits =
      .finite .positive significand exponent positive) :
    significand < 2 ^ 53 ∧ -1074 ≤ exponent := by
  have bias : Format.binary64.exponentBias = 1023 := rfl
  simp only [UnpackedFloat.unpack, bias] at value
  split at value
  · split at value
    · cases value
    · cases value
  · split at value
    · split at value
      · cases value
      · injection value with _ isMantissa isExponent
        have short := (unpackMantissa bits).isLt
        omega
    · next notZero =>
        injection value with _ isMantissa isExponent
        have long := (1#1 ++ unpackMantissa bits).isLt
        have some_exponent : 0 < (unpackExponent bits).toNat := by
          rw [Nat.pos_iff_ne_zero]
          intro none
          exact notZero (BitVec.eq_of_toNat_eq none)
        omega

theorem shift_of_short {mantissa : Nat} {exponent : Int} (short : mantissa < 2 ^ 53)
    (least : -1074 ≤ exponent) :
    shiftToTargetExponent Format.binary64 mantissa exponent .exact =
      (ExtendedMantissa.ofMantissaAndAccuracy mantissa .exact, exponent) := by
  have bits : Format.binary64.mantissaBits = 53 := rfl
  have minimum : Format.binary64.minExponent = -1074 := rfl
  have length : mantissa.log2 < 53 := by
    by_cases none : mantissa = 0
    · rw [none]
      decide
    · exact (Nat.log2_lt none).mpr short
  have amount : (Format.binary64.targetExponent (totalExponent mantissa exponent) -
      exponent).toNat = 0 := by
    rw [Format.targetExponent, totalExponent, bits, minimum]
    omega
  rw [shiftToTargetExponent, shiftToExponent, amount, Int.natCast_zero, Int.add_zero]
  rfl

theorem above_zero_of_round {mantissa : Nat} {exponent : Int} (positive : 0 < mantissa)
    (least : -1074 ≤ exponent) :
    AboveZero (roundWithAccuracy Format.binary64 .positive mantissa exponent .exact) := by
  by_cases short : mantissa < 2 ^ 53
  · have unchanged := shift_of_short short least
    rw [round_of_shifts unchanged unchanged positive]
    exact ⟨short, least⟩
  · have long : 2 ^ 52 ≤ mantissa := by omega
    have enough := (Nat.le_log2 positive.ne').mpr long
    obtain ⟨shift, carry, significand, _, _, _, _, fits, rounded, _⟩ :=
      round_of_long exponent .exact long (by omega)
    rw [rounded]
    exact ⟨fits, by omega⟩

theorem above_zero_of_normalize {mantissa : Nat} {exponent : Int} (positive : 0 < mantissa)
    (least : -1074 ≤ exponent) :
    AboveZero (UnpackedFloat.normalize Format.binary64 mantissa exponent .positive) := by
  have isPositive : compare (mantissa : Int) 0 = .gt := compare_gt_iff_gt.mpr (by omega)
  have minimum : Format.binary64.minExponent = -1074 := rfl
  have target : -1074 ≤ Format.binary64.targetExponent (totalExponent mantissa exponent) := by
    rw [Format.targetExponent, minimum]
    omega
  simp only [UnpackedFloat.normalize, isPositive, UnpackedFloat.round, Int.toNat_natCast,
    decreaseExponent]
  apply above_zero_of_round
  · exact positive.trans_le (le_shift_left _ _)
  · omega

theorem AboveZero.add {first second : UnpackedFloat} (firstAbove : AboveZero first)
    (secondAbove : AboveZero second) :
    AboveZero (UnpackedFloat.add Format.binary64 first second) := by
  rcases first with (_ | _) | _ | _ | ⟨_ | _, significand, exponent, positive⟩ <;>
    rcases second with (_ | _) | _ | _ | ⟨_ | _, significand', exponent', positive'⟩ <;>
    first | contradiction | skip
  · trivial
  · trivial
  · trivial
  · rw [UnpackedFloat.add]
    apply above_zero_of_normalize
    · exact Nat.add_pos_left (positive.trans_le (le_shift_left _ _)) _
    · exact le_min firstAbove.2 secondAbove.2

theorem unpack_zero : (Weight.zero : Float).toModel.unpack = .zero .positive := rfl

theorem zero_lt_iff {weight : Float} :
    Weight.zero < weight ↔ AboveZero weight.toModel.unpack := by
  rw [float_lt_iff, unpack_zero]
  cases value : weight.toModel.unpack with
  | notANumber => exact iff_of_false Bool.false_ne_true not_false
  | infinity sign =>
      cases sign with
      | negative => exact iff_of_false Bool.false_ne_true not_false
      | positive => exact iff_of_true rfl trivial
  | zero sign => exact iff_of_false Bool.false_ne_true not_false
  | finite sign significand exponent positive =>
      cases sign with
      | negative => exact iff_of_false Bool.false_ne_true not_false
      | positive => exact iff_of_true rfl (above_zero_of_unpack value)

/-- A double that is not below zero is zero, of either sign, or above it. -/
theorem float_nonnegative_iff {weight : Float} : Weight.Nonnegative weight ↔
    (∃ sign, weight.toModel.unpack = .zero sign) ∨ AboveZero weight.toModel.unpack := by
  have test : Weight.Nonnegative weight ↔ weight.toModel.unpack.isNaN = false ∧
      weight.toModel.unpack.lt (.zero .positive) = false := by
    rw [← unpack_zero, ← Bool.not_eq_true (UnpackedFloat.lt _ _), ← float_lt_iff]
    exact and_congr_right fun _ => decide_eq_false_iff_not
  rw [test]
  cases value : weight.toModel.unpack with
  | notANumber => simp [UnpackedFloat.isNaN, AboveZero]
  | infinity sign =>
      cases sign with
      | negative => simp [UnpackedFloat.lt, UnpackedFloat.compare, AboveZero]
      | positive => exact iff_of_true ⟨rfl, rfl⟩ (.inr trivial)
  | zero sign => exact iff_of_true ⟨rfl, rfl⟩ (.inl ⟨sign, rfl⟩)
  | finite sign significand exponent positive =>
      cases sign with
      | negative => simp [UnpackedFloat.lt, UnpackedFloat.compare, AboveZero]
      | positive => exact iff_of_true ⟨rfl, rfl⟩ (.inr (above_zero_of_unpack value))

theorem not_above_zero_of_zero {sign : Sign} : ¬AboveZero (.zero sign) := not_false

theorem AboveZero.add_zero {value : UnpackedFloat} (above : AboveZero value) (sign : Sign) :
    UnpackedFloat.add Format.binary64 value (.zero sign) = value ∧
      UnpackedFloat.add Format.binary64 (.zero sign) value = value := by
  rcases value with (_ | _) | _ | _ | ⟨_ | _, significand, exponent, positive⟩
  all_goals first | contradiction | skip
  · exact ⟨rfl, rfl⟩
  · exact ⟨rfl, rfl⟩

theorem unpack_sum_of_zeros {first second : Float} {firstSign secondSign : Sign}
    (firstZero : first.toModel.unpack = .zero firstSign)
    (secondZero : second.toModel.unpack = .zero secondSign) :
    ∃ sign, (Weight.add first second).toModel.unpack = .zero sign := by
  rw [unpack_add, firstZero, secondZero]
  cases firstSign with
  | negative =>
      cases secondSign with
      | negative => exact ⟨.negative, rfl⟩
      | positive => exact ⟨.positive, rfl⟩
  | positive =>
      cases secondSign with
      | negative => exact ⟨.positive, rfl⟩
      | positive => exact ⟨.positive, rfl⟩

section Sum

variable {first second : Float} (firstNonnegative : Weight.Nonnegative first)
  (secondNonnegative : Weight.Nonnegative second)

include firstNonnegative secondNonnegative

theorem above_zero_of_sum
    (some_above : AboveZero first.toModel.unpack ∨ AboveZero second.toModel.unpack) :
    AboveZero (Weight.add first second).toModel.unpack := by
  rw [unpack_add]
  apply AboveZero.unpack_pack
  rcases float_nonnegative_iff.mp firstNonnegative with ⟨firstSign, firstZero⟩ | firstAbove
  · have secondAbove : AboveZero second.toModel.unpack := by
      apply some_above.resolve_left
      rw [firstZero]
      exact not_above_zero_of_zero
    rw [firstZero, (secondAbove.add_zero firstSign).2]
    exact secondAbove
  · rcases float_nonnegative_iff.mp secondNonnegative with ⟨secondSign, secondZero⟩ | secondAbove
    · rw [secondZero, (firstAbove.add_zero secondSign).1]
      exact firstAbove
    · exact firstAbove.add secondAbove

theorem zero_or_above_of_sum :
    (∃ sign, (Weight.add first second).toModel.unpack = .zero sign) ∧
        ¬(AboveZero first.toModel.unpack ∨ AboveZero second.toModel.unpack) ∨
      AboveZero (Weight.add first second).toModel.unpack ∧
        (AboveZero first.toModel.unpack ∨ AboveZero second.toModel.unpack) := by
  by_cases some_above : AboveZero first.toModel.unpack ∨ AboveZero second.toModel.unpack
  · exact .inr ⟨above_zero_of_sum firstNonnegative secondNonnegative some_above, some_above⟩
  · have neither := not_or.mp some_above
    have ⟨_, firstZero⟩ := (float_nonnegative_iff.mp firstNonnegative).resolve_right neither.1
    have ⟨_, secondZero⟩ := (float_nonnegative_iff.mp secondNonnegative).resolve_right neither.2
    exact .inl ⟨unpack_sum_of_zeros firstZero secondZero, some_above⟩

end Sum

theorem float_positive_iff {weight : Float} :
    Weight.Positive weight ↔ AboveZero weight.toModel.unpack :=
  decide_eq_true_iff.trans zero_lt_iff

instance : ConicalWeight Float where
  number_of_finite := is_number_of_finite
  zero_nonnegative := float_nonnegative_iff.mpr (.inl ⟨_, unpack_zero⟩)
  add_nonnegative firstNonnegative secondNonnegative := by
    rw [float_nonnegative_iff]
    rcases zero_or_above_of_sum firstNonnegative secondNonnegative with ⟨isZero, _⟩ | ⟨above, _⟩
    · exact .inl isZero
    · exact .inr above
  add_positive firstNonnegative secondNonnegative := by
    simp only [float_positive_iff]
    rcases zero_or_above_of_sum firstNonnegative secondNonnegative with
      ⟨⟨sign, isZero⟩, neither⟩ | ⟨above, either⟩
    · rw [isZero]
      exact iff_of_false not_above_zero_of_zero neither
    · exact iff_of_true above either
  zero_add_eq_zero {weight} nonnegative notPositive := by
    rw [float_positive_iff] at notPositive
    have ⟨sign, isZero⟩ := (float_nonnegative_iff.mp nonnegative).resolve_right notPositive
    have sum : Weight.add Weight.zero weight = Float.ofModel (Float.Model.pack
        (UnpackedFloat.add Format.binary64 (.zero .positive) weight.toModel.unpack)) := rfl
    rw [sum, isZero]
    cases sign with
    | negative => rfl
    | positive => rfl

end Doubles

end Cohesion
