import Mathlib.Algebra.Order.Field.Basic
import Mathlib.Algebra.Order.Field.Power
import Mathlib.Algebra.Order.Field.Rat
import Mathlib.Tactic.FieldSimp
import Mathlib.Tactic.Linarith
import Mathlib.Tactic.Ring
import Cohesion.Proofs.Weight.Unsigned

/-!
# The numbers that doubles stand for

A full significand with an exponent stands for a positive rational number. Rounding to 53 bits gives
a number that is near the exact one, and the exact one itself if 53 bits are enough for it. From this
come sums, quotients and counts.
-/

namespace Cohesion

open Float.Model Float.Model.UnpackedFloat

/-- How far rounding to 53 bits goes from a number, at most, as a part of this number. -/
def roundingUnit : ℚ := 1 / 2 ^ 52

def Near (exact number : ℚ) : Prop :=
  exact * (1 - roundingUnit) ≤ number ∧ number ≤ exact * (1 + roundingUnit)

theorem Near.within_twice {exact number : ℚ} (near : Near exact number) (nonnegative : 0 ≤ exact) :
    exact / 2 ≤ number ∧ number ≤ exact * 2 := by
  obtain ⟨lower, upper⟩ := near
  rw [roundingUnit] at lower upper
  constructor
  · linarith
  · linarith

theorem Near.scale {exact number factor : ℚ} (near : Near exact number) (nonnegative : 0 ≤ factor) :
    Near (exact * factor) (number * factor) := by
  obtain ⟨lower, upper⟩ := near
  constructor
  · rw [mul_right_comm]
    exact mul_le_mul_of_nonneg_right lower nonnegative
  · rw [mul_right_comm]
    exact mul_le_mul_of_nonneg_right upper nonnegative

/-- The value has a full significand and is this number. -/
def StandsFor (value : UnpackedFloat) (number : ℚ) : Prop :=
  ∃ significand exponent positive, value = .finite .positive significand exponent positive ∧
    2 ^ 52 ≤ significand ∧ significand < 2 ^ 53 ∧ (significand : ℚ) * 2 ^ exponent = number

def Short (number : ℚ) : Prop :=
  ∃ count : Nat, count < 2 ^ 53 ∧ ∃ place : Int, number = count * 2 ^ place

/-- The value is a number near this one, and this one itself if it has at most 53 bits. -/
def RoundsTo (exact : ℚ) (value : UnpackedFloat) : Prop :=
  ∃ number, StandsFor value number ∧ Near exact number ∧ (Short exact → number = exact)

theorem two_zpow_pos (exponent : Int) : (0 : ℚ) < 2 ^ exponent := zpow_pos (by norm_num) _

theorem two_zpow_lt {first second : Int} (less : (2 : ℚ) ^ first < 2 ^ second) : first < second :=
  (zpow_lt_zpow_iff_right₀ (by norm_num)).mp less

theorem two_pow_mul_zpow (places : Nat) (exponent : Int) :
    (2 : ℚ) ^ places * 2 ^ exponent = 2 ^ (places + exponent) := by
  rw [zpow_add₀ (by norm_num), zpow_natCast]

section Significands

variable {significand : Nat} (exponent : Int)

theorem significand_ge (atLeast : 2 ^ 52 ≤ significand) :
    (2 : ℚ) ^ (52 + exponent) ≤ significand * 2 ^ exponent := by
  have long : (2 : ℚ) ^ 52 ≤ significand := by exact_mod_cast atLeast
  have scaled := mul_le_mul_of_nonneg_right long (two_zpow_pos exponent).le
  rwa [two_pow_mul_zpow] at scaled

theorem significand_lt (atMost : significand < 2 ^ 53) :
    (significand : ℚ) * 2 ^ exponent < 2 ^ (53 + exponent) := by
  have short : (significand : ℚ) < 2 ^ 53 := by exact_mod_cast atMost
  have scaled := mul_lt_mul_of_pos_right short (two_zpow_pos exponent)
  rwa [two_pow_mul_zpow] at scaled

end Significands

namespace StandsFor

variable {value other : UnpackedFloat} {number greater : ℚ}

theorem pos (stands : StandsFor value number) : 0 < number := by
  obtain ⟨significand, exponent, positive, _, _, _, rfl⟩ := stands
  exact mul_pos (Nat.cast_pos.mpr positive) (two_zpow_pos exponent)

theorem full {least greatest : Int} (stands : StandsFor value number)
    (above : (2 : ℚ) ^ (52 + least) ≤ number) (below : number < 2 ^ (53 + greatest)) :
    FullBetween least greatest value := by
  obtain ⟨significand, exponent, positive, same, atLeast, atMost, rfl⟩ := stands
  have upper := two_zpow_lt (above.trans_lt (significand_lt exponent atMost))
  have lower := two_zpow_lt ((significand_ge exponent atLeast).trans_lt below)
  exact ⟨significand, exponent, positive, same, atLeast, atMost, by omega, by omega⟩

theorem unpack_pack (stands : StandsFor value number) (above : (2 : ℚ) ^ (-1022 : Int) ≤ number)
    (below : number < 2 ^ (1024 : Int)) :
    UnpackedFloat.unpack Format.binary64 (UnpackedFloat.pack Format.binary64 value) = value := by
  have full : FullBetween (-1074) 971 value := stands.full above below
  exact full.unpack_pack (by decide) (by decide)

theorem lt_iff (stands : StandsFor value number) (otherStands : StandsFor other greater) :
    value.lt other = true ↔ number < greater := by
  obtain ⟨significand, exponent, _, rfl, atLeast, atMost, rfl⟩ := stands
  obtain ⟨significand', exponent', _, rfl, atLeast', atMost', rfl⟩ := otherStands
  rw [lt_iff_order_key rfl rfl, orderKey, orderKey, Prod.Lex.toLex_lt_toLex,
    Prod.Lex.toLex_lt_toLex]
  simp only [lt_self_iff_false, true_and, false_or, Nat.cast_lt]
  constructor
  · rintro (before | ⟨rfl, smaller⟩)
    · calc (significand : ℚ) * 2 ^ exponent < 2 ^ (53 + exponent) := significand_lt exponent atMost
        _ ≤ 2 ^ (52 + exponent') := zpow_le_zpow_right₀ one_le_two (by omega)
        _ ≤ significand' * 2 ^ exponent' := significand_ge exponent' atLeast'
    · exact mul_lt_mul_of_pos_right (Nat.cast_lt.mpr smaller) (two_zpow_pos exponent)
  · intro less
    have order := two_zpow_lt
      (((significand_ge exponent atLeast).trans_lt less).trans (significand_lt exponent' atMost'))
    rcases lt_or_eq_of_le (show exponent ≤ exponent' by omega) with before | same
    · exact .inl before
    · subst same
      exact .inr ⟨rfl, Nat.cast_lt.mp (lt_of_mul_lt_mul_right less (two_zpow_pos exponent).le)⟩

end StandsFor

section Rounding

theorem shift_of_multiple (count shift : Nat) :
    ExtendedMantissa.ofMantissaAndAccuracy (count * 2 ^ shift) .exact >>> shift =
      ExtendedMantissa.ofMantissaAndAccuracy count .exact := by
  induction shift generalizing count with
  | zero => rw [Nat.pow_zero, Nat.mul_one]; rfl
  | succ shift induction =>
      have halved : ExtendedMantissa.shiftRightOne (.ofMantissaAndAccuracy (count * 2) .exact) =
          .ofMantissaAndAccuracy count .exact := by
        simp [ExtendedMantissa.shiftRightOne, ExtendedMantissa.ofMantissaAndAccuracy]
      calc ExtendedMantissa.ofMantissaAndAccuracy (count * 2 ^ (shift + 1)) .exact >>> (shift + 1)
          = (ExtendedMantissa.ofMantissaAndAccuracy (count * 2 * 2 ^ shift) .exact >>>
              shift).shiftRightOne := by
            rw [Nat.pow_succ', Nat.mul_assoc]
            rfl
        _ = ExtendedMantissa.ofMantissaAndAccuracy count .exact := by rw [induction, halved]

/-- Zeros that are shifted out of an exact mantissa leave nothing to round. -/
theorem rounded_of_multiple (count shift : Nat) :
    (ExtendedMantissa.ofMantissaAndAccuracy (count * 2 ^ shift) .exact >>>
      shift).roundedMantissa = count := by
  rw [shift_of_multiple]
  rfl

/-- Where a mantissa is cut off, a number that begins with it is between the rest and its
successor. -/
theorem dropped_bounds {mantissa : Nat} (shift : Nat) {exponent : Int} {exact : ℚ}
    (atLeast : mantissa * 2 ^ exponent ≤ exact) (below : exact < (mantissa + 1) * 2 ^ exponent) :
    ((mantissa / 2 ^ shift : Nat) : ℚ) * 2 ^ (exponent + shift) ≤ exact ∧
      exact ≤ ((mantissa / 2 ^ shift : Nat) + 1) * 2 ^ (exponent + shift) := by
  have kept : mantissa / 2 ^ shift * 2 ^ shift ≤ mantissa := Nat.div_mul_le_self _ _
  have lost : mantissa + 1 ≤ (mantissa / 2 ^ shift + 1) * 2 ^ shift :=
    Nat.lt_mul_of_div_lt (Nat.lt_succ_self _) (Nat.two_pow_pos _)
  generalize mantissa / 2 ^ shift = significand at kept lost ⊢
  have place := two_zpow_pos exponent
  have scale : (2 : ℚ) ^ (exponent + shift) = 2 ^ shift * 2 ^ exponent := by
    rw [two_pow_mul_zpow, add_comm]
  constructor
  · calc (significand : ℚ) * 2 ^ (exponent + shift)
        = ((significand * 2 ^ shift : Nat) : ℚ) * 2 ^ exponent := by
          rw [scale]
          push_cast
          ring
      _ ≤ mantissa * 2 ^ exponent :=
          mul_le_mul_of_nonneg_right (Nat.cast_le.mpr kept) place.le
      _ ≤ exact := atLeast
  · calc exact
        ≤ ((mantissa + 1 : Nat) : ℚ) * 2 ^ exponent := by
          push_cast
          exact below.le
      _ ≤ (((significand + 1) * 2 ^ shift : Nat) : ℚ) * 2 ^ exponent :=
          mul_le_mul_of_nonneg_right (Nat.cast_le.mpr lost) place.le
      _ = (significand + 1) * 2 ^ (exponent + shift) := by
          rw [scale]
          push_cast
          ring

/-- A rounded mantissa is the exact value without the dropped places or one more than that. -/
theorem near_of_rounded {mantissa shift rounded : Nat} {exponent : Int} {exact : ℚ}
    (excess : mantissa.log2 = 52 + shift) (nonzero : mantissa ≠ 0)
    (roundedCases : rounded = mantissa / 2 ^ shift ∨ rounded = mantissa / 2 ^ shift + 1)
    (atLeast : mantissa * 2 ^ exponent ≤ exact) (below : exact < (mantissa + 1) * 2 ^ exponent) :
    Near exact (rounded * 2 ^ (exponent + shift)) := by
  have long := (full_div_pow nonzero excess).1
  obtain ⟨above, under⟩ := dropped_bounds shift atLeast below
  generalize mantissa / 2 ^ shift = significand at long above under roundedCases
  have gap : (2 : ℚ) ^ (exponent + shift) ≤ exact * roundingUnit := by
    have enough : (2 : ℚ) ^ 52 * 2 ^ (exponent + shift) ≤ exact := by
      apply le_trans _ above
      exact mul_le_mul_of_nonneg_right (by exact_mod_cast long) (two_zpow_pos _).le
    rw [roundingUnit]
    linarith
  rw [Near]
  rcases roundedCases with rfl | rfl
  · constructor
    · linarith
    · linarith
  · push_cast
    constructor
    · linarith
    · linarith

theorem stands_of_carry {significand carry rounded : Nat} {positive : 0 < significand}
    {exponent : Int} (full : 2 ^ 52 ≤ significand) (fits : significand < 2 ^ 53)
    (carried : significand * 2 ^ carry = rounded) :
    StandsFor (.finite .positive significand (exponent + carry) positive)
      (rounded * 2 ^ exponent) := by
  refine ⟨significand, _, positive, rfl, full, fits, ?_⟩
  rw [← carried, add_comm exponent, ← two_pow_mul_zpow]
  push_cast
  ring

/-- A mantissa that stands for a number of at most 53 bits ends with as many zeros as it has bits
too many. -/
theorem multiple_of_short {mantissa shift : Nat} {exponent : Int} (nonzero : mantissa ≠ 0)
    (excess : mantissa.log2 = 52 + shift) (short : Short ((mantissa : ℚ) * 2 ^ exponent)) :
    ∃ count, mantissa = count * 2 ^ shift := by
  obtain ⟨count, fits, place, same⟩ := short
  have least : (2 : ℚ) ^ (((52 + shift : Nat) : Int) + exponent) ≤ mantissa * 2 ^ exponent := by
    rw [← two_pow_mul_zpow, ← excess]
    apply mul_le_mul_of_nonneg_right _ (two_zpow_pos exponent).le
    exact_mod_cast Nat.log2_self_le nonzero
  have under := significand_lt place fits
  rw [← same] at under
  have order := two_zpow_lt (least.trans_lt under)
  obtain ⟨further, rfl⟩ : ∃ further : Nat, place = exponent + shift + further :=
    ⟨(place - exponent - shift).toNat, by omega⟩
  refine ⟨count * 2 ^ further, ?_⟩
  have scaled : (mantissa : ℚ) * 2 ^ exponent =
      ((count * 2 ^ further * 2 ^ shift : Nat) : ℚ) * 2 ^ exponent := by
    rw [same, add_comm, ← two_pow_mul_zpow, add_comm, ← two_pow_mul_zpow]
    push_cast
    ring
  exact Nat.cast_injective (mul_right_cancel₀ (two_zpow_pos exponent).ne' scaled)

/-- Rounding a number whose first bits are a mantissa of at least 53 bits. -/
theorem rounds_to {mantissa : Nat} {exponent : Int} {accuracy : Accuracy} {exact : ℚ}
    (long : 2 ^ 52 ≤ mantissa) (normal : -1074 ≤ mantissa.log2 + exponent - 52)
    (atLeast : mantissa * 2 ^ exponent ≤ exact) (below : exact < (mantissa + 1) * 2 ^ exponent)
    (whole : Short exact → accuracy = .exact ∧ mantissa * 2 ^ exponent = exact) :
    RoundsTo exact (roundWithAccuracy Format.binary64 .positive mantissa exponent accuracy) := by
  obtain ⟨shift, carry, significand, positive, excess, _, full, fits, rounding, carried⟩ :=
    round_of_long exponent accuracy long normal
  have cases := rounded_mantissa_cases
    (ExtendedMantissa.ofMantissaAndAccuracy mantissa accuracy >>> shift)
  rw [shifted_mantissa, of_mantissa_and_accuracy_mantissa, ← carried] at cases
  rw [rounding]
  refine ⟨_, stands_of_carry full fits carried, carried ▸ near_of_rounded excess (by omega) cases
    atLeast below, fun short => ?_⟩
  obtain ⟨rfl, same⟩ := whole short
  obtain ⟨count, multiple⟩ := multiple_of_short (by omega) excess (same ▸ short)
  rw [← same, multiple, rounded_of_multiple, add_comm, ← two_pow_mul_zpow]
  push_cast
  ring

theorem rounds_exact {mantissa : Nat} (exponent : Int) (long : 2 ^ 52 ≤ mantissa)
    (normal : -1074 ≤ mantissa.log2 + exponent - 52) :
    RoundsTo (mantissa * 2 ^ exponent)
      (roundWithAccuracy Format.binary64 .positive mantissa exponent .exact) :=
  rounds_to long normal le_rfl (mul_lt_mul_of_pos_right (lt_add_one _) (two_zpow_pos exponent))
    fun _ => ⟨rfl, rfl⟩

end Rounding

namespace RoundsTo

variable {exact : ℚ} {value : UnpackedFloat}

theorem exactly (rounds : RoundsTo exact value) (short : Short exact) : StandsFor value exact := by
  obtain ⟨number, stands, _, unchanged⟩ := rounds
  rwa [← unchanged short]

theorem unpack_pack (rounds : RoundsTo exact value) (above : (2 : ℚ) ^ (-1021 : Int) ≤ exact)
    (below : exact < 2 ^ (1023 : Int)) :
    UnpackedFloat.unpack Format.binary64 (UnpackedFloat.pack Format.binary64 value) = value := by
  obtain ⟨number, stands, near, _⟩ := rounds
  obtain ⟨lower, upper⟩ := near.within_twice ((two_zpow_pos _).le.trans above)
  apply stands.unpack_pack
  · calc (2 : ℚ) ^ (-1022 : Int) = 2 ^ (-1021 : Int) / 2 := by
          rw [div_eq_mul_inv, ← zpow_sub_one₀ two_ne_zero]
          rfl
      _ ≤ number := (div_le_div_of_nonneg_right above two_pos.le).trans lower
  · calc number < 2 ^ (1023 : Int) * 2 := upper.trans_lt (mul_lt_mul_of_pos_right below two_pos)
      _ = 2 ^ (1024 : Int) := by
          rw [← zpow_add_one₀ two_ne_zero]
          rfl

end RoundsTo

section Operations

variable {first second : UnpackedFloat} {left right : ℚ}

theorem shift_left_value (mantissa places : Nat) (exponent : Int) :
    ((mantissa <<< places : Nat) : ℚ) * 2 ^ exponent = mantissa * 2 ^ (exponent + places) := by
  rw [Nat.shiftLeft_eq, add_comm, ← two_pow_mul_zpow]
  push_cast
  ring

theorem le_shift_left (mantissa places : Nat) : mantissa ≤ mantissa <<< places := by
  rw [Nat.shiftLeft_eq]
  exact Nat.le_mul_of_pos_right _ (Nat.two_pow_pos _)

theorem normalize_of_long {mantissa : Nat} {exponent : Int} (long : 2 ^ 52 ≤ mantissa)
    (normal : -1074 ≤ mantissa.log2 + exponent - 52) :
    UnpackedFloat.normalize Format.binary64 mantissa exponent .positive =
      roundWithAccuracy Format.binary64 .positive mantissa exponent .exact := by
  have isPositive : compare (mantissa : Int) 0 = .gt := compare_gt_iff_gt.mpr (by omega)
  have enough := (Nat.le_log2 (by omega)).mpr long
  have amount : (exponent - ((mantissa.log2 : Int) + exponent - 52)).toNat = 0 := by omega
  simp only [UnpackedFloat.normalize, isPositive, UnpackedFloat.round, Int.toNat_natCast,
    target_exponent_of_normal _ _ normal, decreaseExponent, amount, Nat.shiftLeft_zero,
    Int.natCast_zero, Int.sub_zero]

theorem add_rounds (firstStands : StandsFor first left) (secondStands : StandsFor second right)
    (above : (2 : ℚ) ^ (-1022 : Int) ≤ left) (otherAbove : (2 : ℚ) ^ (-1022 : Int) ≤ right) :
    RoundsTo (left + right) (UnpackedFloat.add Format.binary64 first second) := by
  obtain ⟨significand, exponent, _, rfl, atLeast, atMost, rfl⟩ := firstStands
  obtain ⟨significand', exponent', _, rfl, atLeast', atMost', rfl⟩ := secondStands
  have bound := two_zpow_lt (above.trans_lt (significand_lt exponent atMost))
  have bound' := two_zpow_lt (otherAbove.trans_lt (significand_lt exponent' atMost'))
  obtain ⟨least, common⟩ : ∃ least, min exponent exponent' = least := ⟨_, rfl⟩
  obtain ⟨places, moved⟩ : ∃ places, (exponent - least).toNat = places := ⟨_, rfl⟩
  obtain ⟨places', moved'⟩ : ∃ places, (exponent' - least).toNat = places := ⟨_, rfl⟩
  have long : 2 ^ 52 ≤ significand <<< places + significand' <<< places' :=
    (atLeast.trans (le_shift_left significand places)).trans (Nat.le_add_right _ _)
  have enough := (Nat.le_log2 (by omega)).mpr long
  have sum : ((significand <<< places + significand' <<< places' : Nat) : ℚ) * 2 ^ least =
      significand * 2 ^ exponent + significand' * 2 ^ exponent' := by
    rw [Nat.cast_add, add_mul, shift_left_value, shift_left_value,
      show least + places = exponent by omega, show least + places' = exponent' by omega]
  rw [← sum]
  have rounded := rounds_exact least long (by omega)
  rw [← normalize_of_long long (by omega)] at rounded
  simp only [UnpackedFloat.add, common, decreaseExponent, moved, moved']
  exact rounded

theorem mul_rounds (firstStands : StandsFor first left) (secondStands : StandsFor second right)
    (above : (2 : ℚ) ^ (-1021 : Int) ≤ left * right) :
    RoundsTo (left * right) (UnpackedFloat.mul Format.binary64 first second) := by
  obtain ⟨significand, exponent, _, rfl, atLeast, atMost, rfl⟩ := firstStands
  obtain ⟨significand', exponent', _, rfl, atLeast', atMost', rfl⟩ := secondStands
  have long : 2 ^ 52 * 2 ^ 52 ≤ significand * significand' := Nat.mul_le_mul atLeast atLeast'
  have enough := (Nat.le_log2 (k := 104) (by omega)).mpr long
  have fits : significand * significand' < 2 ^ 53 * 2 ^ 53 := Nat.mul_lt_mul'' atMost atMost'
  have product : ((significand * significand' : Nat) : ℚ) * 2 ^ (exponent + exponent') =
      significand * 2 ^ exponent * (significand' * 2 ^ exponent') := by
    rw [zpow_add₀ (by norm_num)]
    push_cast
    ring
  rw [← product] at above ⊢
  have short : ((significand * significand' : Nat) : ℚ) < 2 ^ 106 := by exact_mod_cast fits
  have scaled := above.trans_lt (mul_lt_mul_of_pos_right short (two_zpow_pos _))
  rw [two_pow_mul_zpow] at scaled
  have bound := two_zpow_lt scaled
  exact rounds_exact _ (by omega) (by omega)

section Fractions

variable {numerator divisor : Nat} {exponent : Int} {exact : ℚ}

theorem fraction_bounds (positive : 0 < divisor)
    (same : exact * divisor = numerator * 2 ^ exponent) :
    ((numerator / divisor : Nat) : ℚ) * 2 ^ exponent ≤ exact ∧
      exact < ((numerator / divisor : Nat) + 1) * 2 ^ exponent := by
  have kept : numerator / divisor * divisor ≤ numerator := Nat.div_mul_le_self _ _
  have lost : numerator < (numerator / divisor + 1) * divisor :=
    Nat.lt_mul_of_div_lt (Nat.lt_succ_self _) positive
  have divisorPositive : (0 : ℚ) < divisor := Nat.cast_pos.mpr positive
  constructor
  · apply le_of_mul_le_mul_right _ divisorPositive
    rw [same, mul_right_comm]
    exact mul_le_mul_of_nonneg_right (by exact_mod_cast kept) (two_zpow_pos exponent).le
  · apply lt_of_mul_lt_mul_right _ divisorPositive.le
    rw [same, mul_right_comm]
    exact mul_lt_mul_of_pos_right (by exact_mod_cast lost) (two_zpow_pos exponent)

/-- A division without enough bits to round comes out even. -/
theorem fraction_even (positive : 0 < divisor)
    (same : exact * divisor = numerator * 2 ^ exponent) (long : 2 ^ 52 ≤ numerator / divisor)
    (short : Short exact) : divisor ∣ numerator := by
  obtain ⟨count, fits, place, rfl⟩ := short
  have order := two_zpow_lt (((significand_ge exponent long).trans
    (fraction_bounds positive same).1).trans_lt (significand_lt place fits))
  obtain ⟨further, rfl⟩ : ∃ further : Nat, place = exponent + further :=
    ⟨(place - exponent).toNat, by omega⟩
  refine ⟨count * 2 ^ further, ?_⟩
  have scaled : (numerator : ℚ) * 2 ^ exponent =
      ((divisor * (count * 2 ^ further) : Nat) : ℚ) * 2 ^ exponent := by
    rw [← same, add_comm, ← two_pow_mul_zpow]
    push_cast
    ring
  exact Nat.cast_injective (mul_right_cancel₀ (two_zpow_pos exponent).ne' scaled)

end Fractions

/-- The quotient of full significands has at least 53 bits. -/
theorem div_core_of_full {first second : Nat} {firstExponent secondExponent : Int}
    (firstLong : 2 ^ 52 ≤ first) (firstFits : first < 2 ^ 53) (secondLong : 2 ^ 52 ≤ second)
    (secondFits : second < 2 ^ 53) (normal : -1021 ≤ firstExponent - secondExponent) :
    divCore Format.binary64 first firstExponent second secondExponent =
      (first * 2 ^ 53 / second, firstExponent - secondExponent - 53,
        accuracyOfFraction (first * 2 ^ 53 % second) second) := by
  have target : min (firstExponent - secondExponent) (Format.binary64.targetExponent
      (totalExponent first firstExponent - totalExponent second secondExponent)) =
      firstExponent - secondExponent - 53 := by
    have bits : Format.binary64.mantissaBits = 53 := rfl
    have minimum : Format.binary64.minExponent = -1074 := rfl
    rw [Format.targetExponent, totalExponent, totalExponent, bits, minimum,
      log2_eq_of_full firstLong firstFits, log2_eq_of_full secondLong secondFits]
    omega
  have amount : (firstExponent - secondExponent - (firstExponent - secondExponent - 53)).toNat
      = 53 := by omega
  simp only [divCore, target, amount, Nat.shiftLeft_eq]

theorem div_rounds (firstStands : StandsFor first left) (secondStands : StandsFor second right)
    (above : (2 : ℚ) ^ (-1020 : Int) ≤ left / right) :
    RoundsTo (left / right) (UnpackedFloat.div Format.binary64 first second) := by
  obtain ⟨dividend, exponent, _, rfl, atLeast, atMost, rfl⟩ := firstStands
  obtain ⟨divisor, exponent', positive, rfl, atLeast', atMost', rfl⟩ := secondStands
  have same : (dividend : ℚ) * 2 ^ exponent / (divisor * 2 ^ exponent') * divisor =
      ((dividend * 2 ^ 53 : Nat) : ℚ) * 2 ^ (exponent - exponent' - 53) := by
    have nonzero : (divisor : ℚ) ≠ 0 := Nat.cast_ne_zero.mpr positive.ne'
    rw [zpow_sub₀ two_ne_zero, zpow_sub₀ two_ne_zero]
    push_cast
    field_simp
  generalize (dividend : ℚ) * 2 ^ exponent / (divisor * 2 ^ exponent') = exact at above same ⊢
  have long : 2 ^ 52 ≤ dividend * 2 ^ 53 / divisor := by
    rw [Nat.le_div_iff_mul_le positive]
    omega
  have fits : dividend * 2 ^ 53 / divisor < 2 ^ 54 := by
    rw [Nat.div_lt_iff_lt_mul positive]
    omega
  have enough := (Nat.le_log2 (by omega)).mpr long
  obtain ⟨lower, upper⟩ := fraction_bounds positive same
  have normal : -1020 < exponent - exponent' + 1 := by
    have short : (((dividend * 2 ^ 53 / divisor : Nat) : ℚ) + 1) ≤ 2 ^ 54 := by
      exact_mod_cast fits
    have scaled := above.trans_lt (upper.trans_le
      (mul_le_mul_of_nonneg_right short (two_zpow_pos _).le))
    rw [two_pow_mul_zpow] at scaled
    have order := two_zpow_lt scaled
    omega
  simp only [UnpackedFloat.div]
  rw [div_core_of_full atLeast atMost atLeast' atMost' (by omega)]
  apply rounds_to long (by omega) lower upper
  intro short
  have even := fraction_even positive same long short
  have none_left : dividend * 2 ^ 53 % divisor = 0 := Nat.mod_eq_zero_of_dvd even
  constructor
  · rw [accuracyOfFraction, if_pos none_left]
  · have nonzero : (divisor : ℚ) ≠ 0 := Nat.cast_ne_zero.mpr positive.ne'
    apply mul_right_cancel₀ nonzero
    rw [same, mul_right_comm, ← Nat.cast_mul, Nat.div_mul_cancel even]

end Operations

section Counts

variable {count total : Nat}

theorem short_of_count (fits : count < 2 ^ 53) : Short count :=
  ⟨count, fits, 0, by rw [zpow_zero, mul_one]⟩

theorem count_above (positive : 0 < count) {least : Int} (small : least ≤ 0) :
    (2 : ℚ) ^ least ≤ count := by
  calc (2 : ℚ) ^ least ≤ 2 ^ (0 : Int) := zpow_le_zpow_right₀ one_le_two small
    _ = 1 := zpow_zero 2
    _ ≤ count := by exact_mod_cast positive

theorem count_below (bounded : count < 2 ^ 64) {greatest : Int} (great : 64 ≤ greatest) :
    (count : ℚ) < 2 ^ greatest := by
  calc (count : ℚ) < 2 ^ 64 := by exact_mod_cast bounded
    _ = 2 ^ (64 : Int) := by norm_num
    _ ≤ 2 ^ greatest := zpow_le_zpow_right₀ one_le_two great

theorem log2_shift_left {number : Nat} (nonzero : number ≠ 0) (shift : Nat) :
    (number <<< shift).log2 = number.log2 + shift := by
  induction shift with
  | zero => rfl
  | succ shift induction =>
      have shifted : number <<< shift ≠ 0 := by simpa [Nat.shiftLeft_eq_zero_iff] using nonzero
      rw [Nat.shiftLeft_succ, Nat.log2_two_mul shifted, induction, Nat.add_assoc]

/-- A count of at most 53 bits is first filled up to a full significand. -/
theorem stands_of_short (positive : 0 < count) (short : count < 2 ^ 53) :
    StandsFor (UnpackedFloat.ofNat Format.binary64 count) count := by
  have nonzero : count ≠ 0 := by omega
  have length := (Nat.log2_lt nonzero).mpr short
  have isPositive : compare (count : Int) 0 = .gt := compare_gt_iff_gt.mpr (by omega)
  obtain ⟨shift, filled⟩ : ∃ shift, count.log2 + shift = 52 := ⟨52 - count.log2, by omega⟩
  have target := target_exponent_of_normal count 0 (by omega)
  have amount : (0 - ((count.log2 : Int) + 0 - 52)).toNat = shift := by omega
  have shiftedLength : (count <<< shift).log2 = 52 := by rw [log2_shift_left nonzero, filled]
  have long : 2 ^ 52 ≤ count <<< shift := by
    rw [← shiftedLength]
    exact Nat.log2_self_le (by simpa [Nat.shiftLeft_eq_zero_iff] using nonzero)
  have rounded := rounds_exact (0 - shift) long (by omega)
  rw [shift_left_value, sub_add_cancel, zpow_zero, mul_one] at rounded
  simp only [UnpackedFloat.ofNat, UnpackedFloat.ofInt, UnpackedFloat.normalize, isPositive,
    UnpackedFloat.round, Int.toNat_natCast, target, decreaseExponent, amount]
  exact rounded.exactly (short_of_count short)

theorem unpack_one : StandsFor (Float.ofBits 0x3FF0000000000000).toModel.unpack 1 :=
  ⟨2 ^ 52, -52, by decide, rfl, by decide, by decide, by norm_num⟩

theorem unpack_whole (positive : 0 < count) (short : count < 2 ^ 53) :
    StandsFor count.toUInt64.toFloat.toModel.unpack count := by
  have counted : count.toUInt64.toNat = count := by
    rw [Nat.toUInt64_eq, UInt64.toNat_ofNat', Nat.mod_eq_of_lt (by omega)]
  have stands := stands_of_short positive short
  change StandsFor (UnpackedFloat.unpack Format.binary64 (UnpackedFloat.pack Format.binary64
    (UnpackedFloat.ofNat Format.binary64 count.toUInt64.toNat))) count
  rwa [counted, stands.unpack_pack (count_above positive (by decide))
    (count_below (by omega) (by decide))]

theorem rounds_of_scaled (positive : 0 < count) (short : count < 2 ^ 53) :
    RoundsTo count
      (count.toUInt64.toFloat * Float.ofBits 0x3FF0000000000000).toModel.unpack := by
  have product := mul_rounds (unpack_whole positive short) unpack_one
    (by rw [mul_one]; exact count_above positive (by decide))
  rw [mul_one] at product
  change RoundsTo count (UnpackedFloat.unpack Format.binary64 (UnpackedFloat.pack
    Format.binary64 (UnpackedFloat.mul Format.binary64 count.toUInt64.toFloat.toModel.unpack
      (Float.ofBits 0x3FF0000000000000).toModel.unpack)))
  rwa [product.unpack_pack (count_above positive (by decide)) (count_below (by omega) (by decide))]

theorem rounds_of_long (long : 2 ^ 53 ≤ count) (bounded : count < 2 ^ 64) :
    RoundsTo count (Float.Model.ofScientific count 0).unpack := by
  have nonzero : count ≠ 0 := by omega
  have lower := (Nat.le_log2 nonzero).mpr long
  have length : (count <<< 53 * 10 ^ 0).log2 = count.log2 + 53 := by
    rw [Nat.pow_zero, Nat.mul_one, log2_shift_left nonzero]
  have rounded : RoundsTo count (roundWithAccuracy Format.binary64 .positive
      (count <<< 53 * 10 ^ 0) (-53 + 0) .exact) := by
    have filled := rounds_exact (-53 + 0)
      (show 2 ^ 52 ≤ count <<< 53 * 10 ^ 0 by rw [Nat.shiftLeft_eq]; omega) (by omega)
    have value : ((count <<< 53 * 10 ^ 0 : Nat) : ℚ) * 2 ^ (-53 + 0 : Int) = count := by
      rw [Nat.pow_zero, Nat.mul_one, shift_left_value]
      norm_num
    rwa [value] at filled
  rw [← rounded.unpack_pack (count_above (by omega) (by decide)) (count_below bounded (by decide))]
    at rounded
  have range : (2 : Int) ^ Format.binary64.exponentBits = 2048 := rfl
  change RoundsTo count (UnpackedFloat.unpack Format.binary64 (UnpackedFloat.pack
    Format.binary64 (UnpackedFloat.ofScientific Format.binary64 count 0)))
  rw [UnpackedFloat.ofScientific, dif_neg nonzero, range, if_neg (by decide),
    if_neg (by omega), if_pos (by decide)]
  exact rounded

theorem rounds_of_count (positive : 0 < count) (bounded : count < 2 ^ 64) :
    RoundsTo count (Float.ofNat count).toModel.unpack := by
  change RoundsTo count (Float.ofScientific count false 0).toModel.unpack
  rw [Float.ofScientific]
  split
  · next short => exact rounds_of_scaled positive short.1
  · next long => exact rounds_of_long (by omega) bounded

theorem stands_of_count (positive : 0 < count) (short : count < 2 ^ 53) :
    StandsFor (Float.ofNat count).toModel.unpack count :=
  (rounds_of_count positive (by omega)).exactly (short_of_count short)

theorem rounds_of_quotient {numerator divisor : ℚ}
    (countStands : StandsFor (Float.ofNat count).toModel.unpack numerator)
    (totalStands : StandsFor (Float.ofNat total).toModel.unpack divisor)
    (above : (2 : ℚ) ^ (-1020 : Int) ≤ numerator / divisor)
    (below : numerator / divisor < 2 ^ (1023 : Int)) :
    RoundsTo (numerator / divisor) (Weight.share total count : Float).toModel.unpack := by
  have quotient := div_rounds countStands totalStands above
  have widened : (2 : ℚ) ^ (-1021 : Int) ≤ 2 ^ (-1020 : Int) :=
    zpow_le_zpow_right₀ one_le_two (by decide)
  change RoundsTo _ (UnpackedFloat.unpack Format.binary64 (UnpackedFloat.pack Format.binary64
    (UnpackedFloat.div Format.binary64 (Float.ofNat count).toModel.unpack
      (Float.ofNat total).toModel.unpack)))
  rwa [quotient.unpack_pack (widened.trans above) below]

theorem share_rounds (positive : 0 < count) (within : count ≤ total) (bounded : total < 2 ^ 53) :
    RoundsTo (count / total) (Weight.share total count : Float).toModel.unpack := by
  have totalPositive : (0 : ℚ) < total := Nat.cast_pos.mpr (by omega)
  apply rounds_of_quotient (stands_of_count positive (by omega)) (stands_of_count (by omega) bounded)
  · calc (2 : ℚ) ^ (-1020 : Int) ≤ 2 ^ (-53 : Int) := zpow_le_zpow_right₀ one_le_two (by decide)
      _ = 1 / 2 ^ 53 := by norm_num
      _ ≤ 1 / total := one_div_le_one_div_of_le totalPositive (by exact_mod_cast bounded.le)
      _ ≤ count / total :=
          div_le_div_of_nonneg_right (by exact_mod_cast positive) totalPositive.le
  · calc (count : ℚ) / total ≤ 1 := div_le_one_of_le₀ (by exact_mod_cast within) totalPositive.le
      _ = 2 ^ (0 : Int) := (zpow_zero 2).symm
      _ < 2 ^ (1023 : Int) := zpow_lt_zpow_right₀ one_lt_two (by decide)

/-- The share of a positive count in a total that fits a machine word is a normal number. -/
theorem full_share (positive : 0 < count) (within : count ≤ total) (bounded : total < 2 ^ 64) :
    FullBetween (-1074) 971 (Weight.share total count : Float).toModel.unpack := by
  obtain ⟨numerator, countStands, countNear, _⟩ := rounds_of_count positive (by omega)
  obtain ⟨divisor, totalStands, totalNear, _⟩ := rounds_of_count (by omega : 0 < total) bounded
  obtain ⟨countLower, countUpper⟩ := countNear.within_twice (Nat.cast_nonneg _)
  obtain ⟨totalLower, totalUpper⟩ := totalNear.within_twice (Nat.cast_nonneg _)
  have countOne : (1 : ℚ) ≤ count := by exact_mod_cast positive
  have countTotal : (count : ℚ) ≤ total := by exact_mod_cast within
  have totalBound : (total : ℚ) < 2 ^ 64 := by exact_mod_cast bounded
  have divisorPositive := totalStands.pos
  have above : (2 : ℚ) ^ (-66 : Int) ≤ numerator / divisor := by
    rw [le_div_iff₀ divisorPositive]
    norm_num
    linarith
  have below : numerator / divisor < 2 ^ (66 : Int) := by
    rw [div_lt_iff₀ divisorPositive]
    norm_num
    linarith
  obtain ⟨number, stands, near, _⟩ := rounds_of_quotient countStands totalStands
    ((zpow_le_zpow_right₀ one_le_two (by decide)).trans above)
    (below.trans (zpow_lt_zpow_right₀ one_lt_two (by decide)))
  obtain ⟨lower, upper⟩ := near.within_twice (div_pos countStands.pos divisorPositive).le
  apply stands.full
  · calc (2 : ℚ) ^ (52 + -1074 : Int) ≤ 2 ^ (-67 : Int) := zpow_le_zpow_right₀ one_le_two (by decide)
      _ = 2 ^ (-66 : Int) / 2 := by norm_num
      _ ≤ numerator / divisor / 2 := div_le_div_of_nonneg_right above two_pos.le
      _ ≤ number := lower
  · calc number ≤ numerator / divisor * 2 := upper
      _ < 2 ^ (66 : Int) * 2 := mul_lt_mul_of_pos_right below two_pos
      _ = 2 ^ (67 : Int) := by norm_num
      _ ≤ 2 ^ (53 + 971 : Int) := zpow_le_zpow_right₀ one_le_two (by decide)

end Counts

end Cohesion
