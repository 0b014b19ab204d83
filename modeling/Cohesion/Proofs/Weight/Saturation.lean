import Cohesion.Proofs.Weight.Tens
import Cohesion.Proofs.Weight.Unsigned

/-!
# Sums of limited weights do not overflow

A double absorbs what is too small for its last bit, so adding up limited weights comes to a stop at a
power of two, however many there are. The share of a count in a total is such a weight: not above one,
or no number where the total is beyond the range of doubles.
-/

namespace Cohesion

open Float.Model Float.Model.UnpackedFloat

section Rounding

variable {number other rounded otherRounded : ℚ} {value otherValue : UnpackedFloat}

theorem round_nearest {mantissa : Nat} (positive : 0 < mantissa) (exponent : Int) :
    RoundsNearest (mantissa * 2 ^ exponent)
      (UnpackedFloat.round Format.binary64 .positive mantissa exponent) := by
  obtain ⟨places, isPlaces⟩ : ∃ places,
      (exponent - max (mantissa.log2 + exponent - 52) (-1074)).toNat = places := ⟨_, rfl⟩
  have fine : 2 ^ 52 ≤ mantissa <<< places ∨ exponent - places ≤ -1074 := by
    have length := log2_shift_left positive.ne' places
    have shifted := (positive.trans_le (le_shift_left mantissa places)).ne'
    rw [← Nat.le_log2 shifted, length]
    omega
  have number : (mantissa : ℚ) * 2 ^ exponent / 2 ^ (exponent - places) =
      (mantissa <<< places : Nat) := by
    rw [div_eq_iff (two_zpow_pos _).ne', shift_left_value, sub_add_cancel]
  simp only [UnpackedFloat.round, target_exponent_eq, decreaseExponent, isPlaces]
  apply rounds_nearest _ fine
  rw [number]
  exact begins_exact _

theorem Represents.rounds (represents : Represents value number) : RoundsNearest number value := by
  obtain ⟨significand, exponent, canonical, isValue, rfl⟩ := represents
  have place := two_zpow_pos exponent
  have above : exponent = -1074 ∨ (2 : ℚ) ^ (52 + exponent) ≤ significand * 2 ^ exponent :=
    canonical.full.symm.imp_right (significand_ge exponent)
  refine ⟨exponent, significand, ⟨canonical.least, significand_lt exponent canonical.fits, above⟩,
    ?_, significand, exponent, canonical, isValue, rfl⟩
  rw [mul_div_cancel_right₀ _ place.ne']
  apply nearest_of_lt
  norm_num

theorem IsNearest.mono {whole otherWhole : Nat} (nearest : IsNearest number whole)
    (otherNearest : IsNearest other otherWhole) (order : number ≤ other) : whole ≤ otherWhole := by
  by_contra above
  have next : (otherWhole : ℚ) + 1 ≤ whole := by exact_mod_cast not_le.mp above
  have lower := (abs_le.mp nearest.1).1
  have upper := (abs_le.mp otherNearest.1).2
  obtain rfl : number = other := le_antisymm order (by linarith)
  exact above (nearest.unique otherNearest).le

theorem Represents.unique (represents : Represents value number)
    (otherRepresents : Represents value other) : number = other := by
  obtain ⟨_, _, _, rfl, rfl⟩ := represents
  obtain ⟨_, _, _, same, rfl⟩ := otherRepresents
  exact (value_of_inj same).2

theorem RoundsNearest.mono (rounds : RoundsNearest number value)
    (otherRounds : RoundsNearest other otherValue) (order : number ≤ other)
    (represents : Represents value rounded) (otherRepresents : Represents otherValue otherRounded) :
    rounded ≤ otherRounded := by
  obtain ⟨exponent, whole, unit, nearest, isRounded⟩ := rounds
  obtain ⟨otherExponent, otherWhole, otherUnit, otherNearest, otherIsRounded⟩ := otherRounds
  rw [represents.unique isRounded, otherRepresents.unique otherIsRounded]
  obtain ⟨short, _⟩ := unit.significand_bounds nearest
  obtain ⟨_, otherFull⟩ := otherUnit.significand_bounds otherNearest
  have least := unit.least
  have atMost : exponent ≤ otherExponent := by
    rcases unit.above with rfl | above
    · exact otherUnit.least
    · have places := two_zpow_lt ((above.trans order).trans_lt otherUnit.below)
      omega
  rcases atMost.lt_or_eq with less | rfl
  · have full : 2 ^ 52 ≤ otherWhole := otherFull.resolve_right (by omega)
    calc (whole : ℚ) * 2 ^ exponent ≤ 2 ^ 53 * 2 ^ exponent :=
          mul_le_mul_of_nonneg_right (by exact_mod_cast short) (two_zpow_pos _).le
      _ = 2 ^ (53 + exponent) := two_pow_mul_zpow 53 exponent
      _ ≤ 2 ^ (52 + otherExponent) := zpow_le_zpow_right₀ one_le_two (by omega)
      _ ≤ otherWhole * 2 ^ otherExponent := significand_ge otherExponent full
  · have place := two_zpow_pos exponent
    apply mul_le_mul_of_nonneg_right _ place.le
    exact_mod_cast nearest.mono otherNearest (div_le_div_of_nonneg_right order place.le)

/-- What is below a power of two is not rounded to more than this power. -/
theorem RoundsNearest.within_power {places : Nat} (rounds : RoundsNearest number value)
    (less : number < 2 ^ places) : ∃ rounded, Represents value rounded ∧ rounded ≤ 2 ^ places := by
  obtain ⟨exponent, whole, unit, nearest, represents⟩ := rounds
  refine ⟨_, represents, ?_⟩
  have short : (whole : ℚ) ≤ 2 ^ 53 := by exact_mod_cast (unit.significand_bounds nearest).1
  have order : 53 + exponent ≤ places := by
    rcases unit.above with rfl | above
    · omega
    · rw [← zpow_natCast] at less
      have lower := two_zpow_lt (above.trans_lt less)
      omega
  calc (whole : ℚ) * 2 ^ exponent ≤ 2 ^ 53 * 2 ^ exponent :=
        mul_le_mul_of_nonneg_right short (two_zpow_pos _).le
    _ = 2 ^ (53 + exponent) := two_pow_mul_zpow 53 exponent
    _ ≤ 2 ^ (places : Int) := zpow_le_zpow_right₀ one_le_two order
    _ = 2 ^ places := zpow_natCast 2 places

/-- Just above a power of two the last bit that is kept stands for four of what goes beyond it. -/
theorem exponent_above_power {places : Nat} {exponent : Int} (unit : IsUnit number exponent)
    (atLeast : 2 ^ (places + 54) ≤ number) (below : number ≤ 2 ^ (places + 54) + 2 ^ places) :
    exponent = places + 2 := by
  have power : (2 : ℚ) ^ (places + 54) = 2 ^ ((places : Int) + 54) := by norm_cast
  have high := two_zpow_lt ((power ▸ atLeast).trans_lt unit.below)
  have small : (2 : ℚ) ^ places < 2 ^ (places + 54) := by gcongr <;> norm_num
  have twice : (2 : ℚ) ^ ((places : Int) + 55) = 2 * 2 ^ (places + 54) := by
    rw [power, ← zpow_one_add₀ two_ne_zero]
    congr 1
    omega
  have above := unit.above.resolve_left (by omega)
  have low := two_zpow_lt (show (2 : ℚ) ^ (52 + exponent) < 2 ^ ((places : Int) + 55) by linarith)
  omega

/-- What goes beyond a power of two by less than its last bit can hold is rounded away. -/
theorem RoundsNearest.absorbs {places : Nat} (rounds : RoundsNearest number value)
    (below : number ≤ 2 ^ (places + 54) + 2 ^ places) :
    ∃ rounded, Represents value rounded ∧ rounded ≤ 2 ^ (places + 54) := by
  rcases lt_or_ge number (2 ^ (places + 54)) with less | atLeast
  · exact rounds.within_power less
  · obtain ⟨exponent, whole, unit, nearest, represents⟩ := rounds
    obtain rfl := exponent_above_power unit atLeast below
    refine ⟨_, represents, ?_⟩
    have place := two_zpow_pos ((places : Int) + 2)
    have unitPower : (2 : ℚ) ^ ((places : Int) + 2) = 4 * 2 ^ places := by
      rw [zpow_add₀ two_ne_zero, zpow_natCast]
      norm_num [mul_comm]
    have quarter : number / 2 ^ ((places : Int) + 2) ≤ 2 ^ 52 + 1 / 4 := by
      rw [div_le_iff₀ place, unitPower]
      calc number ≤ 2 ^ (places + 54) + 2 ^ places := below
        _ = (2 ^ 52 + 1 / 4) * (4 * 2 ^ places) := by ring
    have atMost : whole ≤ 2 ^ 52 := by
      have off := (abs_le.mp nearest.1).1
      have less : (whole : ℚ) < 2 ^ 52 + 1 := by linarith
      exact Nat.lt_succ_iff.mp (by exact_mod_cast less)
    calc (whole : ℚ) * 2 ^ ((places : Int) + 2) ≤ 2 ^ 52 * 2 ^ ((places : Int) + 2) :=
          mul_le_mul_of_nonneg_right (by exact_mod_cast atMost) place.le
      _ = 2 ^ (places + 54) := by rw [unitPower]; ring

end Rounding

section Operations

variable {first second : UnpackedFloat} {left right : ℚ}

theorem add_nearest (represents : Represents first left) (otherRepresents : Represents second right) :
    RoundsNearest (left + right) (UnpackedFloat.add Format.binary64 first second) := by
  have kept := represents.rounds
  have otherKept := otherRepresents.rounds
  obtain ⟨significand, exponent, _, rfl, rfl⟩ := represents
  obtain ⟨significand', exponent', _, rfl, rfl⟩ := otherRepresents
  rcases Nat.eq_zero_or_pos significand with rfl | positive
  · rw [Nat.cast_zero, zero_mul, zero_add, value_of_zero]
    rcases Nat.eq_zero_or_pos significand' with rfl | positive'
    · simpa [value_of_zero, UnpackedFloat.add] using otherKept
    · simpa [value_of_pos positive', UnpackedFloat.add] using otherKept
  · rcases Nat.eq_zero_or_pos significand' with rfl | positive'
    · simpa [value_of_zero, value_of_pos positive, UnpackedFloat.add] using kept
    · obtain ⟨least, common⟩ : ∃ least, min exponent exponent' = least := ⟨_, rfl⟩
      obtain ⟨places, moved⟩ : ∃ places, (exponent - least).toNat = places := ⟨_, rfl⟩
      obtain ⟨places', moved'⟩ : ∃ places, (exponent' - least).toNat = places := ⟨_, rfl⟩
      have some_bits : 0 < significand <<< places + significand' <<< places' :=
        Nat.add_pos_left (positive.trans_le (le_shift_left significand places)) _
      have sum : ((significand <<< places + significand' <<< places' : Nat) : ℚ) * 2 ^ least =
          significand * 2 ^ exponent + significand' * 2 ^ exponent' := by
        rw [Nat.cast_add, add_mul, shift_left_value, shift_left_value,
          show least + places = exponent by omega, show least + places' = exponent' by omega]
      have isPositive : compare ((significand <<< places + significand' <<< places' : Nat) : Int) 0 =
          .gt := compare_gt_iff_gt.mpr (by omega)
      have rounds := round_nearest some_bits least
      rw [sum] at rounds
      rw [value_of_pos positive, value_of_pos positive']
      simp only [UnpackedFloat.add, common, decreaseExponent, moved, moved']
      change RoundsNearest _ (UnpackedFloat.normalize Format.binary64
        ((significand <<< places + significand' <<< places' : Nat) : Int) least .positive)
      rwa [UnpackedFloat.normalize, isPositive, Int.toNat_natCast]

/-- What is represented is kept by packing, or it becomes infinite. -/
theorem Represents.packed {value : UnpackedFloat} {number : ℚ} (represents : Represents value number) :
    number < 2 ^ (1024 : Int) ∧
        UnpackedFloat.unpack Format.binary64 (UnpackedFloat.pack Format.binary64 value) = value ∨
      ¬number < 2 ^ (1024 : Int) ∧
        UnpackedFloat.unpack Format.binary64 (UnpackedFloat.pack Format.binary64 value) =
          .infinity .positive := by
  by_cases below : number < 2 ^ (1024 : Int)
  · exact .inl ⟨below, represents.unpack_pack below⟩
  · right
    have infinite := mt represents.below below
    have unsigned : Unsigned value := by
      obtain ⟨significand, exponent, _, rfl, _⟩ := represents
      rw [valueOf]
      split <;> trivial
    have packedUnsigned := unsigned_unpack_pack unsigned
    generalize UnpackedFloat.unpack Format.binary64 _ = packed at infinite packedUnsigned ⊢
    rcases packed with (_ | _) | _ | _ | _ <;> simp_all [Unsigned, UnpackedFloat.isInf]

end Operations

/-- No number at all, or one without a sign that is not beyond a power of two. -/
def Limited (places : Nat) (weight : Float) : Prop :=
  weight.toModel.unpack = .notANumber ∨
    ∃ number, Represents weight.toModel.unpack number ∧ number ≤ 2 ^ places

namespace Limited

variable {places : Nat} {weight added : Float} {weights : List Float}

theorem not_infinite (limited : Limited places weight) : weight.isInf = false := by
  change weight.toModel.unpack.isInf = false
  rcases limited with none | ⟨_, ⟨_, _, _, value, _⟩, _⟩
  · rw [none]
    rfl
  · rw [value, value_of_finite.2]

theorem zero (places : Nat) : Limited places Weight.zero := by
  have value : (Weight.zero : Float).toModel.unpack = valueOf .positive 0 (-1074) := rfl
  refine .inr ⟨0, ⟨0, -1074, ⟨by decide, le_rfl, .inr rfl⟩, value, ?_⟩, by positivity⟩
  rw [Nat.cast_zero, zero_mul]

theorem unpack_sum (left right : Float) : (Weight.add left right).toModel.unpack =
    UnpackedFloat.unpack Format.binary64 (UnpackedFloat.pack Format.binary64
      (UnpackedFloat.add Format.binary64 left.toModel.unpack right.toModel.unpack)) := rfl

theorem unpack_pack_none : UnpackedFloat.unpack Format.binary64
    (UnpackedFloat.pack Format.binary64 .notANumber) = .notANumber := rfl

theorem power_lt_top (few : places < 1024) : (2 : ℚ) ^ places < 2 ^ (1024 : Int) := by
  rw [← zpow_natCast]
  exact zpow_lt_zpow_right₀ one_lt_two (by omega)

theorem add (limited : Limited (places + 54) weight) (small : Limited places added)
    (few : places + 54 < 1024) : Limited (places + 54) (Weight.add weight added) := by
  rw [Limited, unpack_sum]
  rcases limited with none | ⟨number, represents, atMost⟩
  · left
    rw [none, UnpackedFloat.add, unpack_pack_none]
  · rcases small with none | ⟨other, otherRepresents, otherAtMost⟩
    · left
      rw [none]
      cases weight.toModel.unpack <;> simp only [UnpackedFloat.add, unpack_pack_none]
    · obtain ⟨rounded, isRounded, below⟩ :=
        (add_nearest represents otherRepresents).absorbs (add_le_add atMost otherAtMost)
      rw [isRounded.unpack_pack (below.trans_lt (power_lt_top few))]
      exact .inr ⟨rounded, isRounded, below⟩

theorem foldl_add (few : places + 54 < 1024) (start : Limited (places + 54) weight)
    (small : ∀ added ∈ weights, Limited places added) :
    Limited (places + 54) (weights.foldl Weight.add weight) := by
  induction weights generalizing weight with
  | nil => exact start
  | cons added rest induction =>
      rw [List.forall_mem_cons] at small
      exact induction (start.add small.1 few) small.2

theorem accumulate (few : places + 54 < 1024) (small : ∀ added ∈ weights, Limited places added) :
    Limited (places + 54) (Weight.accumulate weights) := foldl_add few (zero _) small

theorem weaken {more : Nat} (limited : Limited places weight) (order : places ≤ more) :
    Limited more weight := limited.imp_right fun ⟨number, represents, atMost⟩ =>
  ⟨number, represents, atMost.trans (pow_le_pow_right₀ one_le_two order)⟩

theorem negative_zero_add {value : UnpackedFloat} {number : ℚ} (represents : Represents value number) :
    UnpackedFloat.add Format.binary64 (.zero .negative) value = value := by
  obtain ⟨significand, exponent, _, rfl, _⟩ := represents
  rw [valueOf]
  split <;> rfl

/-- A sum from negative zero on is not infinite either. -/
theorem sum_not_infinite (few : places + 54 < 1024) (small : ∀ added ∈ weights, Limited places added) :
    (Weight.sum weights).isInf = false := by
  cases weights with
  | nil => rfl
  | cons added rest =>
      rw [List.forall_mem_cons] at small
      have empty : (Weight.emptySum : Float).toModel.unpack = .zero .negative := rfl
      have start : Limited places (Weight.add Weight.emptySum added) := by
        rw [Limited, unpack_sum, empty]
        rcases small.1 with none | ⟨number, represents, atMost⟩
        · left
          rw [none]
          exact unpack_pack_none
        · rw [negative_zero_add represents,
            represents.unpack_pack (atMost.trans_lt (power_lt_top (by omega)))]
          exact .inr ⟨number, represents, atMost⟩
      exact (foldl_add few (start.weaken (Nat.le_add_right _ _)) small.2).not_infinite

end Limited

section Shares

variable {count total : Nat}

/-- Every positive count is rounded to the nearest double, or to infinity. -/
theorem count_rounds (positive : 0 < count) : ∃ value, RoundsNearest count value ∧
    (Float.ofNat count).toModel.unpack =
      UnpackedFloat.unpack Format.binary64 (UnpackedFloat.pack Format.binary64 value) := by
  rcases Nat.lt_or_ge count (2 ^ 53) with short | long
  · have represents := (stands_of_count positive short).represents (count_above positive (by decide))
    have kept := represents.unpack_pack (count_below (by omega) (by decide))
    exact ⟨_, represents.rounds, kept.symm⟩
  · have rounds := scientific_nearest positive (show 0 ≤ 2048 by decide)
    rw [pow_zero, mul_one] at rounds
    exact ⟨_, rounds, unpack_scientific (by omega)⟩

/-- A share is limited. It is no number when both counts are beyond the range of doubles. -/
theorem limited_share (positive : 0 < count) (within : count ≤ total) :
    Limited 54 (Weight.share total count) := by
  obtain ⟨value, rounds, isCount⟩ := count_rounds positive
  obtain ⟨otherValue, otherRounds, isTotal⟩ := count_rounds (positive.trans_le within)
  obtain ⟨number, represents, _⟩ := rounds.near_of_normal (count_above positive (by decide))
  obtain ⟨other, otherRepresents, near⟩ :=
    otherRounds.near_of_normal (count_above (positive.trans_le within) (by decide))
  have order := rounds.mono otherRounds (by exact_mod_cast within) represents otherRepresents
  have quotient : (Weight.share total count : Float).toModel.unpack =
      UnpackedFloat.unpack Format.binary64 (UnpackedFloat.pack Format.binary64
        (UnpackedFloat.div Format.binary64 (Float.ofNat count).toModel.unpack
          (Float.ofNat total).toModel.unpack)) := rfl
  rw [Limited, quotient, isCount, isTotal]
  rcases otherRepresents.packed with ⟨below, kept⟩ | ⟨_, infinite⟩
  · have stands : StandsFor otherValue other := by
      have one : (1 : ℚ) ≤ total := by exact_mod_cast positive.trans_le within
      have lower := (abs_le.mp near).1
      exact otherRepresents.stands (half_normal.trans (by linarith))
    have part : number / other ≤ 2 ^ (0 + 54) + 2 ^ 0 := by
      have notAbove := div_le_one_of_le₀ order otherRepresents.nonneg
      linarith
    obtain ⟨rounded, isRounded, atMost⟩ := (div_nearest represents stands).absorbs part
    rw [represents.unpack_pack (order.trans_lt below), kept,
      isRounded.unpack_pack (atMost.trans_lt (Limited.power_lt_top (by decide)))]
    exact .inr ⟨rounded, isRounded, atMost⟩
  · rw [infinite]
    rcases represents.packed with ⟨_, kept⟩ | ⟨_, alsoInfinite⟩
    · have none_left : UnpackedFloat.div Format.binary64 value (.infinity .positive) =
          .zero .positive := by
        obtain ⟨significand, exponent, _, rfl, _⟩ := represents
        rw [valueOf]
        split <;> rfl
      rw [kept, none_left]
      exact Limited.zero 54
    · rw [alsoInfinite]
      exact .inl rfl

end Shares

end Cohesion
