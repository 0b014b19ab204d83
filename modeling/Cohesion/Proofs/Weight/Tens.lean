import Cohesion.Json.Number
import Cohesion.Proofs.Weight.Nearest

/-!
# Powers of ten as doubles

A power of ten that doubles reach is the nearest double, and one of at most twenty-two places is
exact. The same holds of whole numbers, which are exact when they have at most 53 bits.
-/

namespace Cohesion

open Float.Model Float.Model.UnpackedFloat
open Json (powerOfTen)

theorem scientific_nearest {count places : Nat} (positive : 0 < count) (few : places ≤ 2048) :
    RoundsNearest (count * 10 ^ places)
      (UnpackedFloat.ofScientific Format.binary64 count places) := by
  have range : (2 : Int) ^ Format.binary64.exponentBits = 2048 := rfl
  have bits : Format.binary64.mantissaBits = 53 := rfl
  rw [UnpackedFloat.ofScientific, dif_neg positive.ne', range, if_neg (by omega), if_neg (by omega),
    if_pos (by omega)]
  have tens : 0 < 10 ^ places := Nat.pow_pos (by decide)
  have shifted : 0 < count <<< 53 := positive.trans_le (le_shift_left count 53)
  have long : 2 ^ 52 ≤ count <<< 53 * 10 ^ places := by
    rw [Nat.shiftLeft_eq]
    calc 2 ^ 52 ≤ 1 * 2 ^ 53 * 1 := by decide
      _ ≤ count * 2 ^ 53 * 10 ^ places :=
          Nat.mul_le_mul (Nat.mul_le_mul_right _ positive) tens
  have nearest := product_nearest (-53) 0 shifted tens long
  rw [shift_left_value, zpow_zero, mul_one, Nat.cast_pow, Nat.cast_ofNat, Nat.cast_ofNat,
    neg_add_cancel, zpow_zero, mul_one] at nearest
  exact nearest

/-- The double is off a positive number by not more than half of its last bit. -/
def Nearly (value : UnpackedFloat) (number : ℚ) : Prop :=
  ∃ rounded, StandsFor value rounded ∧ |rounded - number| ≤ number / 2 ^ 53

theorem StandsFor.nearly {value : UnpackedFloat} {number : ℚ} (stands : StandsFor value number) :
    Nearly value number := by
  refine ⟨number, stands, ?_⟩
  rw [sub_self, abs_zero]
  exact div_nonneg stands.pos.le (by norm_num)

/-- The powers of ten that doubles reach are far enough from the end of the range. -/
theorem greatest_ten : (10 : ℚ) ^ 308 * (1 + 1 / 2 ^ 53) < 2 ^ (1024 : Int) := by
  have whole : 10 ^ 308 * (2 ^ 53 + 1) < 2 ^ 1024 * 2 ^ 53 := by decide +kernel
  have cast : (10 : ℚ) ^ 308 * (2 ^ 53 + 1) < 2 ^ 1024 * 2 ^ 53 := by exact_mod_cast whole
  rw [show (2 : ℚ) ^ (1024 : Int) = 2 ^ 1024 from zpow_natCast 2 1024, ← mul_lt_mul_iff_left₀
    (show (0 : ℚ) < 2 ^ 53 by norm_num)]
  calc (10 : ℚ) ^ 308 * (1 + 1 / 2 ^ 53) * 2 ^ 53 = 10 ^ 308 * (2 ^ 53 + 1) := by
        rw [mul_assoc]
        congr 1
        norm_num
    _ < 2 ^ 1024 * 2 ^ 53 := cast

theorem half_normal : (2 : ℚ) ^ (-1022 : Int) ≤ 1 / 2 := by
  calc (2 : ℚ) ^ (-1022 : Int) ≤ 2 ^ (-1 : Int) := zpow_le_zpow_right₀ one_le_two (by decide)
    _ = 1 / 2 := by norm_num

theorem StandsFor.unique {value : UnpackedFloat} {number other : ℚ} (stands : StandsFor value number)
    (otherStands : StandsFor value other) : number = other := by
  obtain ⟨_, _, _, rfl, _, _, rfl⟩ := stands
  obtain ⟨_, _, _, same, _, _, rfl⟩ := otherStands
  injection same with _ isSignificand isExponent
  rw [isSignificand, isExponent]

theorem RoundsNearest.nearly {number : ℚ} {value : UnpackedFloat}
    (rounds : RoundsNearest number value) (above : 1 ≤ number) (below : number ≤ 10 ^ 308) :
    Nearly (UnpackedFloat.unpack Format.binary64 (UnpackedFloat.pack Format.binary64 value))
      number := by
  obtain ⟨rounded, represents, near⟩ :=
    rounds.near_of_normal (half_normal.trans (by linarith))
  obtain ⟨lower, upper⟩ := abs_le.mp near
  have least : 1 / 2 ≤ rounded := by linarith
  have greatest : rounded ≤ 10 ^ 308 * (1 + 1 / 2 ^ 53) := by
    calc rounded ≤ number * (1 + 1 / 2 ^ 53) := by linarith
      _ ≤ 10 ^ 308 * (1 + 1 / 2 ^ 53) := mul_le_mul_of_nonneg_right below (by norm_num)
  rw [represents.unpack_pack (greatest.trans_lt greatest_ten)]
  exact ⟨rounded, represents.stands (half_normal.trans least), near⟩

/-- Beyond the decimals that have doubles of their own, a decimal is multiplied out. -/
theorem unpack_scientific {count places : Nat} (far : ¬(count < 2 ^ 53 ∧ places ≤ 22)) :
    (Float.ofScientific count false places).toModel.unpack =
      UnpackedFloat.unpack Format.binary64 (UnpackedFloat.pack Format.binary64
        (UnpackedFloat.ofScientific Format.binary64 count places)) := by
  rw [Float.ofScientific, dif_neg far]
  rfl

theorem count_nearly {count : Nat} (positive : 0 < count) (bounded : count < 2 ^ 64) :
    Nearly (Float.ofNat count).toModel.unpack count := by
  rcases Nat.lt_or_ge count (2 ^ 53) with short | long
  · exact (stands_of_count positive short).nearly
  · change Nearly (Float.ofScientific count false 0).toModel.unpack count
    have rounds := scientific_nearest positive (show 0 ≤ 2048 by decide)
    rw [pow_zero, mul_one] at rounds
    rw [unpack_scientific (by omega)]
    apply rounds.nearly (by exact_mod_cast positive)
    calc (count : ℚ) ≤ 2 ^ 64 := by exact_mod_cast bounded.le
      _ ≤ 10 ^ 20 := by norm_num
      _ ≤ 10 ^ 308 := pow_le_pow_right₀ (by norm_num) (by decide)

theorem ten_stands {places : Nat} (few : places ≤ 22) :
    StandsFor (powerOfTen places).toModel.unpack (10 ^ places) := by
  have parts : ∀ places ≤ 22, (powerOfTen places).isFinite = true ∧
      Decimal.Binary.ofFloat (powerOfTen places) =
        .finite false (10 ^ places * 2 ^ 52 / 2 ^ (10 ^ places).log2) ((10 ^ places).log2 - 52) ∧
      2 ^ 52 ≤ 10 ^ places * 2 ^ 52 / 2 ^ (10 ^ places).log2 ∧
      10 ^ places * 2 ^ 52 / 2 ^ (10 ^ places).log2 * 2 ^ (10 ^ places).log2 =
        10 ^ places * 2 ^ 52 := by
    decide +kernel
  obtain ⟨finite, isParts, full, whole⟩ := parts places few
  obtain ⟨negative, significand, exponent, isOther, canonical, _, value⟩ := of_float_eq finite
  rw [isParts] at isOther
  injection isOther with isNegative isSignificand isExponent
  subst isNegative isSignificand isExponent
  have positive : 0 < 10 ^ places * 2 ^ 52 / 2 ^ (10 ^ places).log2 := by omega
  refine ⟨_, _, positive, value.trans (value_of_pos positive), full, canonical.fits, ?_⟩
  have cast : ((10 ^ places * 2 ^ 52 / 2 ^ (10 ^ places).log2 : Nat) : ℚ) * 2 ^ (10 ^ places).log2 =
      10 ^ places * 2 ^ 52 := by exact_mod_cast whole
  rw [zpow_sub₀ two_ne_zero, zpow_natCast, ← mul_div_assoc, cast]
  exact mul_div_cancel_right₀ _ (by norm_num)

theorem ten_nearly {places : Nat} (few : places ≤ 308) :
    Nearly (powerOfTen places).toModel.unpack (10 ^ places) := by
  rcases Nat.lt_or_ge 22 places with many | exactly
  · have rounds := scientific_nearest Nat.one_pos (show places ≤ 2048 by omega)
    rw [Nat.cast_one, one_mul] at rounds
    rw [powerOfTen, unpack_scientific (by omega)]
    apply rounds.nearly
    · exact one_le_pow₀ (by norm_num)
    · exact pow_le_pow_right₀ (by norm_num) few
  · exact (ten_stands exactly).nearly

end Cohesion
