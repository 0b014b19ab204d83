import Mathlib.Tactic.Positivity
import Cohesion.Proofs.Weight.Canonical
import Cohesion.Proofs.Weight.Nonnegative

/-!
# Rounding to the nearest double

A number that is cut off behind some bit, with what the bits behind tell about the rest, is rounded
to the nearest multiple of the unit that doubles of its size have, and of two equally near ones to
the even one. So every number around a double is rounded to this double, and no number goes further
than half a unit.
-/

namespace Cohesion

open Float.Model Float.Model.UnpackedFloat

section Wholes

/-- The whole number is nearest to the number, and it is even if another one is as near. -/
def IsNearest (number : ℚ) (whole : Nat) : Prop :=
  |number - whole| ≤ 1 / 2 ∧ (|number - whole| = 1 / 2 → Even whole)

variable {number : ℚ} {whole other : Nat}

theorem IsNearest.bounds (nearest : IsNearest number whole) :
    whole - 1 / 2 ≤ number ∧ number ≤ whole + 1 / 2 := by
  have within := abs_le.mp nearest.1
  constructor
  · linarith
  · linarith

theorem IsNearest.le_of_le (nearest : IsNearest number whole) (below : number ≤ other) :
    whole ≤ other := by
  by_contra above
  have more : (other : ℚ) + 1 ≤ whole := by exact_mod_cast Nat.lt_of_not_le above
  linarith [nearest.bounds.1]

theorem IsNearest.ge_of_ge (nearest : IsNearest number whole) (above : other ≤ number) :
    other ≤ whole := by
  by_contra below
  have more : (whole : ℚ) + 1 ≤ other := by exact_mod_cast Nat.lt_of_not_le below
  linarith [nearest.bounds.2]

/-- Neighbours that are both nearest are both half a unit away, and one of them is odd. -/
theorem IsNearest.unique (nearest : IsNearest number whole) (otherNearest : IsNearest number other) :
    whole = other := by
  have apart : ∀ {first second : Nat}, IsNearest number first → IsNearest number second →
      ¬first < second := by
    intro first second firstNearest secondNearest less
    have above := firstNearest.bounds.2
    have below := secondNearest.bounds.1
    have more : (first : ℚ) + 1 ≤ second := by exact_mod_cast less
    have half : number - first = 1 / 2 := by linarith
    have next : (second : ℚ) = first + 1 := by linarith
    have firstEven := firstNearest.2 (by rw [half]; norm_num)
    have secondEven := secondNearest.2 (by
      rw [show number - second = -(1 / 2) by linarith, abs_neg]
      norm_num)
    have successor : second = first + 1 := by exact_mod_cast next
    rw [successor, Nat.even_add_one] at secondEven
    exact secondEven firstEven
  exact le_antisymm (not_lt.mp (apart otherNearest nearest)) (not_lt.mp (apart nearest otherNearest))

end Wholes

section Cutting

/-- The number begins with the mantissa, and the two bits tell on which side of the half its rest
is. -/
def Begins (extended : ExtendedMantissa) (number : ℚ) : Prop :=
  match extended with
  | ⟨mantissa, false, false⟩ => number = mantissa
  | ⟨mantissa, false, true⟩ => mantissa < number ∧ number < mantissa + 1 / 2
  | ⟨mantissa, true, false⟩ => number = mantissa + 1 / 2
  | ⟨mantissa, true, true⟩ => mantissa + 1 / 2 < number ∧ number < mantissa + 1

variable {extended : ExtendedMantissa} {number : ℚ}

theorem Begins.bounds (begins : Begins extended number) :
    extended.mantissa ≤ number ∧ number < extended.mantissa + 1 := by
  obtain ⟨mantissa, round, sticky⟩ := extended
  cases round <;> cases sticky <;> simp only [Begins] at begins ⊢ <;> constructor <;> linarith

theorem Begins.shift_one (begins : Begins extended number) :
    Begins extended.shiftRightOne (number / 2) := by
  obtain ⟨mantissa, round, sticky⟩ := extended
  have halves : (mantissa : ℚ) = 2 * ((mantissa / 2 : Nat) : ℚ) + (mantissa % 2 : Nat) := by
    exact_mod_cast (Nat.div_add_mod mantissa 2).symm
  rcases Nat.mod_two_eq_zero_or_one mantissa with even | odd
  · rw [even, Nat.cast_zero] at halves
    cases round <;> cases sticky <;>
      simp [Begins, ExtendedMantissa.shiftRightOne, even] at begins ⊢ <;>
      first | linarith | exact ⟨by linarith, by linarith⟩
  · rw [odd, Nat.cast_one] at halves
    cases round <;> cases sticky <;>
      simp [Begins, ExtendedMantissa.shiftRightOne, odd] at begins ⊢ <;>
      first | linarith | exact ⟨by linarith, by linarith⟩

theorem Begins.shift (begins : Begins extended number) (count : Nat) :
    Begins (extended >>> count) (number / 2 ^ count) := by
  induction count with
  | zero => rwa [pow_zero, div_one]
  | succ count induction =>
      rw [pow_succ, ← div_div]
      exact induction.shift_one

theorem nearest_of_lt {number : ℚ} {whole : Nat} (less : |number - whole| < 1 / 2) :
    IsNearest number whole :=
  ⟨less.le, fun same => absurd same less.ne⟩

theorem Begins.nearest (begins : Begins extended number) :
    IsNearest number extended.roundedMantissa := by
  obtain ⟨mantissa, round, sticky⟩ := extended
  cases round <;> cases sticky <;>
    simp only [Begins, ExtendedMantissa.roundedMantissa, ExtendedMantissa.accuracy,
      Accuracy.roundToNearestEven] at begins ⊢
  case false.false =>
    apply nearest_of_lt
    rw [begins, sub_self, abs_zero]
    norm_num
  case false.true =>
    apply nearest_of_lt
    rw [abs_lt]
    exact ⟨by linarith, by linarith⟩
  case true.false =>
    rcases Nat.mod_two_eq_zero_or_one mantissa with even | odd
    · rw [even, add_zero, begins]
      refine ⟨?_, fun _ => Nat.even_iff.mpr even⟩
      rw [add_sub_cancel_left]
      norm_num
    · rw [odd, begins]
      refine ⟨?_, fun _ => Nat.even_iff.mpr (by omega)⟩
      push_cast
      rw [add_sub_add_left_eq_sub]
      norm_num
  case true.true =>
    apply nearest_of_lt
    rw [abs_lt]
    push_cast
    exact ⟨by linarith, by linarith⟩

theorem begins_exact (mantissa : Nat) :
    Begins (.ofMantissaAndAccuracy mantissa .exact) mantissa := rfl

theorem begins_fraction (numerator : Nat) {divisor : Nat} (positive : 0 < divisor) :
    Begins (.ofMantissaAndAccuracy (numerator / divisor)
      (accuracyOfFraction (numerator % divisor) divisor)) (numerator / divisor : ℚ) := by
  have divisorPositive : (0 : ℚ) < divisor := Nat.cast_pos.mpr positive
  have split : (numerator : ℚ) / divisor =
      (numerator / divisor : Nat) + ((numerator % divisor : Nat) : ℚ) / divisor := by
    rw [div_eq_iff divisorPositive.ne', add_mul, div_mul_cancel₀ _ divisorPositive.ne']
    exact_mod_cast (Nat.div_add_mod' numerator divisor).symm
  have below : ((numerator % divisor : Nat) : ℚ) / divisor < 1 := by
    rw [div_lt_one divisorPositive]
    exact Nat.cast_lt.mpr (Nat.mod_lt _ positive)
  rw [split]
  generalize numerator / divisor = mantissa
  generalize numerator % divisor = rest at below ⊢
  rw [accuracyOfFraction]
  split_ifs with none
  · rw [none, Nat.cast_zero, zero_div, add_zero]
    exact begins_exact mantissa
  · have some_rest : 0 < (rest : ℚ) / divisor :=
      div_pos (Nat.cast_pos.mpr (Nat.pos_of_ne_zero none)) divisorPositive
    rcases lt_trichotomy (2 * rest) divisor with less | same | more
    · have half : (rest : ℚ) / divisor < 1 / 2 := by
        rw [div_lt_div_iff₀ divisorPositive two_pos, one_mul, mul_comm]
        exact_mod_cast less
      rw [compare_lt_iff_lt.mpr less]
      exact ⟨by linarith, by linarith⟩
    · have half : (rest : ℚ) / divisor = 1 / 2 := by
        rw [div_eq_div_iff divisorPositive.ne' two_ne_zero, one_mul, mul_comm]
        exact_mod_cast same
      rw [compare_eq_iff_eq.mpr same, half]
      rfl
    · have half : 1 / 2 < (rest : ℚ) / divisor := by
        rw [div_lt_div_iff₀ two_pos divisorPositive, one_mul, mul_comm]
        exact_mod_cast more
      rw [compare_gt_iff_gt.mpr more]
      exact ⟨by linarith, by linarith⟩

end Cutting

section Rounding

/-- The unit of doubles of the size of a number, as a power of two. -/
structure IsUnit (number : ℚ) (exponent : Int) : Prop where
  least : -1074 ≤ exponent
  below : number < 2 ^ (53 + exponent)
  above : exponent = -1074 ∨ (2 : ℚ) ^ (52 + exponent) ≤ number

def Represents (value : UnpackedFloat) (number : ℚ) : Prop :=
  ∃ significand exponent, Canonical significand exponent ∧
    value = valueOf .positive significand exponent ∧ (significand : ℚ) * 2 ^ exponent = number

theorem Represents.nonneg {value : UnpackedFloat} {number : ℚ}
    (represents : Represents value number) : 0 ≤ number := by
  obtain ⟨_, exponent, _, _, rfl⟩ := represents
  exact mul_nonneg (Nat.cast_nonneg _) (two_zpow_pos exponent).le

/-- The value stands for the nearest number that doubles can express, without a greatest one. -/
def RoundsNearest (number : ℚ) (value : UnpackedFloat) : Prop :=
  ∃ exponent whole, IsUnit number exponent ∧ IsNearest (number / 2 ^ exponent) whole ∧
    Represents value (whole * 2 ^ exponent)

/-- The exponent to which a mantissa is shifted is that of the unit, unless the mantissa is too
short to be shifted at all. -/
theorem is_unit_of_begins {mantissa : Nat} {exponent : Int} {number : ℚ}
    (atLeast : mantissa ≤ number / 2 ^ exponent) (below : number / 2 ^ exponent < mantissa + 1)
    (fine : 2 ^ 52 ≤ mantissa ∨ exponent ≤ -1074) :
    IsUnit number (max (mantissa.log2 + exponent - 52) (-1074)) where
  least := le_max_right _ _
  below := by
    have short : ((mantissa : ℚ) + 1) ≤ 2 ^ (mantissa.log2 + 1) := by
      exact_mod_cast Nat.lt_log2_self
    have scaled := below.trans_le short
    rw [div_lt_iff₀ (two_zpow_pos exponent), two_pow_mul_zpow] at scaled
    apply scaled.trans_le
    apply zpow_le_zpow_right₀ one_le_two
    push_cast
    omega
  above := by
    rcases le_total ((mantissa.log2 : Int) + exponent - 52) (-1074) with tiny | normal
    · exact .inl (max_eq_right tiny)
    · right
      have nonzero : mantissa ≠ 0 := by
        rintro rfl
        rw [Nat.log2_zero] at normal
        omega
      have full : (2 : ℚ) ^ mantissa.log2 ≤ mantissa := by
        exact_mod_cast Nat.log2_self_le nonzero
      have scaled := full.trans atLeast
      rw [le_div_iff₀ (two_zpow_pos exponent), two_pow_mul_zpow] at scaled
      rwa [max_eq_left normal, show (52 : Int) + (mantissa.log2 + exponent - 52) =
        mantissa.log2 + exponent by omega]

theorem round_eq_value {mantissa : Nat} {exponent firstExponent secondExponent : Int}
    {accuracy : Accuracy} {first second : ExtendedMantissa} {sign : Sign}
    (firstShift : shiftToTargetExponent Format.binary64 mantissa exponent accuracy =
      (first, firstExponent))
    (secondShift : shiftToTargetExponent Format.binary64 first.roundedMantissa firstExponent
      .exact = (second, secondExponent)) :
    roundWithAccuracy Format.binary64 sign mantissa exponent accuracy =
      valueOf sign second.mantissa secondExponent := by
  simp only [roundWithAccuracy, firstShift, secondShift, valueOf, Nat.pos_iff_ne_zero]
  by_cases none : second.mantissa = 0
  · rw [dif_pos none, dif_neg (not_not.mpr none)]
  · rw [dif_neg none, dif_pos none]

/-- In its unit, a number is rounded to a whole number of at most 53 bits, or to the first one with
54 bits. -/
theorem IsUnit.significand_bounds {number : ℚ} {exponent : Int} {whole : Nat}
    (unit : IsUnit number exponent) (nearest : IsNearest (number / 2 ^ exponent) whole) :
    whole ≤ 2 ^ 53 ∧ (2 ^ 52 ≤ whole ∨ exponent = -1074) := by
  have place := two_zpow_pos exponent
  constructor
  · have below : number / 2 ^ exponent ≤ (2 ^ 53 : Nat) := by
      rw [div_le_iff₀ place, Nat.cast_pow, Nat.cast_two, two_pow_mul_zpow]
      exact unit.below.le
    exact nearest.le_of_le below
  · apply unit.above.symm.imp_left
    intro above
    have atLeast : (2 ^ 52 : Nat) ≤ number / 2 ^ exponent := by
      rwa [le_div_iff₀ place, Nat.cast_pow, Nat.cast_two, two_pow_mul_zpow]
    exact nearest.ge_of_ge atLeast

/-- A rounded significand that has got one bit too many loses it again. -/
theorem shift_of_rounded {whole : Nat} {exponent : Int} (fits : whole ≤ 2 ^ 53)
    (least : -1074 ≤ exponent) (full : 2 ^ 52 ≤ whole ∨ exponent = -1074) :
    ∃ second place,
      shiftToTargetExponent Format.binary64 whole exponent .exact = (second, place) ∧
      Canonical second.mantissa place ∧ (second.mantissa : ℚ) * 2 ^ place = whole * 2 ^ exponent := by
  rcases Nat.lt_or_eq_of_le fits with short | rfl
  · exact ⟨_, exponent, shift_of_short short least, ⟨short, least, full⟩, rfl⟩
  · have amount :
        (max (((2 ^ 53 : Nat).log2 : Int) + exponent - 52) (-1074) - exponent).toNat = 1 := by
      rw [Nat.log2_two_pow]
      omega
    refine ⟨⟨2 ^ 52, false, false⟩, exponent + 1, ?_, ⟨by decide, by omega, .inl (by decide)⟩, ?_⟩
    · rw [shiftToTargetExponent, target_exponent_eq, shiftToExponent, amount]
      rfl
    · rw [zpow_add_one₀ two_ne_zero]
      push_cast
      ring

/-- A mantissa with its accuracy is rounded to the nearest number that doubles can express. -/
theorem rounds_nearest {mantissa : Nat} {exponent : Int} {accuracy : Accuracy} {number : ℚ}
    (begins : Begins (.ofMantissaAndAccuracy mantissa accuracy) (number / 2 ^ exponent))
    (fine : 2 ^ 52 ≤ mantissa ∨ exponent ≤ -1074) :
    RoundsNearest number (roundWithAccuracy Format.binary64 .positive mantissa exponent accuracy) := by
  have first := begins.bounds
  rw [of_mantissa_and_accuracy_mantissa] at first
  have unit := is_unit_of_begins first.1 first.2 fine
  obtain ⟨shift, amount⟩ : ∃ shift : Nat,
      max (mantissa.log2 + exponent - 52) (-1074) = exponent + shift := by
    have longer : 2 ^ 52 ≤ mantissa → 52 ≤ mantissa.log2 := fun long =>
      (Nat.le_log2 (by omega)).mpr long
    exact ⟨(max (mantissa.log2 + exponent - 52) (-1074) - exponent).toNat, by omega⟩
  have firstShift : shiftToTargetExponent Format.binary64 mantissa exponent accuracy =
      (ExtendedMantissa.ofMantissaAndAccuracy mantissa accuracy >>> shift, exponent + shift) := by
    rw [shiftToTargetExponent, target_exponent_eq, amount, shiftToExponent,
      show (exponent + shift - exponent).toNat = shift by omega]
  rw [amount] at unit
  have cut := begins.shift shift
  rw [div_div, mul_comm, two_pow_mul_zpow, add_comm] at cut
  have nearest := cut.nearest
  obtain ⟨fits, full⟩ := unit.significand_bounds nearest
  obtain ⟨second, last, secondShift, canonical, same⟩ := shift_of_rounded fits unit.least full
  rw [round_eq_value firstShift secondShift]
  exact ⟨_, _, unit, nearest, _, _, canonical, rfl, same⟩

theorem RoundsNearest.half_unit {number : ℚ} {value : UnpackedFloat}
    (rounds : RoundsNearest number value) :
    ∃ rounded exponent, Represents value rounded ∧ IsUnit number exponent ∧
      |rounded - number| ≤ 2 ^ exponent / 2 := by
  obtain ⟨exponent, whole, unit, nearest, represents⟩ := rounds
  refine ⟨_, exponent, represents, unit, ?_⟩
  have place := two_zpow_pos exponent
  have scaled := mul_le_mul_of_nonneg_right nearest.1 place.le
  rw [← abs_of_pos place, ← abs_mul, abs_of_pos place, sub_mul, div_mul_cancel₀ _ place.ne',
    abs_sub_comm] at scaled
  linarith

theorem IsUnit.half_le {number : ℚ} {exponent : Int} (unit : IsUnit number exponent) :
    (2 : ℚ) ^ exponent / 2 ≤ number / 2 ^ 53 ∨ (2 : ℚ) ^ exponent / 2 = 2 ^ (-1075 : Int) := by
  rcases unit.above with rfl | above
  · right
    rw [div_eq_mul_inv, ← zpow_sub_one₀ two_ne_zero]
    rfl
  · left
    have enough : (2 : ℚ) ^ 52 * 2 ^ exponent ≤ number := by rwa [two_pow_mul_zpow]
    rw [show (2 : ℚ) ^ 53 = 2 ^ 52 * 2 by norm_num, div_le_div_iff₀ two_pos (by norm_num)]
    linarith

theorem RoundsNearest.near {number : ℚ} {value : UnpackedFloat} (rounds : RoundsNearest number value)
    (nonnegative : 0 ≤ number) : ∃ rounded, Represents value rounded ∧
      |rounded - number| ≤ number / 2 ^ 53 + 2 ^ (-1075 : Int) := by
  obtain ⟨rounded, exponent, represents, unit, within⟩ := rounds.half_unit
  refine ⟨rounded, represents, within.trans ?_⟩
  have least := two_zpow_pos (-1075)
  have part : 0 ≤ number / 2 ^ 53 := div_nonneg nonnegative (by norm_num)
  rcases unit.half_le with few | tiny
  · linarith
  · linarith

theorem RoundsNearest.near_of_normal {number : ℚ} {value : UnpackedFloat}
    (rounds : RoundsNearest number value) (above : (2 : ℚ) ^ (-1022 : Int) ≤ number) :
    ∃ rounded, Represents value rounded ∧ |rounded - number| ≤ number / 2 ^ 53 := by
  obtain ⟨rounded, exponent, represents, unit, within⟩ := rounds.half_unit
  refine ⟨rounded, represents, within.trans ?_⟩
  rcases unit.half_le with few | tiny
  · exact few
  · rw [tiny, le_div_iff₀ (by norm_num), ← zpow_natCast, ← zpow_add₀ two_ne_zero]
    exact above

end Rounding

section Around

/-- How far the numbers around a double go below it, in its unit. Below a power of two the unit is
half as great. -/
def roomBelow (significand : Nat) (exponent : Int) : ℚ :=
  if significand = 2 ^ 52 ∧ -1074 < exponent then 1 / 4 else 1 / 2

/-- The number is nearer to this double than to any other, or half way to another one and the
significand is even. -/
def Around (significand : Nat) (exponent : Int) (number : ℚ) : Prop :=
  let low := ((significand : ℚ) - roomBelow significand exponent) * 2 ^ exponent
  let high := ((significand : ℚ) + 1 / 2) * 2 ^ exponent
  if significand % 2 = 0 then low ≤ number ∧ number ≤ high else low < number ∧ number < high

variable {significand : Nat} {exponent : Int} {number : ℚ}

theorem Around.bounds (around : Around significand exponent number) :
    (significand - roomBelow significand exponent) * 2 ^ exponent ≤ number ∧
      number ≤ (significand + 1 / 2) * 2 ^ exponent := by
  simp only [Around] at around
  split at around
  · exact around
  · exact ⟨around.1.le, around.2.le⟩

theorem room_below_le (significand : Nat) (exponent : Int) :
    roomBelow significand exponent ≤ 1 / 2 := by
  rw [roomBelow]
  split
  · norm_num
  · exact le_rfl

theorem Around.nearest (around : Around significand exponent number) :
    IsNearest (number / 2 ^ exponent) significand := by
  have place := two_zpow_pos exponent
  obtain ⟨low, high⟩ := around.bounds
  rw [← le_div_iff₀ place] at low
  rw [← div_le_iff₀ place] at high
  have room := room_below_le significand exponent
  refine ⟨abs_le.mpr ⟨by linarith, by linarith⟩, fun half => ?_⟩
  by_contra odd
  rw [Nat.even_iff] at odd
  simp only [Around, if_neg odd] at around
  rw [← lt_div_iff₀ place, ← div_lt_iff₀ place] at around
  have inside : |number / 2 ^ exponent - significand| < 1 / 2 :=
    abs_lt.mpr ⟨by linarith, by linarith⟩
  exact absurd half inside.ne

theorem Around.lt (around : Around significand exponent number)
    (canonical : Canonical significand exponent) : number < 2 ^ (53 + exponent) := by
  have short : (significand : ℚ) + 1 ≤ 2 ^ 53 := by exact_mod_cast canonical.fits
  have scaled := mul_lt_mul_of_pos_right (show (significand : ℚ) + 1 / 2 < 2 ^ 53 by linarith)
    (two_zpow_pos exponent)
  rw [two_pow_mul_zpow] at scaled
  exact around.bounds.2.trans_lt scaled

theorem Around.least (around : Around significand exponent number) (positive : 0 < significand)
    (canonical : Canonical significand exponent) : (2 : ℚ) ^ (-1075 : Int) ≤ number := by
  have one : (1 : ℚ) ≤ significand := by exact_mod_cast positive
  have room := room_below_le significand exponent
  have half : (2 : ℚ) ^ (-1075 : Int) = 1 / 2 * 2 ^ (-1074 : Int) := by
    rw [one_div, ← zpow_neg_one, ← zpow_add₀ two_ne_zero]
    rfl
  calc (2 : ℚ) ^ (-1075 : Int) = 1 / 2 * 2 ^ (-1074 : Int) := half
    _ ≤ (significand - roomBelow significand exponent) * 2 ^ exponent :=
        mul_le_mul (by linarith) (zpow_le_zpow_right₀ one_le_two canonical.least)
          (two_zpow_pos _).le (by linarith)
    _ ≤ number := around.bounds.1

theorem Around.near (around : Around significand exponent number)
    (canonical : Canonical significand exponent) : |number - significand * 2 ^ exponent| ≤
      significand * 2 ^ exponent / 2 ^ 53 + 2 ^ (-1075 : Int) := by
  have place := two_zpow_pos exponent
  have least := two_zpow_pos (-1075)
  have room := mul_le_mul_of_nonneg_right (room_below_le significand exponent) place.le
  obtain ⟨low, high⟩ := around.bounds
  have half : |number - significand * 2 ^ exponent| ≤ 2 ^ exponent / 2 :=
    abs_le.mpr ⟨by linarith, by linarith⟩
  apply half.trans
  rcases canonical.full with full | rfl
  · have long : (2 : ℚ) ^ 52 ≤ significand := by exact_mod_cast full
    have part := mul_le_mul_of_nonneg_right long place.le
    linarith
  · have tiny : (2 : ℚ) ^ (-1074 : Int) / 2 = 2 ^ (-1075 : Int) := by
      rw [div_eq_mul_inv, ← zpow_sub_one₀ two_ne_zero]
      rfl
    rw [tiny]
    exact le_add_of_nonneg_left (by positivity)

/-- The unit of a number around a double is that of the double, or half of it below a power of two. -/
theorem IsUnit.around {unit : Int} (isUnit : IsUnit number unit)
    (around : Around significand exponent number) (canonical : Canonical significand exponent) :
    unit = exponent ∨ unit = exponent - 1 ∧ significand = 2 ^ 52 ∧ number < 2 ^ (52 + exponent) := by
  have below := around.lt canonical
  have least := canonical.least
  have atMost : unit ≤ exponent := by
    rcases isUnit.above with rfl | above
    · exact least
    · have order := two_zpow_lt (above.trans_lt below)
      omega
  rcases canonical.full with full | rfl
  · rcases lt_or_ge number (2 ^ (52 + exponent)) with less | enough
    · have place := two_zpow_pos exponent
      have room := room_below_le significand exponent
      have low := around.bounds.1
      have long : (2 : ℚ) ^ 52 ≤ significand := by exact_mod_cast full
      have power : significand = 2 ^ 52 := by
        have scale : (2 : ℚ) ^ (52 + exponent) = 2 ^ 52 * 2 ^ exponent :=
          (two_pow_mul_zpow 52 exponent).symm
        have close := low.trans_lt less
        rw [scale] at close
        have tight := lt_of_mul_lt_mul_right close place.le
        have whole : (significand : ℚ) < (2 ^ 52 : Nat) + 1 := by
          push_cast
          linarith
        have upper : significand < 2 ^ 52 + 1 := by exact_mod_cast whole
        omega
      have enough : (2 : ℚ) ^ (51 + exponent) ≤ number := by
        have scale : (2 : ℚ) ^ (51 + exponent) = 2 ^ 51 * 2 ^ exponent :=
          (two_pow_mul_zpow 51 exponent).symm
        rw [scale]
        refine (mul_le_mul_of_nonneg_right ?_ place.le).trans low
        linarith
      have order := two_zpow_lt (enough.trans_lt isUnit.below)
      rcases Int.lt_or_eq_of_le atMost with smaller | same
      · exact .inr ⟨by omega, power, less⟩
      · exact .inl same
    · have order := two_zpow_lt (enough.trans_lt isUnit.below)
      exact .inl (by omega)
  · exact .inl (le_antisymm atMost isUnit.least)

theorem Around.nearest_below (around : Around (2 ^ 52) exponent number)
    (less : number < 2 ^ (52 + exponent)) (least : -1074 ≤ exponent - 1) :
    IsNearest (number / 2 ^ (exponent - 1)) (2 ^ 53) := by
  have place := two_zpow_pos (exponent - 1)
  have scale : (2 : ℚ) ^ exponent = 2 * 2 ^ (exponent - 1) := by
    rw [← zpow_one_add₀ two_ne_zero, add_sub_cancel]
  have low := around.bounds.1
  rw [roomBelow, if_pos ⟨rfl, by omega⟩, scale, ← mul_assoc, ← le_div_iff₀ place] at low
  have high : number / 2 ^ (exponent - 1) < 2 ^ 53 := by
    rw [div_lt_iff₀ place]
    calc number < 2 ^ (52 + exponent) := less
      _ = 2 ^ 52 * 2 ^ exponent := (two_pow_mul_zpow 52 exponent).symm
      _ = 2 ^ 53 * 2 ^ (exponent - 1) := by
        rw [scale]
        ring
  refine ⟨abs_le.mpr ⟨?_, ?_⟩, fun _ => by decide⟩
  · push_cast at low ⊢
    linarith
  · push_cast
    linarith

/-- Everything around a double is rounded to it. -/
theorem RoundsNearest.eq_of_around {value : UnpackedFloat} (rounds : RoundsNearest number value)
    (around : Around significand exponent number) (canonical : Canonical significand exponent) :
    value = valueOf .positive significand exponent := by
  obtain ⟨unit, whole, isUnit, nearest, found, place, foundCanonical, rfl, same⟩ := rounds
  have centre : (whole : ℚ) * 2 ^ unit = significand * 2 ^ exponent := by
    rcases isUnit.around around canonical with rfl | ⟨rfl, rfl, less⟩
    · rw [nearest.unique around.nearest]
    · rw [nearest.unique (around.nearest_below less isUnit.least), zpow_sub_one₀ two_ne_zero]
      push_cast
      ring
  obtain ⟨rfl, rfl⟩ := foundCanonical.unique canonical (same.trans centre)
  rfl

end Around

section Operations

variable {first second : UnpackedFloat} {left right : ℚ}

theorem StandsFor.represents {value : UnpackedFloat} {number : ℚ} (stands : StandsFor value number)
    (above : (2 : ℚ) ^ (-1022 : Int) ≤ number) : Represents value number := by
  obtain ⟨significand, exponent, positive, rfl, full, fits, rfl⟩ := stands
  have order := two_zpow_lt (above.trans_lt (significand_lt exponent fits))
  exact ⟨significand, exponent, ⟨fits, by omega, .inl full⟩, (value_of_pos positive).symm, rfl⟩

theorem Represents.stands {value : UnpackedFloat} {number : ℚ} (represents : Represents value number)
    (above : (2 : ℚ) ^ (-1022 : Int) ≤ number) : StandsFor value number := by
  obtain ⟨significand, exponent, canonical, rfl, rfl⟩ := represents
  have full : 2 ^ 52 ≤ significand := by
    rcases canonical.full with full | rfl
    · exact full
    · have scale : (2 : ℚ) ^ (-1022 : Int) = 2 ^ 52 * 2 ^ (-1074 : Int) := by
        rw [two_pow_mul_zpow]
        rfl
      rw [scale] at above
      exact_mod_cast le_of_mul_le_mul_right above (two_zpow_pos (-1074))
  have positive : 0 < significand := by omega
  exact ⟨significand, exponent, positive, value_of_pos positive, full, canonical.fits, rfl⟩

/-- Two doubles are multiplied exactly and then rounded, if the product of the significands is long
enough. -/
theorem product_nearest {significand significand' : Nat} (exponent exponent' : Int)
    (positive : 0 < significand) (positive' : 0 < significand')
    (long : 2 ^ 52 ≤ significand * significand') :
    RoundsNearest (significand * 2 ^ exponent * (significand' * 2 ^ exponent'))
      (UnpackedFloat.mul Format.binary64 (.finite .positive significand exponent positive)
        (.finite .positive significand' exponent' positive')) := by
  have product : (significand : ℚ) * 2 ^ exponent * (significand' * 2 ^ exponent') /
      2 ^ (exponent + exponent') = (significand * significand' : Nat) := by
    rw [div_eq_iff (two_zpow_pos _).ne', zpow_add₀ two_ne_zero]
    push_cast
    ring
  refine rounds_nearest ?_ (.inl long)
  rw [product]
  exact begins_exact _

theorem mul_nearest (firstStands : StandsFor first left) (secondStands : StandsFor second right) :
    RoundsNearest (left * right) (UnpackedFloat.mul Format.binary64 first second) := by
  obtain ⟨significand, exponent, positive, rfl, full, _, rfl⟩ := firstStands
  obtain ⟨significand', exponent', positive', rfl, full', _, rfl⟩ := secondStands
  have long : 2 ^ 52 * 2 ^ 52 ≤ significand * significand' := Nat.mul_le_mul full full'
  exact product_nearest exponent exponent' positive positive' (by omega)

theorem zero_nearest : RoundsNearest 0 (.zero .positive) := by
  refine ⟨-1074, 0, ⟨le_rfl, two_zpow_pos _, .inl rfl⟩, ?_, 0, -1074, ⟨by decide, le_rfl, .inr rfl⟩,
    value_of_zero.symm, ?_⟩
  · rw [zero_div]
    exact nearest_of_lt (by norm_num)
  · rw [Nat.cast_zero, zero_mul]

theorem quotient_fine {dividend divisor : Nat} (positive : 0 < dividend)
    (divisorPositive : 0 < divisor) {exponent exponent' target : Int} {shift : Nat}
    (isTarget : min (exponent - exponent') (Format.binary64.targetExponent
      (totalExponent dividend exponent - totalExponent divisor exponent')) = target)
    (isShift : exponent - exponent' = target + shift) :
    2 ^ 52 ≤ (dividend <<< shift) / divisor ∨ target ≤ -1074 := by
  have bits : Format.binary64.mantissaBits = 53 := rfl
  have minimum : Format.binary64.minExponent = -1074 := rfl
  rw [Format.targetExponent, totalExponent, totalExponent, bits, minimum] at isTarget
  rcases lt_or_ge (-1074) target with great | small
  · left
    have length := log2_shift_left positive.ne' shift
    have enough : divisor.log2 + 53 ≤ (dividend <<< shift).log2 := by omega
    have nonzero : dividend <<< shift ≠ 0 := (positive.trans_le (le_shift_left _ _)).ne'
    rw [Nat.le_div_iff_mul_le divisorPositive]
    calc 2 ^ 52 * divisor ≤ 2 ^ 52 * 2 ^ (divisor.log2 + 1) :=
          Nat.mul_le_mul_left _ Nat.lt_log2_self.le
      _ = 2 ^ (divisor.log2 + 53) := by ring
      _ ≤ dividend <<< shift := (Nat.le_log2 nonzero).mp enough
  · exact .inr small

theorem div_nearest (represents : Represents first left) (stands : StandsFor second right) :
    RoundsNearest (left / right) (UnpackedFloat.div Format.binary64 first second) := by
  obtain ⟨dividend, exponent, _, rfl, rfl⟩ := represents
  obtain ⟨divisor, exponent', divisorPositive, rfl, _, _, rfl⟩ := stands
  rcases Nat.eq_zero_or_pos dividend with rfl | positive
  · rw [Nat.cast_zero, zero_mul, zero_div, value_of_zero]
    exact zero_nearest
  · obtain ⟨target, isTarget⟩ : ∃ target, min (exponent - exponent') (Format.binary64.targetExponent
        (totalExponent dividend exponent - totalExponent divisor exponent')) = target := ⟨_, rfl⟩
    obtain ⟨shift, isShift⟩ : ∃ shift : Nat, exponent - exponent' = target + shift :=
      ⟨(exponent - exponent' - target).toNat, by omega⟩
    have amount : (exponent - exponent' - target).toNat = shift := by omega
    have quotient : (dividend : ℚ) * 2 ^ exponent / (divisor * 2 ^ exponent') / 2 ^ target =
        ((dividend <<< shift : Nat) : ℚ) / divisor := by
      have power : (2 : ℚ) ^ exponent = 2 ^ exponent' * 2 ^ target * 2 ^ shift := by
        rw [← zpow_natCast, ← zpow_add₀ two_ne_zero, ← zpow_add₀ two_ne_zero]
        congr 1
        omega
      have nonzero : (divisor : ℚ) ≠ 0 := Nat.cast_ne_zero.mpr divisorPositive.ne'
      have place := (two_zpow_pos exponent').ne'
      have place' := (two_zpow_pos target).ne'
      rw [power, Nat.shiftLeft_eq]
      push_cast
      field_simp
    rw [value_of_pos positive]
    simp only [UnpackedFloat.div, divCore, isTarget, amount]
    apply rounds_nearest
    · rw [quotient]
      exact begins_fraction _ divisorPositive
    · exact quotient_fine positive divisorPositive isTarget isShift

end Operations

section Packing

variable {value : UnpackedFloat} {number : ℚ}

theorem Canonical.exponent_le {significand : Nat} {exponent : Int}
    (canonical : Canonical significand exponent)
    (below : (significand : ℚ) * 2 ^ exponent < 2 ^ (1024 : Int)) : exponent ≤ 971 := by
  rcases canonical.full with full | rfl
  · have order := two_zpow_lt ((significand_ge exponent full).trans_lt below)
    omega
  · decide

theorem Represents.unpack_pack (represents : Represents value number)
    (below : number < 2 ^ (1024 : Int)) :
    UnpackedFloat.unpack Format.binary64 (UnpackedFloat.pack Format.binary64 value) = value := by
  obtain ⟨significand, exponent, canonical, rfl, rfl⟩ := represents
  exact canonical.unpack_pack_value (canonical.exponent_le below) _

/-- What does not become infinite by packing is below the first power of two that is too great. -/
theorem Represents.below (represents : Represents value number)
    (finite : (UnpackedFloat.unpack Format.binary64 (UnpackedFloat.pack Format.binary64
      value)).isInf = false) : number < 2 ^ (1024 : Int) := by
  obtain ⟨significand, exponent, canonical, rfl, rfl⟩ := represents
  have low : exponent ≤ 971 := by
    by_contra high
    have some_bits : 0 < significand := by
      have := canonical.full.resolve_right (by omega)
      omega
    have bias : Format.binary64.exponentBias = 1023 := rfl
    rw [value_of_pos some_bits] at finite
    simp only [UnpackedFloat.pack, bias] at finite
    rw [if_pos (by omega), packedInfinity, unpack_components, if_pos rfl] at finite
    cases finite
  exact (significand_lt exponent canonical.fits).trans_le (zpow_le_zpow_right₀ one_le_two (by omega))

end Packing

end Cohesion
