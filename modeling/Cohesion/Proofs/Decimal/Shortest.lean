import Cohesion.Decimal.Shortest
import Cohesion.Proofs.Weight.Nearest

/-!
# The shortest digits stand for a number around the double

The search for the shortest decimal compares whole numbers over common denominators. It always finds
one: with seventeen digits, the steps of the decimals are so small that the one next to the double
cannot miss the numbers around it. So the decimal stands for a number that is rounded to the double,
and its coefficient has at most seventeen digits.
-/

namespace Cohesion.Decimal

theorem ten_zpow_pos (exponent : Int) : (0 : ℚ) < 10 ^ exponent := zpow_pos (by norm_num) _

namespace Ratio

def number (ratio : Ratio) : ℚ := ratio.numerator / ratio.denominator

theorem number_of_power {base : Nat} (positive : 0 < base) (value : ℚ) (exponent : Int) :
    value * (base : ℚ) ^ exponent.toNat / (base : ℚ) ^ (-exponent).toNat =
      value * (base : ℚ) ^ exponent := by
  have nonzero : (base : ℚ) ≠ 0 := Nat.cast_ne_zero.mpr positive.ne'
  rw [← zpow_natCast, ← zpow_natCast, mul_div_assoc, ← zpow_sub₀ nonzero]
  congr 2
  omega

theorem number_scaled {base : Nat} (positive : 0 < base) (value : Nat) (exponent : Int) :
    (scaled base value exponent).number = value * (base : ℚ) ^ exponent := by
  rw [← number_of_power positive, number, scaled]
  push_cast [Nat.pow_eq]
  rfl

theorem number_shift (ratio : Ratio) (places : Int) :
    (ratio.shift places).number = ratio.number * 10 ^ places := by
  have moved := number_of_power (show 0 < 10 by decide) ratio.number places
  rw [number, shift]
  push_cast [Nat.pow_eq] at moved ⊢
  rw [← moved, number]
  ring

theorem scaled_denominator_pos {base : Nat} (positive : 0 < base) (value : Nat) (exponent : Int) :
    0 < (scaled base value exponent).denominator := Nat.pow_pos positive

theorem shift_denominator_pos {ratio : Ratio} (positive : 0 < ratio.denominator) (places : Int) :
    0 < (ratio.shift places).denominator := Nat.mul_pos positive (Nat.pow_pos (by decide))

theorem round_cases (tie : Tie) (ratio : Ratio) :
    ratio.round tie = ratio.numerator / ratio.denominator ∨
      ratio.round tie = ratio.numerator / ratio.denominator + 1 := by
  simp only [round]
  cases tie <;> split_ifs <;> simp

theorem floor_bounds {ratio : Ratio} (positive : 0 < ratio.denominator) :
    (ratio.numerator / ratio.denominator : Nat) ≤ ratio.number ∧
      ratio.number < (ratio.numerator / ratio.denominator : Nat) + 1 := by
  have denominatorPositive : (0 : ℚ) < ratio.denominator := Nat.cast_pos.mpr positive
  rw [number, le_div_iff₀ denominatorPositive, div_lt_iff₀ denominatorPositive]
  constructor
  · exact_mod_cast Nat.div_mul_le_self _ _
  · exact_mod_cast Nat.lt_mul_of_div_lt (Nat.lt_succ_self _) positive

theorem round_near (tie : Tie) {ratio : Ratio} (positive : 0 < ratio.denominator) :
    |ratio.number - ratio.round tie| ≤ 1 / 2 := by
  have denominatorPositive : (0 : ℚ) < ratio.denominator := Nat.cast_pos.mpr positive
  have rest : ratio.number - (ratio.numerator / ratio.denominator : Nat) =
      (ratio.numerator % ratio.denominator : Nat) / ratio.denominator := by
    rw [number, eq_div_iff denominatorPositive.ne', sub_mul,
      div_mul_cancel₀ _ denominatorPositive.ne', sub_eq_iff_eq_add]
    exact_mod_cast (Nat.mod_add_div' _ _).symm
  have down : 2 * (ratio.numerator % ratio.denominator) ≤ ratio.denominator →
      |ratio.number - (ratio.numerator / ratio.denominator : Nat)| ≤ 1 / 2 := by
    intro few
    rw [rest, abs_of_nonneg (by positivity), div_le_div_iff₀ denominatorPositive two_pos, one_mul,
      mul_comm]
    exact_mod_cast few
  have up : ratio.denominator ≤ 2 * (ratio.numerator % ratio.denominator) →
      |ratio.number - (ratio.numerator / ratio.denominator + 1 : Nat)| ≤ 1 / 2 := by
    intro many
    have half : 1 / 2 ≤ ((ratio.numerator % ratio.denominator : Nat) : ℚ) / ratio.denominator := by
      rw [div_le_div_iff₀ two_pos denominatorPositive, one_mul, mul_comm]
      exact_mod_cast many
    have below := (floor_bounds positive).2
    rw [Nat.cast_add_one, abs_le]
    constructor
    · linarith
    · linarith
  simp only [round]
  cases tie with
  | upward =>
      split_ifs with few many
      · exact down few.le
      · exact up many.le
      · exact up (not_lt.mp few)
      · exact up (not_lt.mp few)
  | toEven =>
      split_ifs with few many even
      · exact down few.le
      · exact up many.le
      · exact down (not_lt.mp many)
      · exact up (not_lt.mp few)

end Ratio

namespace RoundingInterval

def ends (interval : RoundingInterval) : ℚ × ℚ :=
  (interval.low / interval.denominator, interval.high / interval.denominator)

def centre (interval : RoundingInterval) : Ratio := ⟨interval.value, interval.denominator⟩

theorem holds_iff {interval : RoundingInterval} (positive : 0 < interval.denominator) (grid : Int)
    (whole : Nat) : interval.holds grid whole = true ↔
      if interval.closed then
        interval.ends.1 ≤ whole * 10 ^ grid ∧ whole * 10 ^ grid ≤ interval.ends.2
      else interval.ends.1 < whole * 10 ^ grid ∧ whole * 10 ^ grid < interval.ends.2 := by
  have unit := Ratio.number_scaled (show 0 < 10 by decide) 1 grid
  have unitPositive : (0 : ℚ) < (Ratio.scaled 10 1 grid).denominator :=
    Nat.cast_pos.mpr (Ratio.scaled_denominator_pos (by decide) 1 grid)
  have denominatorPositive : (0 : ℚ) < interval.denominator := Nat.cast_pos.mpr positive
  rw [Nat.cast_one, one_mul, Ratio.number] at unit
  push_cast at unit
  simp only [holds, ends]
  rw [← unit, ← mul_div_assoc, div_le_div_iff₀ denominatorPositive unitPositive,
    div_le_div_iff₀ unitPositive denominatorPositive,
    div_lt_div_iff₀ denominatorPositive unitPositive,
    div_lt_div_iff₀ unitPositive denominatorPositive]
  split
  · rw [Bool.and_eq_true, decide_eq_true_iff, decide_eq_true_iff]
    exact_mod_cast Iff.rfl
  · rw [Bool.and_eq_true, decide_eq_true_iff, decide_eq_true_iff]
    exact_mod_cast Iff.rfl

section Around

variable {mantissa : Nat} {exponent : Int}

theorem around_denominator_pos (mantissa : Nat) (exponent : Int) :
    0 < (around mantissa exponent).denominator :=
  Ratio.scaled_denominator_pos (by decide) 1 (exponent - 2)

/-- Whole numbers of units stand for as many quarters of the unit of the double. -/
theorem quarters (exponent : Int) (count : ℚ) :
    count * (Ratio.scaled 2 1 (exponent - 2)).numerator /
      (Ratio.scaled 2 1 (exponent - 2)).denominator = count / 4 * 2 ^ exponent := by
  have unit := Ratio.number_scaled (show 0 < 2 by decide) 1 (exponent - 2)
  rw [Nat.cast_one, one_mul, Ratio.number] at unit
  push_cast at unit
  rw [mul_div_assoc, unit, zpow_sub₀ two_ne_zero]
  ring

theorem around_centre (mantissa : Nat) (exponent : Int) :
    (around mantissa exponent).centre.number = mantissa * 2 ^ exponent := by
  simp only [centre, around, Ratio.number]
  push_cast
  rw [quarters]
  ring

theorem around_ends (positive : 0 < mantissa) : (around mantissa exponent).ends =
    ((mantissa - roomBelow mantissa exponent) * (2 : ℚ) ^ exponent,
      ((mantissa : ℚ) + 1 / 2) * 2 ^ exponent) := by
  have few : (if mantissa = Nat.pow 2 52 ∧ -1074 < exponent then 1 else 2) ≤ 4 * mantissa := by
    split <;> omega
  simp only [ends, around]
  push_cast [few]
  rw [quarters, quarters]
  congr 1
  · rw [roomBelow, Nat.pow_eq]
    split <;> ring
  · ring

theorem holds_around_iff (positive : 0 < mantissa) (grid : Int) (whole : Nat) :
    (around mantissa exponent).holds grid whole = true ↔
      Around mantissa exponent (whole * 10 ^ grid) := by
  rw [holds_iff (around_denominator_pos mantissa exponent), around_ends positive, Around]
  simp only [around, decide_eq_true_iff]

end Around

section Magnitude

theorem length_digits_pos (value : Nat) : 0 < (digits value).length := by
  rw [digits, List.length_pos_iff]
  exact Nat.toDigits_ne_nil

theorem lt_ten_pow_length (value : Nat) : value < 10 ^ (digits value).length :=
  (Nat.length_toDigits_le_iff (by decide) (length_digits_pos value)).mp le_rfl

theorem ten_pow_length_le {value : Nat} (positive : 0 < value) :
    10 ^ ((digits value).length - 1) ≤ value := by
  rcases Nat.eq_zero_or_pos ((digits value).length - 1) with one | more
  · rwa [one, Nat.pow_zero]
  · by_contra below
    have fewer := (Nat.length_toDigits_le_iff (by decide) more).mpr (not_le.mp below)
    have length : (digits value).length = (Nat.toDigits 10 value).length := rfl
    omega

/-- The lengths of numerator and denominator tell the size of a ratio. -/
theorem ratio_between {ratio : Ratio} (positive : 0 < ratio.numerator)
    (denominatorPositive : 0 < ratio.denominator) {guess : Int}
    (isGuess : ((digits ratio.numerator).length : Int) - (digits ratio.denominator).length = guess) :
    10 ^ (guess - 1) < ratio.number ∧ ratio.number < 10 ^ (guess + 1) := by
  have ten : (10 : ℚ) ≠ 0 := by norm_num
  have divisor : (0 : ℚ) < ratio.denominator := Nat.cast_pos.mpr denominatorPositive
  have length := length_digits_pos ratio.numerator
  have divisorLength := length_digits_pos ratio.denominator
  constructor
  · have least : (10 : ℚ) ^ ((digits ratio.numerator).length - 1) ≤ ratio.numerator := by
      exact_mod_cast ten_pow_length_le positive
    have greatest : (ratio.denominator : ℚ) < 10 ^ (digits ratio.denominator).length := by
      exact_mod_cast lt_ten_pow_length ratio.denominator
    rw [Ratio.number, lt_div_iff₀ divisor]
    calc (10 : ℚ) ^ (guess - 1) * ratio.denominator
        < 10 ^ (guess - 1) * 10 ^ (digits ratio.denominator).length :=
          mul_lt_mul_of_pos_left greatest (ten_zpow_pos _)
      _ = 10 ^ ((digits ratio.numerator).length - 1) := by
          rw [← zpow_natCast, ← zpow_natCast, ← zpow_add₀ ten]
          congr 1
          omega
      _ ≤ ratio.numerator := least
  · have greatest : (ratio.numerator : ℚ) < 10 ^ (digits ratio.numerator).length := by
      exact_mod_cast lt_ten_pow_length ratio.numerator
    have least : (10 : ℚ) ^ ((digits ratio.denominator).length - 1) ≤ ratio.denominator := by
      exact_mod_cast ten_pow_length_le denominatorPositive
    rw [Ratio.number, div_lt_iff₀ divisor]
    calc (ratio.numerator : ℚ) < 10 ^ (digits ratio.numerator).length := greatest
      _ = 10 ^ (guess + 1) * 10 ^ ((digits ratio.denominator).length - 1) := by
          rw [← zpow_natCast, ← zpow_natCast, ← zpow_add₀ ten]
          congr 1
          omega
      _ ≤ 10 ^ (guess + 1) * ratio.denominator :=
          mul_le_mul_of_nonneg_left least (ten_zpow_pos _).le

theorem magnitude_bounds {interval : RoundingInterval} (positive : 0 < interval.value)
    (denominatorPositive : 0 < interval.denominator) :
    10 ^ interval.magnitude ≤ interval.centre.number ∧
      interval.centre.number < 10 ^ (interval.magnitude + 1) := by
  obtain ⟨guess, isGuess⟩ : ∃ guess : Int, ((digits interval.value).length : Int) -
      (digits interval.denominator).length = guess := ⟨_, rfl⟩
  obtain ⟨above, below⟩ : 10 ^ (guess - 1) < interval.centre.number ∧
      interval.centre.number < 10 ^ (guess + 1) :=
    ratio_between positive denominatorPositive isGuess
  have shiftedPositive : (0 : ℚ) < (interval.centre.shift (-guess)).denominator :=
    Nat.cast_pos.mpr (Ratio.shift_denominator_pos denominatorPositive (-guess))
  have atGuess : (interval.centre.shift (-guess)).numerator <
      (interval.centre.shift (-guess)).denominator ↔ interval.centre.number < 10 ^ guess := by
    rw [← Nat.cast_lt (α := ℚ), ← div_lt_one shiftedPositive, ← Ratio.number, Ratio.number_shift,
      zpow_neg, ← div_eq_mul_inv, div_lt_one (ten_zpow_pos guess)]
  have top : interval.magnitude =
      if interval.centre.number < 10 ^ guess then guess - 1 else guess := by
    rw [magnitude, isGuess]
    exact if_congr atGuess rfl rfl
  rw [top]
  split
  · next less => exact ⟨above.le, by rwa [sub_add_cancel]⟩
  · next enough => exact ⟨not_lt.mp enough, below⟩

end Magnitude

section Search

variable {tie : Tie} {interval : RoundingInterval} {grid : Int} {found : Numeral}

theorem nearest_found (isFound : interval.nearest? tie grid = some found) :
    found.exponent = grid ∧ interval.holds grid found.coefficient = true ∧
      found.coefficient ≤ (interval.centre.shift (-grid)).numerator /
        (interval.centre.shift (-grid)).denominator + 1 := by
  have chosen := Ratio.round_cases tie (interval.centre.shift (-grid))
  simp only [nearest?, centre] at isFound chosen ⊢
  generalize Ratio.round tie _ = nearest at isFound chosen
  generalize (_ : Nat) / (_ : Nat) = below at isFound chosen ⊢
  obtain ⟨other, isOther, few⟩ :
      ∃ other, (if nearest = below then below + 1 else below) = other ∧ other ≤ below + 1 := by
    refine ⟨_, rfl, ?_⟩
    split <;> omega
  rw [isOther] at isFound
  split_ifs at isFound with inside outside
  · cases isFound
    exact ⟨rfl, inside, by dsimp only; omega⟩
  · cases isFound
    exact ⟨rfl, outside, few⟩

/-- On a grid that is fine enough for the interval something is found. -/
theorem nearest_exists
    (inside : interval.holds grid ((interval.centre.shift (-grid)).round tie) = true) :
    interval.nearest? tie grid = some ⟨(interval.centre.shift (-grid)).round tie, grid⟩ :=
  if_pos inside

end Search

section Found

variable {mantissa : Nat} {exponent : Int}

/-- The numbers around a double reach at least as far as half of the last bit of its relative
precision. -/
theorem around_of_close {number : ℚ} (canonical : Canonical mantissa exponent)
    (close : |mantissa * 2 ^ exponent - number| < mantissa * 2 ^ exponent / 2 ^ 54) :
    Around mantissa exponent number := by
  have place := two_zpow_pos exponent
  have fits : (mantissa : ℚ) < 2 ^ 53 := by exact_mod_cast canonical.fits
  have room : (mantissa : ℚ) / 2 ^ 54 ≤ roomBelow mantissa exponent := by
    rw [roomBelow]
    split
    · next narrow =>
        rw [narrow.1]
        norm_num
    · linarith
  have low := mul_le_mul_of_nonneg_right room place.le
  have high := mul_le_mul_of_nonneg_right (show (mantissa : ℚ) / 2 ^ 54 ≤ 1 / 2 by linarith) place.le
  rw [div_mul_eq_mul_div] at low high
  obtain ⟨above, below⟩ := abs_lt.mp close
  have lower : (mantissa - roomBelow mantissa exponent) * 2 ^ exponent < number := by linarith
  have upper : number < (mantissa + 1 / 2) * 2 ^ exponent := by linarith
  simp only [Around]
  split
  · exact ⟨lower.le, upper.le⟩
  · exact ⟨lower, upper⟩

theorem around_value_pos (exponent : Int) (positive : 0 < mantissa) :
    0 < (around mantissa exponent).value := by
  have unit : 0 < (Ratio.scaled 2 1 (exponent - 2)).numerator :=
    Nat.mul_pos Nat.one_pos (Nat.pow_pos (by decide))
  exact Nat.mul_pos (by omega) unit

theorem around_magnitude_bounds (exponent : Int) (positive : 0 < mantissa) :
    (10 : ℚ) ^ (around mantissa exponent).magnitude ≤ mantissa * 2 ^ exponent ∧
      mantissa * 2 ^ exponent < (10 : ℚ) ^ ((around mantissa exponent).magnitude + 1) := by
  have bounds := magnitude_bounds (around_value_pos exponent positive)
    (around_denominator_pos mantissa exponent)
  rwa [around_centre] at bounds

theorem seventeen_digits (tie : Tie) (positive : 0 < mantissa)
    (canonical : Canonical mantissa exponent) : ∃ found,
    (around mantissa exponent).nearest? tie ((around mantissa exponent).magnitude - 16) =
      some found := by
  obtain ⟨least, _⟩ := around_magnitude_bounds exponent positive
  generalize (around mantissa exponent).magnitude = top at least ⊢
  refine ⟨_, nearest_exists ((holds_around_iff positive _ _).mpr (around_of_close canonical ?_))⟩
  have shifted : 0 < ((around mantissa exponent).centre.shift (-(top - 16))).denominator :=
    Ratio.shift_denominator_pos (around_denominator_pos mantissa exponent) _
  have near := Ratio.round_near tie shifted
  rw [Ratio.number_shift, around_centre, zpow_neg] at near
  generalize Ratio.round tie _ = whole at near ⊢
  have step := ten_zpow_pos (top - 16)
  have scaled := mul_le_mul_of_nonneg_right near step.le
  rw [← abs_of_pos step, ← abs_mul, abs_of_pos step, sub_mul,
    inv_mul_cancel_right₀ step.ne'] at scaled
  have fine : (10 : ℚ) ^ (top - 16) = 10 ^ top / 10 ^ 16 := zpow_sub₀ (by norm_num) top 16
  linarith

/-- With one digit more than its grid has places behind the first one, a neighbour has not more
digits than that. -/
theorem neighbour_le {count : Nat} (positive : 0 < mantissa) (few : count < 17) :
    ((around mantissa exponent).centre.shift
      (-((around mantissa exponent).magnitude - (count : Int)))).numerator /
      ((around mantissa exponent).centre.shift
        (-((around mantissa exponent).magnitude - (count : Int)))).denominator + 1 ≤ 10 ^ 17 := by
  have greatest := (around_magnitude_bounds exponent positive).2
  generalize (around mantissa exponent).magnitude = top at greatest ⊢
  have shifted :
      0 < ((around mantissa exponent).centre.shift (-(top - (count : Int)))).denominator :=
    Ratio.shift_denominator_pos (around_denominator_pos mantissa exponent) _
  have floor := (Ratio.floor_bounds shifted).1
  rw [Ratio.number_shift, around_centre] at floor
  generalize Ratio.numerator _ / Ratio.denominator _ = below at floor ⊢
  have short : (below : ℚ) < 10 ^ 17 := by
    calc (below : ℚ) ≤ mantissa * 2 ^ exponent * 10 ^ (-(top - (count : Int))) := floor
      _ < 10 ^ (top + 1) * 10 ^ (-(top - (count : Int))) :=
          mul_lt_mul_of_pos_right greatest (ten_zpow_pos _)
      _ = 10 ^ ((count : Int) + 1) := by
          rw [← zpow_add₀ (by norm_num)]
          congr 1
          omega
      _ ≤ 10 ^ (17 : Int) := zpow_le_zpow_right₀ (by norm_num) (by omega)
      _ = 10 ^ 17 := by norm_num
  exact_mod_cast short

end Found

end RoundingInterval

namespace Numeral

def number (numeral : Numeral) : ℚ := numeral.coefficient * 10 ^ numeral.exponent

theorem drop_zeros_number (limit : Nat) (numeral : Numeral) :
    (dropZeros limit numeral).number = numeral.number := by
  induction limit generalizing numeral with
  | zero => rfl
  | succ limit induction =>
      obtain ⟨coefficient, exponent⟩ := numeral
      rw [dropZeros]
      split
      · next zero =>
          have whole : (coefficient : ℚ) = (coefficient / 10 : Nat) * 10 := by
            exact_mod_cast (Nat.div_mul_cancel (Nat.dvd_of_mod_eq_zero zero)).symm
          rw [induction, number, number, whole, zpow_add_one₀ (by norm_num)]
          ring
      · rfl

theorem drop_zeros_coefficient_le (limit : Nat) (numeral : Numeral) :
    (dropZeros limit numeral).coefficient ≤ numeral.coefficient := by
  induction limit generalizing numeral with
  | zero => exact Nat.le_refl _
  | succ limit induction =>
      rw [dropZeros]
      split
      · exact (induction _).trans (Nat.div_le_self _ _)
      · exact Nat.le_refl _

end Numeral

/-- The shortest decimal is read as the double when it is rounded once, and it has not more than
seventeen digits. -/
theorem shortest_around {mantissa : Nat} {exponent : Int} (tie : Tie) (positive : 0 < mantissa)
    (canonical : Canonical mantissa exponent) :
    Around mantissa exponent (shortest tie mantissa exponent).number ∧
      (shortest tie mantissa exponent).coefficient ≤ 10 ^ 17 := by
  obtain ⟨found, isFound⟩ : ∃ found, (List.range 17).findSome? (fun count : Nat =>
      (RoundingInterval.around mantissa exponent).nearest? tie
        ((RoundingInterval.around mantissa exponent).magnitude - (count : Int))) = some found := by
    obtain ⟨last, isLast⟩ := RoundingInterval.seventeen_digits tie positive canonical
    rw [← Option.isSome_iff_exists, List.findSome?_isSome_iff]
    exact ⟨16, List.mem_range.mpr (by decide), by rw [Nat.cast_ofNat, isLast]; rfl⟩
  have result : shortest tie mantissa exponent = found.dropZeros 20 := by
    simp only [shortest, RoundingInterval.shortest]
    rw [if_neg positive.ne', isFound]
    rfl
  obtain ⟨count, inRange, nearest⟩ := List.exists_of_findSome?_eq_some isFound
  obtain ⟨isExponent, inside, few⟩ := RoundingInterval.nearest_found nearest
  have number : found.number = found.coefficient * 10 ^
      ((RoundingInterval.around mantissa exponent).magnitude - (count : Int)) := by
    rw [← isExponent]
    rfl
  rw [result, Numeral.drop_zeros_number, number]
  refine ⟨(RoundingInterval.holds_around_iff positive _ _).mp inside,
    (Numeral.drop_zeros_coefficient_le 20 found).trans (few.trans ?_)⟩
  exact RoundingInterval.neighbour_le positive (List.mem_range.mp inRange)

end Cohesion.Decimal
