import Cohesion.Decimal.Layout
import Cohesion.Proofs.Decimal.Shortest

/-!
# The digits of the layouts

The layouts write the coefficient of a decimal as rows of digits, with zeros added in front or behind.
So the digits on both sides of the point are those of a whole number, which makes up the same number
together with a power of ten.
-/

namespace Cohesion.Decimal

section Rows

def IsRow (row : List Char) : Prop := ∀ digit ∈ row, digit.isDigit = true

theorem IsRow.append {front back : List Char} (isFront : IsRow front) (isBack : IsRow back) :
    IsRow (front ++ back) := List.forall_mem_append.mpr ⟨isFront, isBack⟩

theorem digits_row (value : Nat) : IsRow (digits value) := fun _ member =>
  Nat.isDigit_of_mem_toDigits (by decide) (by decide) member

theorem zeros_row (count : Nat) : IsRow (zeros count) := by
  intro digit member
  rw [List.eq_of_mem_replicate member]
  rfl

theorem le_of_digit_chars (row : List Char) (start : Nat) :
    start ≤ Nat.ofDigitChars 10 row start := by
  rw [Nat.ofDigitChars_eq_ofDigitChars_zero]
  exact (Nat.le_mul_of_pos_left _ (Nat.pow_pos (by decide))).trans (Nat.le_add_right _ _)

/-- A whole part that may stand in front: without a zero, unless it is the only digit. -/
def LeadsRow (row : List Char) : Prop :=
  row ≠ [] ∧ (row.head? = some '0' → row.length ≤ 1)

end Rows

section Layouts

theorem head_digits_ne_zero {value : Nat} (positive : 0 < value) :
    (digits value).head? ≠ some '0' := by
  induction value using Nat.strong_induction_on with
  | h value induction =>
      rw [digits, Nat.toDigits_eq_if (by decide)]
      split
      · next small =>
          have ten : ∀ digit < 10, 0 < digit → ([digit.digitChar] : List Char).head? ≠ some '0' := by
            decide
          exact ten value small positive
      · next long =>
          have earlier := induction (value / 10) (by omega) (by omega)
          rwa [digits, ← List.head?_append_of_ne_nil _ Nat.toDigits_ne_nil] at earlier

theorem digits_lead (value : Nat) : LeadsRow (digits value) := by
  refine ⟨Nat.toDigits_ne_nil, fun zero => ?_⟩
  rcases Nat.eq_zero_or_pos value with rfl | positive
  · decide
  · exact absurd zero (head_digits_ne_zero positive)

theorem LeadsRow.append {row : List Char} (leads : LeadsRow row) (notZero : row.head? ≠ some '0')
    (others : List Char) : LeadsRow (row ++ others) := by
  refine ⟨List.append_ne_nil_of_left_ne_nil leads.1 _, fun zero => ?_⟩
  rw [List.head?_append_of_ne_nil _ leads.1] at zero
  exact absurd zero notZero

variable {numeral : Numeral}

theorem parts_around_point (below : numeral.exponent < 0) :
    LeadsRow numeral.parts.1 ∧ IsRow numeral.parts.1 ∧ IsRow numeral.parts.2 ∧
      (numeral.parts.2.length : Int) = -numeral.exponent ∧
      Nat.ofDigitChars 10 (numeral.parts.1 ++ numeral.parts.2) 0 = numeral.coefficient := by
  obtain ⟨places, isPlaces⟩ : ∃ places : Nat, (-numeral.exponent).toNat = places := ⟨_, rfl⟩
  have written : Nat.ofDigitChars 10 (digits numeral.coefficient) 0 = numeral.coefficient :=
    Nat.ofDigitChars_ten_toDigits
  have isRow := digits_row numeral.coefficient
  have leads := digits_lead numeral.coefficient
  simp only [Numeral.parts, isPlaces]
  generalize digits numeral.coefficient = row at written isRow leads ⊢
  rw [if_neg (by omega)]
  split
  · next inside =>
      obtain ⟨front, isFront⟩ : ∃ front, row.length - places = front + 1 :=
        ⟨row.length - places - 1, by omega⟩
      have head : (row.take (front + 1)).head? = row.head? := by
        rw [List.head?_take, if_neg (by omega)]
      rw [List.splitAt_eq, isFront]
      dsimp only
      refine ⟨⟨fun none => ?_, fun zero => ?_⟩,
        fun digit member => isRow digit (List.mem_of_mem_take member),
        fun digit member => isRow digit (List.mem_of_mem_drop member), ?_, ?_⟩
      · rw [none, List.head?_nil, eq_comm, List.head?_eq_none_iff] at head
        exact leads.1 head
      · have short := leads.2 (head ▸ zero)
        omega
      · rw [List.length_drop]
        omega
      · rwa [List.take_append_drop]
  · next outside =>
      refine ⟨digits_lead 0, digits_row 0, (zeros_row _).append isRow, ?_, ?_⟩
      · rw [List.length_append, zeros, List.length_replicate]
        omega
      · rw [List.singleton_append, Nat.ofDigitChars_cons, Nat.ofDigitChars_append, zeros,
          Nat.ofDigitChars_replicate_zero]
        exact written

theorem leading_bounds (positive : 0 < numeral.coefficient) :
    10 ^ numeral.leading ≤ numeral.number ∧ numeral.number < 10 ^ (numeral.leading + 1) := by
  have place := ten_zpow_pos numeral.exponent
  obtain ⟨length, isLength⟩ : ∃ length, (digits numeral.coefficient).length = length + 1 :=
    ⟨_, (Nat.succ_pred_eq_of_pos (RoundingInterval.length_digits_pos _)).symm⟩
  have least := RoundingInterval.ten_pow_length_le positive
  have greatest := RoundingInterval.lt_ten_pow_length numeral.coefficient
  rw [isLength, Nat.add_sub_cancel] at least
  rw [isLength] at greatest
  have leading : numeral.leading = length + numeral.exponent := by
    rw [Numeral.leading, isLength]
    omega
  have next : numeral.leading + 1 = (length + 1 : Nat) + numeral.exponent := by omega
  rw [Numeral.number, next, leading, zpow_add₀ (by norm_num), zpow_add₀ (by norm_num), zpow_natCast,
    zpow_natCast, mul_le_mul_iff_left₀ place, mul_lt_mul_iff_left₀ place]
  exact ⟨by exact_mod_cast least, by exact_mod_cast greatest⟩

/-- The significand and the power of ten that the layout of data writes. A whole number gets one more
place there. -/
def Numeral.written (numeral : Numeral) : Nat × Int :=
  if 0 ≤ numeral.exponent ∧ numeral.leading ≤ 15 then
    (numeral.coefficient * 10 ^ (numeral.exponent.toNat + 1), -1)
  else (numeral.coefficient, numeral.exponent)

theorem written_number (numeral : Numeral) :
    (numeral.written.1 : ℚ) * 10 ^ numeral.written.2 = numeral.number := by
  rw [Numeral.written]
  split
  · next whole =>
      obtain ⟨places, isPlaces⟩ := Int.eq_ofNat_of_zero_le whole.1
      simp only [Numeral.number, isPlaces]
      push_cast
      rw [Int.toNat_natCast, zpow_natCast, pow_succ, zpow_neg_one]
      ring
  · rfl

theorem written_le (few : numeral.coefficient ≤ 10 ^ 17) : numeral.written.1 ≤ 10 ^ 17 := by
  rw [Numeral.written]
  split
  · next whole =>
      have greatest := RoundingInterval.lt_ten_pow_length numeral.coefficient
      have length : (digits numeral.coefficient).length + (numeral.exponent.toNat + 1) ≤ 17 := by
        have late := whole.2
        rw [Numeral.leading] at late
        omega
      calc numeral.coefficient * 10 ^ (numeral.exponent.toNat + 1)
          ≤ 10 ^ (digits numeral.coefficient).length * 10 ^ (numeral.exponent.toNat + 1) :=
            Nat.mul_le_mul_right _ greatest.le
        _ = 10 ^ ((digits numeral.coefficient).length + (numeral.exponent.toNat + 1)) :=
            (Nat.pow_add _ _ _).symm
        _ ≤ 10 ^ 17 := Nat.pow_le_pow_right (by decide) length
  · exact few

def Numeral.places (numeral : Numeral) : List Char :=
  if numeral.parts.2.isEmpty then ['0'] else numeral.parts.2

structure WritesRows (whole fraction : List Char) (significand : Nat) (exponent : Int) : Prop where
  front : IsRow whole
  leads : LeadsRow whole
  back : IsRow fraction
  some_place : fraction ≠ []
  value : Nat.ofDigitChars 10 (whole ++ fraction) 0 = significand
  places : -(fraction.length : Int) = exponent

/-- Zeros behind a whole number multiply it, and one more stands behind the point. -/
theorem writes_whole (whole : 0 ≤ numeral.exponent)
    (zero : numeral.coefficient = 0 → numeral.exponent = 0) :
    WritesRows numeral.parts.1 numeral.places
      (numeral.coefficient * 10 ^ (numeral.exponent.toNat + 1)) (-1) := by
  obtain ⟨places, isPlaces⟩ := Int.eq_ofNat_of_zero_le whole
  have parts : numeral.parts = (digits numeral.coefficient ++ zeros places, []) := by
    rw [Numeral.parts, if_pos (by omega), isPlaces, Int.toNat_natCast]
  rw [Numeral.places, parts, isPlaces, Int.toNat_natCast]
  constructor
  · exact (digits_row _).append (zeros_row _)
  · rcases Nat.eq_zero_or_pos numeral.coefficient with none | positive
    · have noPlaces : places = 0 := by have := zero none; omega
      rw [none, noPlaces]
      exact digits_lead 0
    · exact (digits_lead _).append (head_digits_ne_zero positive) _
  · exact digits_row 0
  · exact List.cons_ne_nil _ _
  · have behind : (if ([] : List Char).isEmpty = true then ['0'] else []) = zeros 1 := rfl
    rw [behind, Nat.ofDigitChars_append, Nat.ofDigitChars_append, zeros, zeros,
      Nat.ofDigitChars_replicate_zero, Nat.ofDigitChars_replicate_zero, digits,
      Nat.ofDigitChars_ten_toDigits]
    ring
  · rfl

theorem writes_parts (late : numeral.leading ≤ 15)
    (zero : numeral.coefficient = 0 → numeral.exponent = 0) :
    WritesRows numeral.parts.1 numeral.places numeral.written.1 numeral.written.2 := by
  rw [Numeral.written]
  split
  · next whole => exact writes_whole whole.1 zero
  · next part =>
      have below : numeral.exponent < 0 := by omega
      obtain ⟨leads, wholeRow, fractionRow, length, value⟩ := parts_around_point below
      have some_place : numeral.parts.2 ≠ [] := by
        rw [← List.length_pos_iff]
        omega
      have places : numeral.places = numeral.parts.2 :=
        if_neg (mt List.isEmpty_iff.mp some_place)
      rw [places]
      exact ⟨wholeRow, leads, fractionRow, some_place, value, by omega⟩

end Layouts

section Range

variable {mantissa : Nat} {exponent : Int} {number : ℚ}

theorem ten_zpow_lt {first second : Int} (less : (10 : ℚ) ^ first < 10 ^ second) : first < second :=
  (zpow_lt_zpow_iff_right₀ (by norm_num)).mp less

/-- The digits of a double stand between the places where the least and the greatest ones do. -/
theorem leading_range {numeral : Numeral} (few : 0 < numeral.coefficient) (positive : 0 < mantissa)
    (canonical : Canonical mantissa exponent) (finite : exponent ≤ 971)
    (around : Around mantissa exponent numeral.number) :
    -324 ≤ numeral.leading ∧ numeral.leading ≤ 308 := by
  obtain ⟨lower, upper⟩ := leading_bounds few
  have whole : 2 ^ 1024 < 10 ^ 309 ∧ 2 ^ 1075 < 10 ^ 324 := by decide +kernel
  constructor
  · have tiny : (10 : ℚ) ^ (-324 : Int) < 2 ^ (-1075 : Int) := by
      rw [zpow_neg, zpow_neg]
      apply inv_strictAnti₀ (two_zpow_pos 1075)
      exact_mod_cast whole.2
    have order := ten_zpow_lt ((tiny.trans_le (around.least positive canonical)).trans upper)
    omega
  · have great : (2 : ℚ) ^ (1024 : Int) < 10 ^ (309 : Int) := by exact_mod_cast whole.1
    have below : numeral.number < 2 ^ (1024 : Int) :=
      (around.lt canonical).trans_le (zpow_le_zpow_right₀ one_le_two (by omega))
    have order := ten_zpow_lt ((lower.trans_lt below).trans great)
    omega

end Range

end Cohesion.Decimal
