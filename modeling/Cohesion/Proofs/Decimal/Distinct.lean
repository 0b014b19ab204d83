import Cohesion.Proofs.Json.ReadBack

/-!
# Different doubles have different texts

The layout of data writes rows of digits with a point and a power of ten between them, so the rows can
be told from the text. They make up a number around the double, and no number is around two doubles.
Together with the sign the text of a finite double therefore determines the double.
-/

namespace Cohesion

open Float.Model Float.Model.UnpackedFloat

section Runs

/-- The text does not go on with a character that passes the test. -/
def Stops (test : Char → Bool) (rest : List Char) : Prop :=
  ∀ character ∈ rest.head?, test character = false

variable {test : Char → Bool} {first second rest others : List Char}

theorem cancel_run (passes : ∀ character ∈ first, test character = true)
    (otherPasses : ∀ character ∈ second, test character = true) (stops : Stops test rest)
    (otherStops : Stops test others) (same : first ++ rest = second ++ others) :
    first = second ∧ rest = others := by
  induction first generalizing second with
  | nil =>
      cases second with
      | nil => exact ⟨rfl, same⟩
      | cons character second =>
          have passed := otherPasses character List.mem_cons_self
          have stopped := stops character (by simp [show rest = _ from same])
          simp [passed] at stopped
  | cons character first induction =>
      cases second with
      | nil =>
          have passed := passes character List.mem_cons_self
          have stopped := otherStops character (by simp [show others = _ from same.symm])
          simp [passed] at stopped
      | cons other second =>
          simp only [List.cons_append, List.cons.injEq] at same
          have tails := induction (fun item member => passes item (List.mem_cons_of_mem _ member))
            (fun item member => otherPasses item (List.mem_cons_of_mem _ member)) same.2
          rw [same.1, tails.1]
          exact ⟨rfl, tails.2⟩

end Runs

namespace Decimal

/-- A decimal text taken apart: the digits on both sides of the point, and a power of ten. -/
structure Spelling where
  whole : List Char
  fraction : List Char
  power : Option Int

namespace Spelling

def powerText : Option Int → List Char
  | none => []
  | some power => 'e' :: (if power < 0 then '-' else '+') :: digits power.natAbs

def fractionText (fraction : List Char) : List Char :=
  if fraction.isEmpty then [] else '.' :: fraction

def text (spelling : Spelling) : List Char :=
  spelling.whole ++ (fractionText spelling.fraction ++ powerText spelling.power)

def number (spelling : Spelling) : ℚ :=
  Nat.ofDigitChars 10 (spelling.whole ++ spelling.fraction) 0 *
    10 ^ (spelling.power.getD 0 - spelling.fraction.length)

/-- Rows of digits with the mark of a fractional number: a point or a power of ten. -/
structure Sound (spelling : Spelling) : Prop where
  front : IsRow spelling.whole
  leads : LeadsRow spelling.whole
  back : IsRow spelling.fraction
  marked : spelling.fraction ≠ [] ∨ spelling.power ≠ none

theorem power_text_stops (power : Option Int) : Stops Char.isDigit (powerText power) := by
  cases power with
  | none => simp [Stops, powerText]
  | some power => simp [Stops, powerText]

theorem fraction_text_stops (fraction : List Char) (power : Option Int) :
    Stops Char.isDigit (fractionText fraction ++ powerText power) := by
  rw [fractionText]
  split
  · exact power_text_stops power
  · simp [Stops]

theorem digits_inj {first second : Nat} (same : digits first = digits second) : first = second := by
  have written := congrArg (Nat.ofDigitChars 10 · 0) same
  simpa [digits, Nat.ofDigitChars_ten_toDigits] using written

theorem power_text_inj {first second : Option Int} (same : powerText first = powerText second) :
    first = second := by
  cases first with
  | none =>
      cases second with
      | none => rfl
      | some other => simp [powerText] at same
  | some power =>
      cases second with
      | none => simp [powerText] at same
      | some other =>
          simp only [powerText, List.cons.injEq, true_and] at same
          have magnitude := digits_inj same.2
          have sign := same.1
          split_ifs at sign with below otherBelow
          · congr 1
            omega
          · contradiction
          · contradiction
          · congr 1
            omega

theorem Sound.text_inj {first second : Spelling} (sound : first.Sound) (otherSound : second.Sound)
    (same : first.text = second.text) : first = second := by
  obtain ⟨whole, fraction, power⟩ := first
  obtain ⟨otherWhole, otherFraction, otherPower⟩ := second
  have front := cancel_run sound.front otherSound.front (fraction_text_stops fraction power)
    (fraction_text_stops otherFraction otherPower) same
  have back : fraction = otherFraction ∧ powerText power = powerText otherPower := by
    have behind := front.2
    cases fraction with
    | nil =>
        cases otherFraction with
        | nil => exact ⟨rfl, behind⟩
        | cons => cases power <;> simp [fractionText, powerText] at behind
    | cons =>
        cases otherFraction with
        | nil => cases otherPower <;> simp [fractionText, powerText] at behind
        | cons =>
            exact cancel_run sound.back otherSound.back (power_text_stops power)
              (power_text_stops otherPower) (List.cons.inj behind).2
  simp only [Spelling.mk.injEq]
  exact ⟨front.1, back.1, power_text_inj back.2⟩

end Spelling

section Layout

variable {numeral : Numeral}

def Numeral.spelling (numeral : Numeral) : Spelling :=
  if -5 ≤ numeral.leading ∧ numeral.leading ≤ 15 then ⟨numeral.parts.1, numeral.places, none⟩
  else
    ⟨(digits numeral.coefficient).take 1, (digits numeral.coefficient).drop 1, some numeral.leading⟩

theorem fractional_eq_text (numeral : Numeral) : numeral.fractional = numeral.spelling.text := by
  rw [Numeral.fractional, Numeral.spelling]
  split
  · have some_place : numeral.places.isEmpty = false := by
      rw [Numeral.places]
      split <;> simp_all
    simp only [Spelling.text, Spelling.fractionText, Spelling.powerText, some_place]
    simp [Numeral.places]
  · simp only [Numeral.scientific, withFraction, Spelling.text, Spelling.fractionText,
      Spelling.powerText]
    split <;> simp

theorem spelling_sound (zero : numeral.coefficient = 0 → numeral.exponent = 0) :
    numeral.spelling.Sound := by
  rw [Numeral.spelling]
  split
  · next positional =>
      have rows := writes_parts positional.2 zero
      exact ⟨rows.front, rows.leads, rows.back, .inl rows.some_place⟩
  · have isRow := digits_row numeral.coefficient
    have some_digit := RoundingInterval.length_digits_pos numeral.coefficient
    constructor
    · exact fun digit member => isRow digit (List.mem_of_mem_take member)
    · simp only [LeadsRow, List.length_take]
      exact ⟨by simpa using List.ne_nil_of_length_pos some_digit, fun _ => Nat.min_le_left 1 _⟩
    · exact fun digit member => isRow digit (List.mem_of_mem_drop member)
    · exact .inr (Option.some_ne_none _)

theorem spelling_number (zero : numeral.coefficient = 0 → numeral.exponent = 0) :
    numeral.spelling.number = numeral.number := by
  rw [Numeral.spelling]
  split
  · next positional =>
      have rows := writes_parts positional.2 zero
      rw [Spelling.number, rows.value, Option.getD_none, zero_sub, rows.places, written_number]
  · have some_digit := RoundingInterval.length_digits_pos numeral.coefficient
    have places : numeral.leading - ((digits numeral.coefficient).drop 1).length =
        numeral.exponent := by
      rw [List.length_drop, Numeral.leading]
      omega
    rw [Spelling.number, List.take_append_drop, Option.getD_some, places, digits,
      Nat.ofDigitChars_ten_toDigits, Numeral.number]

theorem fractional_number_inj {first second : Numeral}
    (zero : first.coefficient = 0 → first.exponent = 0)
    (otherZero : second.coefficient = 0 → second.exponent = 0)
    (same : first.fractional = second.fractional) : first.number = second.number := by
  rw [fractional_eq_text, fractional_eq_text] at same
  rw [← spelling_number zero, ← spelling_number otherZero,
    (spelling_sound zero).text_inj (spelling_sound otherZero) same]

end Layout

section Doubles

variable {mantissa other : Nat} {exponent otherExponent : Int} {number : ℚ}

/-- There is a value nearest to every number without a sign. -/
theorem exists_nearest (nonnegative : 0 ≤ number) : ∃ value, RoundsNearest number value := by
  obtain ⟨numerator, whole⟩ :
      ∃ numerator : Nat, number / 2 ^ (-1074 : Int) = numerator / number.den := by
    have isNumerator : ((number.num.toNat : Nat) : ℚ) = number.num := by
      exact_mod_cast Int.toNat_of_nonneg (Rat.num_nonneg.mpr nonnegative)
    apply Exists.intro (number.num.toNat * 2 ^ 1074)
    rw [zpow_neg, div_inv_eq_mul, Nat.cast_mul, isNumerator, mul_div_right_comm, Rat.num_div_den]
    norm_cast
  have begins := begins_fraction numerator number.den_pos
  rw [← whole] at begins
  exact ⟨_, rounds_nearest begins (.inr le_rfl)⟩

/-- No number is around two doubles. -/
theorem around_unique (nonnegative : 0 ≤ number) (around : Around mantissa exponent number)
    (canonical : Canonical mantissa exponent) (otherAround : Around other otherExponent number)
    (otherCanonical : Canonical other otherExponent) :
    mantissa = other ∧ exponent = otherExponent := by
  obtain ⟨value, rounds⟩ := exists_nearest nonnegative
  have same := (rounds.eq_of_around around canonical).symm.trans
    (rounds.eq_of_around otherAround otherCanonical)
  exact canonical.unique otherCanonical (value_of_inj same).2

/-- The shortest decimal of a double stands for a number around it, of zero too. -/
theorem around_shortest (canonical : Canonical mantissa exponent) :
    Around mantissa exponent (shortest .toEven mantissa exponent).number := by
  rcases Nat.eq_zero_or_pos mantissa with rfl | positive
  · have room : (0 : ℚ) ≤ roomBelow 0 exponent := by
      rw [roomBelow]
      split <;> norm_num
    have place := two_zpow_pos exponent
    have number : (shortest .toEven 0 exponent).number = 0 := by
      rw [shortest, if_pos rfl, Numeral.number, Nat.cast_zero, zero_mul]
    rw [number, Around, if_pos rfl, Nat.cast_zero, zero_sub, zero_add, neg_mul]
    exact ⟨neg_nonpos.mpr (mul_nonneg room place.le), mul_nonneg (by norm_num) place.le⟩
  · exact (shortest_around .toEven positive canonical).1

theorem signed_inj {negative otherNegative : Bool} {first second : List Char}
    (starts : ∃ digit others, first = digit :: others ∧ digit.isDigit = true)
    (otherStarts : ∃ digit others, second = digit :: others ∧ digit.isDigit = true)
    (same : signed negative first = signed otherNegative second) :
    negative = otherNegative ∧ first = second := by
  obtain ⟨digit, _, rfl, decimal⟩ := starts
  obtain ⟨otherDigit, _, rfl, otherDecimal⟩ := otherStarts
  cases negative <;> cases otherNegative <;> simp [signed] at same ⊢
  · exact same
  · rw [same.1] at decimal
    contradiction
  · rw [← same.1] at otherDecimal
    contradiction
  · exact same

/-- A finite double is determined by its text in the layout of data. -/
theorem data_inj {first second : Float} (finite : first.isFinite = true)
    (otherFinite : second.isFinite = true) (same : data? first = data? second) : first = second := by
  obtain ⟨negative, mantissa, exponent, parts, canonical, few, value⟩ := of_float_eq finite
  obtain ⟨otherNegative, other, otherExponent, otherParts, otherCanonical, otherFew, otherValue⟩ :=
    of_float_eq otherFinite
  have zero := (shortest_scans canonical few).2.2
  have otherZero := (shortest_scans otherCanonical otherFew).2.2
  simp only [data?, parts, otherParts, Option.some.injEq, String.ofList_inj] at same
  obtain ⟨sameSign, sameText⟩ :=
    signed_inj (Json.fractional_starts zero) (Json.fractional_starts otherZero) same
  have sameNumber := fractional_number_inj zero otherZero sameText
  have around := around_shortest canonical
  have nonnegative : 0 ≤ (shortest .toEven mantissa exponent).number :=
    mul_nonneg (Nat.cast_nonneg _) (ten_zpow_pos _).le
  obtain ⟨rfl, rfl⟩ := around_unique nonnegative around canonical
    (sameNumber ▸ around_shortest otherCanonical) otherCanonical
  apply float_eq_of_unpack
  rw [value, otherValue, sameSign]

end Doubles

end Decimal

end Cohesion
