import Cohesion.Json.Value
import Cohesion.Proofs.Decimal.Layout
import Cohesion.Proofs.Json.Tokens

/-!
# The texts of numbers are scanned digit by digit

Whole part, fraction and exponent of a number are rows of digits. A scan gathers the rows into one
significand as long as it fits into a machine word, and counts places. So each layout of a decimal
is scanned as a significand and a power of ten that make up the same number.
-/

namespace Cohesion.Json

open Decimal

section Rows

def RowEnds (bytes : List UInt8) : Prop := ∀ byte ∈ bytes.head?, isDigit byte = false

theorem digit_encoded {digit : Char} (decimal : digit.isDigit = true) :
    String.utf8EncodeChar digit = [digit.toUInt8] ∧ isDigit digit.toUInt8 = true ∧
      digitValue digit.toUInt8 = digit.toNat - '0'.toNat ∧
      (digit.toUInt8 = '0'.toUInt8 → digit = '0') := by
  have range := Char.isDigit_iff_toNat.mp decimal
  have ten : ∀ code ≤ '9'.toNat, '0'.toNat ≤ code →
      String.utf8EncodeChar (Char.ofNat code) = [(Char.ofNat code).toUInt8] ∧
        isDigit (Char.ofNat code).toUInt8 = true ∧
        digitValue (Char.ofNat code).toUInt8 = (Char.ofNat code).toNat - '0'.toNat ∧
        ((Char.ofNat code).toUInt8 = '0'.toUInt8 → Char.ofNat code = '0') := by
    decide
  have held := ten digit.toNat range.2 range.1
  rwa [Char.ofNat_toNat] at held

variable {row : List Char} (isRow : IsRow row)

include isRow

theorem encoded_row : encoded row = row.map Char.toUInt8 := by
  induction row with
  | nil => rfl
  | cons digit row induction =>
      obtain ⟨first, others⟩ := List.forall_mem_cons.mp isRow
      rw [encoded_cons, (digit_encoded first).1, induction others]
      rfl

theorem bytes_are_digits : ∀ byte ∈ encoded row, isDigit byte = true := by
  rw [encoded_row isRow, List.forall_mem_map]
  exact fun digit member => (digit_encoded (isRow digit member)).2.1

theorem length_encoded_row : (encoded row).length = row.length := by
  rw [encoded_row isRow, List.length_map]

theorem take_row {rest : List UInt8} (ends : RowEnds rest) :
    (encoded row ++ rest).takeWhile isDigit = encoded row := by
  rw [List.takeWhile_append_of_pos (bytes_are_digits isRow)]
  cases rest with
  | nil => simp
  | cons byte rest =>
      rw [List.takeWhile_cons_of_neg (by simp [ends byte rfl]), List.append_nil]

theorem drop_row {rest : List UInt8} (ends : RowEnds rest) :
    (encoded row ++ rest).dropWhile isDigit = rest := by
  rw [List.dropWhile_append_of_pos (bytes_are_digits isRow)]
  cases rest with
  | nil => rfl
  | cons byte rest => rw [List.dropWhile_cons_of_neg (by simp [ends byte rfl])]

theorem gather_row {significand taken : Nat}
    (fits : Nat.ofDigitChars 10 row significand < 2 ^ 64) :
    gather significand taken (encoded row) =
      (Nat.ofDigitChars 10 row significand, taken + row.length) := by
  rw [encoded_row isRow]
  induction row generalizing significand taken with
  | nil => rfl
  | cons digit row induction =>
      obtain ⟨first, others⟩ := List.forall_mem_cons.mp isRow
      rw [Nat.ofDigitChars_cons] at fits ⊢
      rw [List.map_cons, gather, (digit_encoded first).2.2.1]
      rw [Nat.pow_eq, if_pos ((le_of_digit_chars _ _).trans_lt fits), induction others fits,
        List.length_cons]
      congr 1
      omega

theorem fold_row (start : Nat) :
    (encoded row).foldl (fun value digit => 10 * value + digitValue digit) start =
      Nat.ofDigitChars 10 row start := by
  rw [encoded_row isRow]
  induction row generalizing start with
  | nil => rfl
  | cons digit row induction =>
      obtain ⟨first, others⟩ := List.forall_mem_cons.mp isRow
      rw [List.map_cons, List.foldl_cons, (digit_encoded first).2.2.1, induction others,
        Nat.ofDigitChars_cons]

end Rows

section Scanning

variable {negative : Bool} {significand : Nat} {exponent : Int} {rest : List UInt8}

def marks : List UInt8 := ['\x7b', '\x7d', '[', ']', ',', ':'].map Char.toUInt8

theorem mem_marks {byte : UInt8} (marked : (mark? byte).isSome) : byte ∈ marks := by
  simp only [mark?] at marked
  split_ifs at marked with first second third fourth fifth sixth
  all_goals simp_all [marks]

theorem row_ends_of_mark (atMark : AtMark rest) : RowEnds rest := by
  have none : ∀ byte ∈ marks, isDigit byte = false := by decide +kernel
  exact fun byte first => none byte (mem_marks (atMark byte first))

theorem scan_end (atMark : AtMark rest) :
    scanExponent negative significand exponent rest =
      (assemble negative significand exponent).map (·, rest) := by
  cases rest with
  | nil => rfl
  | cons mark rest =>
      have none : ∀ byte ∈ marks, ¬(byte = 'e'.toUInt8 ∨ byte = 'E'.toUInt8) := by
        decide +kernel
      rw [scanExponent, if_neg (none mark (mem_marks (atMark mark rfl)))]

theorem scan_power (power : Int) (small : power.natAbs < 2 ^ 31) (atMark : AtMark rest) :
    scanExponent negative significand exponent
      (encoded ('e' :: (if power < 0 then '-' else '+') :: digits power.natAbs) ++ rest) =
      (assemble negative significand (exponent + power)).map (·, rest) := by
  have mark : String.utf8EncodeChar 'e' = ['e'.toUInt8] := by decide
  have isRow := digits_row power.natAbs
  have sign : exponentSign (String.utf8EncodeChar (if power < 0 then '-' else '+') ++
      (encoded (digits power.natAbs) ++ rest)) =
      (decide (power < 0), encoded (digits power.natAbs) ++ rest) := by
    split
    · next below => rw [decide_eq_true below]; rfl
    · next above => rw [decide_eq_false above]; rfl
  have written : Nat.ofDigitChars 10 (digits power.natAbs) 0 = power.natAbs :=
    Nat.ofDigitChars_ten_toDigits
  have some_digit : ¬(encoded (digits power.natAbs)).isEmpty = true := by
    rw [List.isEmpty_iff, ← List.length_eq_zero_iff, length_encoded_row isRow]
    exact (RoundingInterval.length_digits_pos _).ne'
  have signed :
      (if decide (power < 0) = true then -(power.natAbs : Int) else power.natAbs) = power := by
    simp only [decide_eq_true_iff]
    split <;> omega
  rw [encoded_cons, encoded_cons, mark, List.append_assoc, List.append_assoc, List.singleton_append,
    scanExponent, if_pos (.inl rfl), sign]
  simp only
  rw [take_row isRow (row_ends_of_mark atMark), drop_row isRow (row_ends_of_mark atMark),
    fold_row isRow, written, if_neg some_digit, Nat.pow_eq, if_pos small, signed]

theorem some_digit {row : List Char} (isRow : IsRow row) (leads : LeadsRow row) :
    ¬(encoded row).isEmpty = true := by
  rw [List.isEmpty_iff, ← List.length_eq_zero_iff, length_encoded_row isRow, List.length_eq_zero_iff]
  exact leads.1

theorem no_zero {row : List Char} (isRow : IsRow row) (leads : LeadsRow row) :
    ¬((encoded row).head? = some '0'.toUInt8 ∧ 1 < (encoded row).length) := by
  rintro ⟨zero, long⟩
  rw [length_encoded_row isRow] at long
  rw [encoded_row isRow, List.head?_map] at zero
  obtain ⟨digit, first, same⟩ := Option.map_eq_some_iff.mp zero
  have isZero := (digit_encoded (isRow digit (List.mem_of_mem_head? first))).2.2.2 same
  have short := leads.2 (isZero ▸ first)
  omega

section Whole

variable {whole : List Char} (wholeRow : IsRow whole) (leads : LeadsRow whole)

include wholeRow leads

/-- The whole part is gathered; a point or the end decides how the scan goes on. -/
theorem scan_front {mark : UInt8} (fits : Nat.ofDigitChars 10 whole 0 < 2 ^ 64)
    (noDigit : isDigit mark = false) :
    scanNumber negative (encoded whole ++ mark :: rest) =
      if mark = '.'.toUInt8 then
        if (rest.takeWhile isDigit).isEmpty then .error (.missing rest)
        else scanExponent negative
          (gather (Nat.ofDigitChars 10 whole 0) 0 (rest.takeWhile isDigit)).1
          (-(gather (Nat.ofDigitChars 10 whole 0) 0 (rest.takeWhile isDigit)).2)
          (rest.dropWhile isDigit)
      else scanExponent negative (Nat.ofDigitChars 10 whole 0) 0 (mark :: rest) := by
  have ends : RowEnds (mark :: rest) := by
    rintro _ ⟨⟩
    exact noDigit
  rw [scanNumber, take_row wholeRow ends, drop_row wholeRow ends, gather_row wholeRow fits]
  simp only
  rw [if_neg (some_digit wholeRow leads), if_neg (no_zero wholeRow leads), length_encoded_row wholeRow,
    Nat.zero_add, Int.sub_self, Int.zero_sub]

theorem scan_fraction {fraction : List Char} (fractionRow : IsRow fraction) (places : fraction ≠ [])
    (ends : RowEnds rest) (fits : Nat.ofDigitChars 10 (whole ++ fraction) 0 < 2 ^ 64) :
    scanNumber negative (encoded (whole ++ '.' :: fraction) ++ rest) =
      scanExponent negative (Nat.ofDigitChars 10 (whole ++ fraction) 0) (-fraction.length) rest := by
  have point : String.utf8EncodeChar '.' = ['.'.toUInt8] := by decide
  have split : encoded (whole ++ '.' :: fraction) ++ rest =
      encoded whole ++ '.'.toUInt8 :: (encoded fraction ++ rest) := by
    simp [point]
  have some_place : ¬(encoded fraction).isEmpty = true := by
    rwa [List.isEmpty_iff, ← List.length_eq_zero_iff, length_encoded_row fractionRow,
      List.length_eq_zero_iff]
  rw [Nat.ofDigitChars_append] at fits ⊢
  have wholeFits := (le_of_digit_chars fraction _).trans_lt fits
  rw [split, scan_front wholeRow leads wholeFits rfl, if_pos rfl, take_row fractionRow ends,
    drop_row fractionRow ends, if_neg some_place, gather_row fractionRow fits, Nat.zero_add]

theorem scan_whole {mark : UInt8} (noDigit : isDigit mark = false) (noPoint : mark ≠ '.'.toUInt8)
    (fits : Nat.ofDigitChars 10 whole 0 < 2 ^ 64) :
    scanNumber negative (encoded whole ++ mark :: rest) =
      scanExponent negative (Nat.ofDigitChars 10 whole 0) 0 (mark :: rest) := by
  rw [scan_front wholeRow leads fits noDigit, if_neg noPoint]

end Whole

end Scanning

section Layouts

variable {numeral : Numeral} {negative : Bool} {rest : List UInt8}

theorem scan_positional (few : numeral.coefficient ≤ 10 ^ 17) (late : numeral.leading ≤ 15)
    (zero : numeral.coefficient = 0 → numeral.exponent = 0) (atMark : AtMark rest) :
    scanNumber negative (encoded (numeral.parts.1 ++ '.' :: numeral.places) ++ rest) =
      (assemble negative numeral.written.1 numeral.written.2).map (·, rest) := by
  have rows := writes_parts late zero
  have fits : numeral.written.1 < 2 ^ 64 := (written_le few).trans_lt (by decide)
  rw [scan_fraction rows.front rows.leads rows.back rows.some_place (row_ends_of_mark atMark)
    (by rwa [rows.value]), rows.value, rows.places, scan_end atMark]

theorem scan_scientific (few : numeral.coefficient ≤ 10 ^ 17)
    (small : numeral.leading.natAbs < 2 ^ 31) (atMark : AtMark rest) :
    scanNumber negative (encoded numeral.scientific ++ rest) =
      (assemble negative numeral.coefficient numeral.exponent).map (·, rest) := by
  have isRow := digits_row numeral.coefficient
  have written : Nat.ofDigitChars 10 (digits numeral.coefficient) 0 = numeral.coefficient :=
    Nat.ofDigitChars_ten_toDigits
  have fits : numeral.coefficient < 2 ^ 64 := few.trans_lt (by decide)
  have leading : numeral.leading = numeral.exponent + (digits numeral.coefficient).length - 1 := rfl
  have some_digit := RoundingInterval.length_digits_pos numeral.coefficient
  rw [Numeral.scientific]
  generalize digits numeral.coefficient = row at written isRow leading some_digit ⊢
  obtain ⟨first, others, rfl⟩ := List.exists_cons_of_length_pos some_digit
  obtain ⟨firstRow, othersRow⟩ : IsRow [first] ∧ IsRow others := by
    rw [IsRow, List.forall_mem_cons] at isRow
    exact ⟨List.forall_mem_singleton.mpr isRow.1, isRow.2⟩
  have leads : LeadsRow [first] := ⟨List.cons_ne_nil _ _, fun _ => Nat.le_refl 1⟩
  have mark : ∀ tail, encoded ('e' :: tail) ++ rest = 'e'.toUInt8 :: (encoded tail ++ rest) :=
    fun _ => rfl
  rw [List.take_succ_cons, List.take_zero, List.drop_succ_cons, List.drop_zero, withFraction]
  rw [List.length_cons] at leading
  split
  · next alone =>
      rw [List.isEmpty_iff] at alone
      subst alone
      have exponent : (0 : Int) + numeral.leading = numeral.exponent := by
        rw [List.length_nil] at leading
        omega
      rw [encoded_append, List.append_assoc, mark,
        scan_whole firstRow leads rfl (by decide) (written ▸ fits), ← mark,
        scan_power _ small atMark, written, exponent]
  · next more =>
      rw [List.isEmpty_iff] at more
      have exponent : -(others.length : Int) + numeral.leading = numeral.exponent := by omega
      have ends : ∀ tail, RowEnds (encoded ('e' :: tail) ++ rest) := by
        rintro _ _ ⟨⟩
        rfl
      rw [encoded_append, List.append_assoc,
        scan_fraction firstRow leads othersRow more (ends _) (written ▸ fits),
        scan_power _ small atMark]
      rw [List.singleton_append, written, exponent]

/-- The text of a decimal in the layout of data is scanned as what that layout writes. -/
theorem scan_fractional (few : numeral.coefficient ≤ 10 ^ 17)
    (small : numeral.leading.natAbs < 2 ^ 31)
    (zero : numeral.coefficient = 0 → numeral.exponent = 0) (atMark : AtMark rest) :
    scanNumber negative (encoded numeral.fractional ++ rest) =
      (assemble negative numeral.written.1 numeral.written.2).map (·, rest) := by
  rw [Numeral.fractional]
  split
  · next positional => exact scan_positional few positional.2 zero atMark
  · next far =>
      have plain : numeral.written = (numeral.coefficient, numeral.exponent) := by
        have some_digit := RoundingInterval.length_digits_pos numeral.coefficient
        rw [Numeral.leading] at far
        apply if_neg
        rw [Numeral.leading]
        omega
      rw [plain, scan_scientific few small atMark]

theorem row_starts {row : List Char} (isRow : IsRow row) (some_digit : row ≠ [])
    (others : List Char) :
    ∃ digit behind, row ++ others = digit :: behind ∧ digit.isDigit = true := by
  obtain ⟨digit, behind, rfl⟩ := List.exists_cons_of_ne_nil some_digit
  exact ⟨digit, behind ++ others, rfl, isRow digit List.mem_cons_self⟩

theorem fractional_starts (zero : numeral.coefficient = 0 → numeral.exponent = 0) :
    ∃ digit others, numeral.fractional = digit :: others ∧ digit.isDigit = true := by
  rw [Numeral.fractional]
  split
  · next positional =>
      have rows := writes_parts positional.2 zero
      exact row_starts rows.front rows.leads.1 _
  · have isRow := digits_row numeral.coefficient
    obtain ⟨digit, behind, isDigits⟩ :=
      List.exists_cons_of_length_pos (RoundingInterval.length_digits_pos numeral.coefficient)
    have first : IsRow [digit] := List.forall_mem_singleton.mpr
      (isRow digit (isDigits ▸ List.mem_cons_self))
    rw [Numeral.scientific, isDigits, withFraction]
    simp only [List.take_succ_cons, List.take_zero]
    split
    · exact row_starts first (List.cons_ne_nil _ _) _
    · rw [List.append_assoc]
      exact row_starts first (List.cons_ne_nil _ _) _

/-- A digit starts a number and nothing else. -/
theorem digit_token {digit : Char} (decimal : digit.isDigit = true) :
    isBlank digit.toUInt8 = false ∧ mark? digit.toUInt8 = none ∧
      digit.toUInt8 ≠ '"'.toUInt8 ∧ digit.toUInt8 ≠ '-'.toUInt8 := by
  have range := Char.isDigit_iff_toNat.mp decimal
  have ten : ∀ code ≤ '9'.toNat, '0'.toNat ≤ code →
      isBlank (Char.ofNat code).toUInt8 = false ∧ (mark? (Char.ofNat code).toUInt8).isNone ∧
        (Char.ofNat code).toUInt8 ≠ '"'.toUInt8 ∧ (Char.ofNat code).toUInt8 ≠ '-'.toUInt8 := by
    decide
  have held := ten digit.toNat range.2 range.1
  rwa [Char.ofNat_toNat, Option.isNone_iff_eq_none] at held

theorem signed_tokens {text : List Char} {value : Float}
    (starts : ∃ digit others, text = digit :: others ∧ digit.isDigit = true)
    (scanned : scanNumber negative (encoded text ++ rest) = .ok (value, rest)) :
    tokens (encoded (signed negative text) ++ rest) = .number (.ok value) :: tokens rest := by
  cases negative with
  | true =>
      have minus : String.utf8EncodeChar '-' = ['-'.toUInt8] := by decide
      have start : isBlank '-'.toUInt8 = false ∧ (mark? '-'.toUInt8).isNone := by decide
      rw [Option.isNone_iff_eq_none] at start
      rw [signed, if_pos rfl, encoded_cons, minus, List.singleton_append, List.cons_append,
        tokens_cons, start.1, if_neg Bool.false_ne_true, scanToken, start.2]
      simp only
      rw [if_neg (by decide), if_pos trivial, scanned]
      rfl
  | false =>
      obtain ⟨digit, others, rfl, decimal⟩ := starts
      obtain ⟨notBlank, notMark, notQuote, notMinus⟩ := digit_token decimal
      obtain ⟨code, isDigit, _⟩ := digit_encoded decimal
      rw [encoded_cons, code, List.singleton_append, List.cons_append] at scanned
      rw [signed, if_neg Bool.false_ne_true, encoded_cons, code, List.singleton_append,
        List.cons_append, tokens_cons, notBlank, if_neg Bool.false_ne_true, scanToken, notMark]
      simp only
      rw [if_neg notQuote, if_neg notMinus, if_pos isDigit, scanned]
      rfl

end Layouts

end Cohesion.Json
