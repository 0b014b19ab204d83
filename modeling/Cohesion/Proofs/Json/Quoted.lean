import Mathlib.Data.String.Basic
import Mathlib.Tactic.SplitIfs
import Cohesion.Json.Reader
import Cohesion.Json.Value
import Cohesion.Proofs.Names.ByteOrder

/-!
# Quoted texts are scanned back

Between quotes the scanner turns what was written for a character into the bytes of that character:
plain bytes stand for themselves, and each escape is undone. So it finds the closing quote, and the
bytes in front of it are those of the text.
-/

namespace Cohesion.Json

def encoded (characters : List Char) : List UInt8 := characters.flatMap String.utf8EncodeChar

@[simp] theorem encoded_nil : encoded [] = [] := rfl

@[simp] theorem encoded_cons (character : Char) (rest : List Char) :
    encoded (character :: rest) = String.utf8EncodeChar character ++ encoded rest := rfl

@[simp] theorem encoded_append (front back : List Char) :
    encoded (front ++ back) = encoded front ++ encoded back := List.flatMap_append

theorem bytes_of_eq (text : String) : bytesOf text = encoded text.toList := name_bytes_eq text

@[simp] theorem bytes_of_append (front back : String) :
    bytesOf (front ++ back) = bytesOf front ++ bytesOf back := by
  simp [bytes_of_eq]

theorem bytes_of_quote (text : String) :
    bytesOf (quote text) =
      '"'.toUInt8 :: (encoded (text.toList.flatMap escape) ++ ['"'.toUInt8]) := by
  have mark : String.utf8EncodeChar '"' = ['"'.toUInt8] := by decide
  simp [bytes_of_eq, quote, mark]

/-- A byte that stands for itself between quotes. -/
structure IsPlain (byte : UInt8) : Prop where
  not_quote : byte ≠ '"'.toUInt8
  not_slash : byte ≠ '\\'.toUInt8
  not_control : ¬byte < 32

theorem plain_of_code {code : Nat} (small : code < 256) (notQuote : code ≠ '"'.toNat)
    (notSlash : code ≠ '\\'.toNat) (notControl : ¬code < 32) : IsPlain (UInt8.ofNat code) := by
  have held : (UInt8.ofNat code).toNat = code := UInt8.toNat_ofNat_of_lt' small
  constructor
  · intro same
    exact notQuote (held.symm.trans (congrArg UInt8.toNat same))
  · intro same
    exact notSlash (held.symm.trans (congrArg UInt8.toNat same))
  · rwa [UInt8.lt_iff_toNat_lt, held]

theorem plain_of_high {code : Nat} (small : code < 256) (high : 128 ≤ code) :
    IsPlain (UInt8.ofNat code) := by
  apply plain_of_code small
  · exact Nat.ne_of_gt (Nat.lt_of_lt_of_le (by decide) high)
  · exact Nat.ne_of_gt (Nat.lt_of_lt_of_le (by decide) high)
  · omega

/-- The bytes of a character that is not escaped are plain: its code, or several bytes from 128. -/
theorem plain_encoding {character : Char} (notQuote : character ≠ '"')
    (notSlash : character ≠ '\\') (notControl : ¬character.toNat < 32) :
    ∀ byte ∈ String.utf8EncodeChar character, IsPlain byte := by
  have quote : character.toNat ≠ '"'.toNat := mt Char.toNat_inj.mp notQuote
  have slash : character.toNat ≠ '\\'.toNat := mt Char.toNat_inj.mp notSlash
  unfold Char.toNat at quote slash notControl
  simp only [String.utf8EncodeChar]
  generalize character.val.toNat = code at quote slash notControl
  split_ifs
  case pos => simpa using plain_of_code (by omega) quote slash notControl
  all_goals
    simp only [List.forall_mem_cons, List.not_mem_nil, false_imp_iff, implies_true, and_true]
    repeat' apply And.intro
    all_goals exact plain_of_high (by omega) (by omega)

theorem scan_plain {bytes : List UInt8} (plain : ∀ byte ∈ bytes, IsPlain byte)
    (content rest : List UInt8) :
    scanQuoted .between content (bytes ++ rest) =
      scanQuoted .between (bytes.reverse ++ content) rest := by
  induction bytes generalizing content with
  | nil => rfl
  | cons byte bytes induction =>
      rw [List.forall_mem_cons] at plain
      obtain ⟨notQuote, notSlash, notControl⟩ := plain.1
      rw [List.cons_append, scanQuoted]
      simp only [notQuote, notSlash, notControl, if_false]
      rw [induction plain.2]
      simp

theorem scan_short {byte : UInt8} {character : Char} (short : shortEscape? byte = some character)
    (content rest : List UInt8) :
    scanQuoted .between content ('\\'.toUInt8 :: byte :: rest) =
      scanQuoted .between ((String.utf8EncodeChar character).reverse ++ content) rest := by
  have notQuote : '\\'.toUInt8 ≠ '"'.toUInt8 := by decide
  have notUnit : byte ≠ 'u'.toUInt8 := by
    have long : shortEscape? 'u'.toUInt8 = none := by decide
    intro same
    rw [same, long] at short
    cases short
  rw [scanQuoted, if_neg notQuote, if_pos rfl, scanQuoted, if_neg notUnit, short]

theorem hex_digit_read : ∀ value < 16,
    String.utf8EncodeChar (hexDigit value) = [(hexDigit value).toUInt8] ∧
      hexValue? (hexDigit value).toUInt8 = some value := by
  decide

theorem scan_control {code : Nat} (control : code < 32) (content rest : List UInt8) :
    scanQuoted .between content
        (encoded ['\\', 'u', '0', '0', hexDigit (code / 16), hexDigit (code % 16)] ++ rest) =
      scanQuoted .between ((String.utf8EncodeChar (Char.ofNat code)).reverse ++ content) rest := by
  obtain ⟨highByte, highValue⟩ := hex_digit_read (code / 16) (by omega)
  obtain ⟨lowByte, lowValue⟩ := hex_digit_read (code % 16) (by omega)
  have opening : encoded ['\\', 'u', '0', '0'] =
      ['\\'.toUInt8, 'u'.toUInt8, '0'.toUInt8, '0'.toUInt8] := by decide
  have row : encoded ['\\', 'u', '0', '0', hexDigit (code / 16), hexDigit (code % 16)] =
      ['\\'.toUInt8, 'u'.toUInt8, '0'.toUInt8, '0'.toUInt8, (hexDigit (code / 16)).toUInt8,
        (hexDigit (code % 16)).toUInt8] := by
    change encoded (['\\', 'u', '0', '0'] ++ [hexDigit (code / 16), hexDigit (code % 16)]) = _
    rw [encoded_append, opening]
    simp [highByte, lowByte]
  have zero : hexValue? '0'.toUInt8 = some 0 := by decide
  have value : unitValue? ['0'.toUInt8, '0'.toUInt8, (hexDigit (code / 16)).toUInt8,
      (hexDigit (code % 16)).toUInt8] = some code := by
    simp [unitValue?, zero, highValue, lowValue]
    omega
  have meaning : unitMeaning none code = .ok (.inl (Char.ofNat code)) := by
    rw [unitMeaning, if_neg (by omega), if_neg (by omega)]
  have notQuote : '\\'.toUInt8 ≠ '"'.toUInt8 := by decide
  simp [row, scanQuoted, notQuote, value, meaning]

theorem scan_escape (character : Char) (content rest : List UInt8) :
    scanQuoted .between content (encoded (escape character) ++ rest) =
      scanQuoted .between ((String.utf8EncodeChar character).reverse ++ content) rest := by
  have short : ∀ letter known : Char,
      encoded ['\\', letter] = ['\\'.toUInt8, letter.toUInt8] →
      shortEscape? letter.toUInt8 = some known →
      scanQuoted .between content (encoded ['\\', letter] ++ rest) =
        scanQuoted .between ((String.utf8EncodeChar known).reverse ++ content) rest := by
    intro letter known bytes escaped
    rw [bytes]
    exact scan_short escaped content rest
  unfold escape
  split_ifs with quote slash backspace tab line feed carriage control
  · exact quote ▸ short '"' '"' (by decide) (by decide)
  · exact slash ▸ short '\\' '\\' (by decide) (by decide)
  · exact backspace ▸ short 'b' '\x08' (by decide) (by decide)
  · exact tab ▸ short 't' '\t' (by decide) (by decide)
  · exact line ▸ short 'n' '\n' (by decide) (by decide)
  · exact feed ▸ short 'f' '\x0c' (by decide) (by decide)
  · exact carriage ▸ short 'r' '\r' (by decide) (by decide)
  · rw [scan_control control, Char.ofNat_toNat]
  · have plain := plain_encoding quote slash control
    simpa using scan_plain plain content rest

theorem scan_escapes (characters : List Char) (content rest : List UInt8) :
    scanQuoted .between content (encoded (characters.flatMap escape) ++ rest) =
      scanQuoted .between ((encoded characters).reverse ++ content) rest := by
  induction characters generalizing content with
  | nil => rfl
  | cons character characters induction =>
      rw [List.flatMap_cons, encoded_append, List.append_assoc, scan_escape, induction]
      simp

theorem scan_closing (text : String) (rest : List UInt8) :
    scanQuoted .between (bytesOf text).reverse ('"'.toUInt8 :: rest) = .ok (text, rest) := by
  have valid : String.fromUTF8? text.toUTF8 = some text := dif_pos text.isValidUTF8
  have content : (⟨(bytesOf text).reverse.reverse.toArray⟩ : ByteArray) = text.toUTF8 := by
    simp [bytesOf]
  rw [scanQuoted, if_pos rfl, content, valid]

/-- A quoted text after its opening quote is read as that text. -/
theorem scan_quoted_text (text : String) (rest : List UInt8) :
    scanQuoted .between [] (encoded (text.toList.flatMap escape) ++ '"'.toUInt8 :: rest) =
      .ok (text, rest) := by
  rw [scan_escapes, ← bytes_of_eq, List.append_nil, scan_closing]

end Cohesion.Json
