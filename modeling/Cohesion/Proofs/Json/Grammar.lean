import Cohesion.Proofs.Json.Indented

/-!
# Indented texts follow the grammar of JSON

The grammar of the format, for the characters of a text: blanks, literals, numbers, strings with their
escapes, and arrays and objects with parts between commas. Whatever the value, its indented text is
derived from it.
-/

namespace Cohesion.Json

open Decimal

section Grammar

def IsBlanks (text : List Char) : Prop := ∀ character ∈ text, character ∈ [' ', '\t', '\n', '\r']

def IsHexDigit (character : Char) : Prop :=
  character.isDigit = true ∨ 'a' ≤ character ∧ character ≤ 'f' ∨ 'A' ≤ character ∧ character ≤ 'F'

inductive IsQuoted : List Char → Prop
  | plain (character : Char) (notQuote : character ≠ '"') (notSlash : character ≠ '\\')
      (notControl : 32 ≤ character.toNat) : IsQuoted [character]
  | short (letter : Char) (known : letter ∈ ['"', '\\', '/', 'b', 'f', 'n', 'r', 't']) :
      IsQuoted ['\\', letter]
  | code (first second third fourth : Char) (digits : ∀ digit ∈ [first, second, third, fourth],
      IsHexDigit digit) : IsQuoted ['\\', 'u', first, second, third, fourth]

inductive IsContent : List Char → Prop
  | nil : IsContent []
  | cons {front back : List Char} (quoted : IsQuoted front) (content : IsContent back) :
      IsContent (front ++ back)

inductive IsString : List Char → Prop
  | quoted {content : List Char} (isContent : IsContent content) :
      IsString ('"' :: (content ++ ['"']))

inductive IsFraction : List Char → Prop
  | none : IsFraction []
  | row {row : List Char} (some_digit : row ≠ []) (isRow : IsRow row) : IsFraction ('.' :: row)

inductive IsPower : List Char → Prop
  | none : IsPower []
  | row {mark : Char} {sign row : List Char} (marked : mark ∈ ['e', 'E'])
      (signed : sign ∈ [[], ['+'], ['-']]) (some_digit : row ≠ []) (isRow : IsRow row) :
      IsPower (mark :: (sign ++ row))

inductive IsNumber : List Char → Prop
  | parts {minus whole fraction power : List Char} (signed : minus ∈ [[], ['-']])
      (isRow : IsRow whole) (leads : LeadsRow whole) (isFraction : IsFraction fraction)
      (isPower : IsPower power) : IsNumber (minus ++ (whole ++ (fraction ++ power)))

inductive IsParted (IsPart : List Char → Prop) : List Char → Prop
  | one {before text after : List Char} (blanks : IsBlanks before) (part : IsPart text)
      (moreBlanks : IsBlanks after) : IsParted IsPart (before ++ (text ++ after))
  | more {before text after rest : List Char} (blanks : IsBlanks before) (part : IsPart text)
      (moreBlanks : IsBlanks after) (others : IsParted IsPart rest) :
      IsParted IsPart (before ++ (text ++ (after ++ ',' :: rest)))

inductive IsEnclosed (left right : Char) (IsPart : List Char → Prop) : List Char → Prop
  | empty {blanks : List Char} (isBlanks : IsBlanks blanks) :
      IsEnclosed left right IsPart (left :: (blanks ++ [right]))
  | parts {text : List Char} (parted : IsParted IsPart text) :
      IsEnclosed left right IsPart (left :: (text ++ [right]))

inductive IsMember (IsPart : List Char → Prop) : List Char → Prop
  | named {name before after text : List Char} (isName : IsString name) (blanks : IsBlanks before)
      (moreBlanks : IsBlanks after) (part : IsPart text) :
      IsMember IsPart (name ++ (before ++ ':' :: (after ++ text)))

inductive IsValue : List Char → Prop
  | null : IsValue ['n', 'u', 'l', 'l']
  | affirmed : IsValue ['t', 'r', 'u', 'e']
  | denied : IsValue ['f', 'a', 'l', 's', 'e']
  | number {text : List Char} (isNumber : IsNumber text) : IsValue text
  | string {text : List Char} (isString : IsString text) : IsValue text
  | array {text : List Char} (enclosed : IsEnclosed '[' ']' IsValue text) : IsValue text
  | object {text : List Char} (enclosed : IsEnclosed '\x7b' '\x7d' (IsMember IsValue) text) :
      IsValue text

def IsObject (text : List Char) : Prop := IsEnclosed '\x7b' '\x7d' (IsMember IsValue) text

end Grammar

section Words

theorem hex_digit_is_digit : ∀ value < 16, IsHexDigit (hexDigit value) := by
  unfold IsHexDigit
  decide

theorem is_quoted_escape (character : Char) : IsQuoted (escape character) := by
  unfold escape
  split_ifs with quote slash backspace tab line feed carriage control
  · exact .short _ (by decide)
  · exact .short _ (by decide)
  · exact .short _ (by decide)
  · exact .short _ (by decide)
  · exact .short _ (by decide)
  · exact .short _ (by decide)
  · exact .short _ (by decide)
  · apply IsQuoted.code
    simp only [List.forall_mem_cons, List.not_mem_nil, false_imp_iff, implies_true, and_true]
    exact ⟨.inl rfl, .inl rfl, hex_digit_is_digit _ (by omega), hex_digit_is_digit _ (by omega)⟩
  · exact .plain _ quote slash (not_lt.mp control)

theorem is_string_quote (text : String) : IsString (quote text).toList := by
  have content : IsContent (text.toList.flatMap escape) := by
    induction text.toList with
    | nil => exact .nil
    | cons character rest induction =>
        rw [List.flatMap_cons]
        exact .cons (is_quoted_escape character) induction
  simpa [quote] using IsString.quoted content

theorem is_number_digits (value : Nat) : IsNumber (digits value) := by
  have number : IsNumber ([] ++ (digits value ++ ([] ++ []))) :=
    .parts (by simp) (digits_row value) (digits_lead value) .none .none
  simpa using number

theorem is_power_text (power : Option Int) : IsPower (Spelling.powerText power) := by
  cases power with
  | none => exact .none
  | some power =>
      have some_digit := List.ne_nil_of_length_pos (RoundingInterval.length_digits_pos power.natAbs)
      have signed : [if power < 0 then '-' else '+'] ∈ [[], ['+'], ['-']] := by
        split <;> simp
      exact IsPower.row (by simp) signed some_digit (digits_row power.natAbs)

theorem is_number_signed {spelling : Spelling} (sound : spelling.Sound) (negative : Bool) :
    IsNumber (signed negative spelling.text) := by
  have fraction : IsFraction (Spelling.fractionText spelling.fraction) := by
    rw [Spelling.fractionText]
    split
    · exact .none
    · next some_digit => exact .row (mt List.isEmpty_iff.mpr some_digit) sound.back
  have number : ∀ minus ∈ [[], ['-']], IsNumber (minus ++ spelling.text) := fun minus signed =>
    .parts signed sound.front sound.leads fraction (is_power_text spelling.power)
  cases negative with
  | true => exact number ['-'] (by simp)
  | false => exact number [] (by simp)

theorem is_value_scalar {json : Json} (word : json.opening = .word) :
    IsValue json.scalar.toList := by
  rcases written_cases json word with ⟨_, text⟩ | ⟨value, _, text⟩ |
      ⟨_, negative, _, _, _, _, sound, text⟩
  · rw [text]
    exact .null
  · rw [text]
    exact .number (is_number_digits value)
  · rw [text]
    exact .number (is_number_signed sound negative)

end Words

section Rows

variable {IsPart : List Char → Prop}

theorem is_blanks_line_break (depth : Nat) : IsBlanks (lineBreak depth) := by
  intro character member
  simp only [lineBreak, List.mem_cons, List.mem_replicate] at member
  rcases member with rfl | ⟨_, rfl⟩ <;> decide

/-- A row on a line of its own, with the rows behind it and a line break at the end. -/
theorem is_parted_rows {row : List Char} {rows : List (List Char)} (depth outer : Nat)
    (part : IsPart row) (parts : ∀ row ∈ rows, IsPart row) :
    IsParted IsPart (lineBreak depth ++ (row ++
      (rows.flatMap (fun row => ',' :: (lineBreak depth ++ row)) ++ lineBreak outer))) := by
  induction rows generalizing row with
  | nil =>
      exact .one (is_blanks_line_break depth) part (is_blanks_line_break outer)
  | cons next rows induction =>
      rw [List.forall_mem_cons] at parts
      have none : IsBlanks [] := by simp [IsBlanks]
      have others := IsParted.more (is_blanks_line_break depth) part none (induction parts.1 parts.2)
      simpa using others

theorem is_enclosed_bracketed {left right : Char} {rows : List (List Char)} (depth : Nat)
    (parts : ∀ row ∈ rows, IsPart row) :
    IsEnclosed left right IsPart (bracketed depth left right rows) := by
  cases rows with
  | nil =>
      have none : IsBlanks [] := by simp [IsBlanks]
      exact .empty none
  | cons row rows =>
      rw [List.forall_mem_cons] at parts
      have enclosed : IsEnclosed left right IsPart (left :: (_ ++ [right])) :=
        .parts (is_parted_rows (depth + 1) depth parts.1 parts.2)
      simpa [bracketed] using enclosed

theorem is_member_characters {depth : Nat} {member : String × Json}
    (value : IsValue (characters depth member.2)) :
    IsMember IsValue (memberCharacters depth member) := by
  have none : IsBlanks [] := by simp [IsBlanks]
  have blank : IsBlanks [' '] := by simp [IsBlanks]
  exact .named (is_string_quote member.1) none blank value

theorem is_object_of_members {members : List (String × Json)} {depth : Nat}
    (values : ∀ member ∈ members, IsValue (characters (depth + 1) member.2)) :
    IsObject (characters depth (object members)) := by
  rw [object_characters]
  apply is_enclosed_bracketed
  rw [List.forall_mem_map]
  exact fun member isMember => is_member_characters (values member isMember)

/-- The indented text of every value is a value of the format. -/
theorem is_value_indented (json : Json) (depth : Nat) : IsValue (characters depth json) := by
  induction json using Json.induction generalizing depth with
  | word json word =>
      rw [word_characters depth word]
      exact is_value_scalar word
  | text value =>
      apply IsValue.string
      simpa [characters, indented, scalar] using is_string_quote value
  | array items parts =>
      rw [array_characters]
      apply IsValue.array
      apply is_enclosed_bracketed
      rw [List.forall_mem_map]
      exact fun item member => parts item member (depth + 1)
  | object members parts =>
      apply IsValue.object
      exact is_object_of_members fun member isMember => parts member isMember (depth + 1)

theorem is_object_indented (members : List (String × Json)) (depth : Nat) :
    IsObject (characters depth (object members)) :=
  is_object_of_members fun member _ => is_value_indented member.2 (depth + 1)

end Rows

end Cohesion.Json
