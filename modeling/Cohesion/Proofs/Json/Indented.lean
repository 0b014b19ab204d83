import Cohesion.Proofs.Decimal.Distinct

/-!
# The indented text of a JSON value determines it

A value is found at the front of a text whatever stands behind it, as long as no number goes on there.
What the text does not tell is which number that is not finite stands in the place of a null.
-/

namespace Cohesion

open Decimal

theorem data_is_some_iff (value : Float) : (data? value).isSome = value.isFinite := by
  cases finite : value.isFinite with
  | true =>
      obtain ⟨_, _, _, parts, _⟩ := of_float_eq finite
      simp [data?, parts]
  | false =>
      obtain ⟨bits, isBits⟩ : ∃ bits, value.toModel.toBits.toBitVec.toNat = bits := ⟨_, rfl⟩
      have unpacked := unpack_of_field value.toModel.toBits.toBitVec _ _ rfl rfl
      change value.toModel.unpack = _ at unpacked
      change value.toModel.unpack.isFinite = false at finite
      rw [unpacked] at finite
      have top : value.toBits.toNat / Nat.pow 2 52 % Nat.pow 2 11 = Nat.pow 2 11 - 1 := by
        split_ifs at finite with top none bottom
        · exact top
        · exact top
        · simp [value_of_finite.1] at finite
        · simp [value_of_finite.1] at finite
      simp only [data?, Binary.ofFloat, if_pos top]
      split_ifs <;> rfl

namespace Json

section Values

mutual

/-- The value as its text shows it: a number that is not finite counts as null. -/
def written : Json → Json
  | number value => if value.isFinite then number value else null
  | array items => array (writtenItems items)
  | object members => object (writtenMembers members)
  | null => null
  | count value => count value
  | text value => text value

def writtenItems : List Json → List Json
  | [] => []
  | item :: rest => written item :: writtenItems rest

def writtenMembers : List (String × Json) → List (String × Json)
  | [] => []
  | (name, value) :: rest => (name, written value) :: writtenMembers rest

end

@[simp] theorem written_null : null.written = null := rfl

@[simp] theorem written_count (value : Nat) : (count value).written = count value := rfl

@[simp] theorem written_text (value : String) : (text value).written = text value := rfl

@[simp] theorem written_array (items : List Json) :
    (array items).written = array (items.map written) := by
  rw [written]
  congr 1
  induction items with
  | nil => rfl
  | cons item rest induction => rw [writtenItems, induction, List.map_cons]

@[simp] theorem written_object (members : List (String × Json)) : (object members).written =
    object (members.map fun member => (member.1, member.2.written)) := by
  rw [written]
  congr 1
  induction members with
  | nil => rfl
  | cons member rest induction => rw [writtenMembers, induction, List.map_cons]

inductive Opening where
  | word
  | quote
  | bracket
  | brace
  deriving DecidableEq

def opening : Json → Opening
  | text _ => .quote
  | array _ => .bracket
  | object _ => .brace
  | null | count _ | number _ => .word

/-- What holds of words and of texts, and of values whose parts it holds of, holds of every value. -/
theorem induction {motive : Json → Prop} (word : ∀ json : Json, json.opening = .word → motive json)
    (text : ∀ value, motive (text value))
    (array : ∀ items, (∀ item ∈ items, motive item) → motive (array items))
    (object : ∀ members, (∀ member ∈ members, motive member.2) → motive (object members))
    (json : Json) : motive json := by
  refine @Json.rec motive (fun items => ∀ item ∈ items, motive item)
    (fun members => ∀ member ∈ members, motive member.2) (fun member => motive member.2)
    (word _ rfl) (fun _ => word _ rfl) (fun _ => word _ rfl) text array object ?_ ?_ ?_ ?_ ?_ json
  · simp
  · intro item rest itemHolds restHold
    exact List.forall_mem_cons.mpr ⟨itemHolds, restHold⟩
  · simp
  · intro member rest memberHolds restHold
    exact List.forall_mem_cons.mpr ⟨memberHolds, restHold⟩
  · exact fun _ _ holds => holds

end Values

section Words

/-- Letters, digits, the point and the signs: what numbers and literals are written with. -/
def isWord (character : Char) : Bool :=
  character.isAlphanum || character = '.' || character = '+' || character = '-'

theorem is_word_of_digit {character : Char} (decimal : character.isDigit = true) :
    isWord character = true := by
  simp [isWord, Char.isAlphanum, decimal]

theorem word_row {row : List Char} (isRow : IsRow row) : ∀ character ∈ row, isWord character = true :=
  fun character member => is_word_of_digit (isRow character member)

theorem spelling_characters {spelling : Spelling} (sound : spelling.Sound) :
    (∀ character ∈ spelling.text, isWord character = true) ∧
      ∃ character ∈ spelling.text, character.isDigit = false := by
  obtain ⟨whole, fraction, power⟩ := spelling
  have front := word_row sound.front
  have back := word_row sound.back
  have behind : (∀ character ∈ Spelling.fractionText fraction, isWord character = true) ∧
      (∀ character ∈ Spelling.powerText power, isWord character = true) := by
    constructor
    · rw [Spelling.fractionText]
      split
      · simp
      · exact List.forall_mem_cons.mpr ⟨rfl, back⟩
    · cases power with
      | none => simp [Spelling.powerText]
      | some power =>
          refine List.forall_mem_cons.mpr ⟨rfl, List.forall_mem_cons.mpr ⟨?_, word_row (digits_row _)⟩⟩
          split <;> rfl
  constructor
  · exact List.forall_mem_append.mpr ⟨front, List.forall_mem_append.mpr behind⟩
  · cases fraction with
    | cons digit others => exact ⟨'.', by simp [Spelling.text, Spelling.fractionText], rfl⟩
    | nil =>
        cases power with
        | none => exact absurd sound.marked (by simp)
        | some power => exact ⟨'e', by simp [Spelling.text, Spelling.powerText], rfl⟩

structure NumberText (text : List Char) : Prop where
  words : ∀ character ∈ text, isWord character = true
  marked : ∃ character ∈ text, character.isDigit = false
  starts : ∃ character others, text = character :: others ∧ character ≠ 'n'

theorem number_text {spelling : Spelling} (sound : spelling.Sound) (negative : Bool) :
    NumberText (signed negative spelling.text) := by
  obtain ⟨words, mark, member, notDigit⟩ := spelling_characters sound
  cases negative with
  | true =>
      constructor
      · exact List.forall_mem_cons.mpr ⟨rfl, words⟩
      · exact ⟨mark, List.mem_cons_of_mem _ member, notDigit⟩
      · exact ⟨'-', _, rfl, by decide⟩
  | false =>
      obtain ⟨digit, others, starts, decimal⟩ := row_starts sound.front sound.leads.1
        (Spelling.fractionText spelling.fraction ++ Spelling.powerText spelling.power)
      refine ⟨words, ⟨mark, member, notDigit⟩, digit, others, starts, ?_⟩
      rintro rfl
      contradiction

theorem finite_spelling {value : Float} (finite : value.isFinite = true) :
    ∃ negative, ∃ spelling : Spelling, spelling.Sound ∧
      data? value = some (String.ofList (signed negative spelling.text)) := by
  obtain ⟨negative, mantissa, exponent, parts, canonical, few, _⟩ := of_float_eq finite
  refine ⟨negative, _, spelling_sound (shortest_scans canonical few).2.2, ?_⟩
  simp only [data?, parts, fractional_eq_text]

theorem written_cases (json : Json) (word : json.opening = .word) :
    json.written = null ∧ json.scalar.toList = ['n', 'u', 'l', 'l'] ∨
      (∃ value, json.written = count value ∧ json.scalar.toList = digits value) ∨
        ∃ value negative, ∃ spelling : Spelling, json.written = number value ∧
          value.isFinite = true ∧ data? value = some json.scalar ∧ spelling.Sound ∧
            json.scalar.toList = signed negative spelling.text := by
  cases json with
  | null => exact .inl ⟨rfl, by simp [scalar]⟩
  | count value => exact .inr (.inl ⟨value, rfl, by simp [scalar, digits, Nat.repr]⟩)
  | number value =>
      by_cases finite : value.isFinite = true
      · obtain ⟨negative, spelling, sound, shown⟩ := finite_spelling finite
        refine .inr (.inr ⟨value, negative, spelling, by rw [written, if_pos finite], finite, ?_⟩)
        simp [scalar, shown, sound]
      · have shown := data_is_some_iff value
        rw [Bool.not_eq_true] at finite
        rw [finite, Option.isSome_eq_false_iff, Option.isNone_iff_eq_none] at shown
        exact .inl ⟨by rw [written, finite]; rfl, by simp [scalar, shown]⟩
  | text | array | object => cases word

theorem words_characters {json : Json} (word : json.opening = .word) :
    ∀ character ∈ json.scalar.toList, isWord character = true := by
  rcases written_cases json word with ⟨_, text⟩ | ⟨value, _, text⟩ |
      ⟨_, negative, _, _, _, _, sound, text⟩
  · simp [text, isWord]
  · rw [text]
    exact word_row (digits_row value)
  · rw [text]
    exact (number_text sound negative).words

theorem word_ne_nil {json : Json} (word : json.opening = .word) : json.scalar.toList ≠ [] := by
  rcases written_cases json word with ⟨_, text⟩ | ⟨value, _, text⟩ |
      ⟨_, negative, _, _, _, _, sound, text⟩
  · simp [text]
  · rw [text]
    exact List.ne_nil_of_length_pos (RoundingInterval.length_digits_pos value)
  · obtain ⟨character, others, starts, _⟩ := (number_text sound negative).starts
    simp [text, starts]

/-- Words with the same text are the same, as far as the text tells. -/
theorem words_inj {first second : Json} (word : first.opening = .word)
    (otherWord : second.opening = .word) (same : first.scalar = second.scalar) :
    first.written = second.written := by
  have null_count : ∀ value, ['n', 'u', 'l', 'l'] ≠ digits value := by
    intro value equal
    have isRow := digits_row value 'n' (equal ▸ List.mem_cons_self)
    contradiction
  have null_number : ¬NumberText ['n', 'u', 'l', 'l'] := by
    intro isText
    obtain ⟨character, others, starts, other⟩ := isText.starts
    exact other (List.cons.inj starts).1.symm
  have count_number : ∀ value, ¬NumberText (digits value) := by
    intro value isText
    obtain ⟨character, member, notDigit⟩ := isText.marked
    rw [digits_row value character member] at notDigit
    contradiction
  have texts := congrArg String.toList same
  rcases written_cases first word with ⟨isNull, text⟩ | ⟨value, isCount, text⟩ |
      ⟨value, negative, spelling, isNumber, finite, shown, sound, text⟩ <;>
    rcases written_cases second otherWord with ⟨otherNull, otherText⟩ |
      ⟨other, otherCount, otherText⟩ |
      ⟨other, otherNegative, otherSpelling, otherNumber, otherFinite, otherShown, otherSound,
        otherText⟩ <;>
    rw [text, otherText] at texts
  · rw [isNull, otherNull]
  · exact absurd texts (null_count other)
  · exact absurd (texts ▸ number_text otherSound otherNegative) null_number
  · exact absurd texts.symm (null_count value)
  · rw [isCount, otherCount, Spelling.digits_inj texts]
  · exact absurd (texts ▸ number_text otherSound otherNegative) (count_number value)
  · exact absurd (texts ▸ number_text sound negative) null_number
  · exact absurd (texts ▸ number_text sound negative) (count_number other)
  · rw [isNumber, otherNumber, data_inj finite otherFinite (by rw [shown, otherShown, same])]

end Words

section Rows

def characters (depth : Nat) (json : Json) : List Char := (json.indented depth).toList

def lineBreak (depth : Nat) : List Char := '\n' :: List.replicate (2 * depth) ' '

def bracketed (depth : Nat) (left right : Char) : List (List Char) → List Char
  | [] => [left, right]
  | row :: rows => left :: (lineBreak (depth + 1) ++ (row ++
      (rows.flatMap (fun row => ',' :: (lineBreak (depth + 1) ++ row)) ++
        (lineBreak depth ++ [right]))))

def memberCharacters (depth : Nat) (member : String × Json) : List Char :=
  (quote member.1).toList ++ (':' :: ' ' :: characters depth member.2)

theorem new_line_characters (depth : Nat) : (newLine depth).toList = lineBreak depth := by
  simp [newLine, lineBreak]

theorem indented_items_characters (depth : Nat) (items : List Json) :
    (indentedItems depth items).toList =
      (items.map (characters depth)).flatMap fun row => ',' :: (lineBreak depth ++ row) := by
  induction items with
  | nil => rfl
  | cons item rest induction =>
      simp [indentedItems, induction, new_line_characters, characters]

theorem indented_members_characters (depth : Nat) (members : List (String × Json)) :
    (indentedMembers depth members).toList =
      (members.map (memberCharacters depth)).flatMap fun row => ',' :: (lineBreak depth ++ row) := by
  induction members with
  | nil => rfl
  | cons member rest induction =>
      simp [indentedMembers, induction, new_line_characters, characters, memberCharacters]

theorem array_characters (depth : Nat) (items : List Json) : characters depth (array items) =
    bracketed depth '[' ']' (items.map (characters (depth + 1))) := by
  cases items with
  | nil => simp [characters, indented, bracketed]
  | cons item rest =>
      simp [characters, indented, bracketed, indented_items_characters, new_line_characters]

theorem object_characters (depth : Nat) (members : List (String × Json)) :
    characters depth (object members) =
      bracketed depth '\x7b' '\x7d' (members.map (memberCharacters (depth + 1))) := by
  cases members with
  | nil => simp [characters, indented, bracketed]
  | cons member rest =>
      simp [characters, indented, bracketed, indented_members_characters, new_line_characters,
        memberCharacters]

theorem word_characters (depth : Nat) {json : Json} (word : json.opening = .word) :
    characters depth json = json.scalar.toList := by
  cases json with
  | null | count | number => simp [characters, indented]
  | text | array | object => cases word

variable {Item Seen : Type} {row : Item → List Char} {seen : Item → Seen}

/-- What is seen of an item can be told from the front of a text, unless a word goes on behind it. -/
def Told (row : Item → List Char) (seen : Item → Seen) (item : Item) : Prop :=
  ∀ other rest others, Stops isWord rest → Stops isWord others →
    row item ++ rest = row other ++ others → seen item = seen other ∧ rest = others

/-- Behind a row stands a comma or the end of a line. -/
theorem rows_stop (row : Item → List Char) (depth outer : Nat) (right : Char) (items : List Item)
    (rest : List Char) : Stops isWord
      ((items.map row).flatMap (fun row => ',' :: (lineBreak depth ++ row)) ++
        (lineBreak outer ++ (right :: rest))) := by
  cases items with
  | nil => simp [Stops, lineBreak, isWord]
  | cons => simp [Stops, isWord]

theorem told_rows {depth outer : Nat} {right : Char} {items others : List Item} {rest behind : List Char}
    (told : ∀ item ∈ items, Told row seen item)
    (same : (items.map row).flatMap (fun row => ',' :: (lineBreak depth ++ row)) ++
      (lineBreak outer ++ (right :: rest)) =
      (others.map row).flatMap (fun row => ',' :: (lineBreak depth ++ row)) ++
        (lineBreak outer ++ (right :: behind))) :
    items.map seen = others.map seen ∧ rest = behind := by
  induction items generalizing others with
  | nil =>
      cases others with
      | nil => simpa using same
      | cons => simp [lineBreak] at same
  | cons item items induction =>
      cases others with
      | nil => simp [lineBreak] at same
      | cons other others =>
          rw [List.forall_mem_cons] at told
          simp only [List.map_cons, List.flatMap_cons, List.cons_append, List.cons.injEq,
            List.append_assoc, List.append_cancel_left_eq, true_and] at same
          obtain ⟨first, tails⟩ := told.1 other _ _
            (rows_stop row depth outer right items rest)
            (rows_stop row depth outer right others behind) same
          obtain ⟨later, ends⟩ := induction told.2 tails
          simp [first, later, ends]

theorem told_bracketed {depth : Nat} {left right : Char} (notBreak : right ≠ '\n')
    {items others : List Item} {rest behind : List Char} (told : ∀ item ∈ items, Told row seen item)
    (same : bracketed depth left right (items.map row) ++ rest =
      bracketed depth left right (others.map row) ++ behind) :
    items.map seen = others.map seen ∧ rest = behind := by
  cases items with
  | nil =>
      cases others with
      | nil => simpa [bracketed] using same
      | cons => simp [bracketed, lineBreak, notBreak] at same
  | cons item items =>
      cases others with
      | nil => simp [bracketed, lineBreak, notBreak.symm] at same
      | cons other others =>
          rw [List.forall_mem_cons] at told
          simp only [List.map_cons, bracketed, List.cons_append, List.cons.injEq,
            List.append_assoc, List.append_cancel_left_eq, true_and] at same
          obtain ⟨first, tails⟩ := told.1 other _ _ (rows_stop row _ _ right items rest)
            (rows_stop row _ _ right others behind) same
          obtain ⟨later, ends⟩ := told_rows told.2 tails
          simp [first, later, ends]

end Rows

section Texts

theorem quote_cancel {first second : String} {rest behind : List Char}
    (same : (quote first).toList ++ rest = (quote second).toList ++ behind) :
    first = second ∧ rest = behind := by
  have bytes : ∀ (text : String) (rest : List Char), encoded ((quote text).toList ++ rest) =
      '"'.toUInt8 :: (encoded (text.toList.flatMap escape) ++ '"'.toUInt8 :: encoded rest) := by
    intro text rest
    have mark : String.utf8EncodeChar '"' = ['"'.toUInt8] := by decide
    simp [quote, mark]
  have scanned := congrArg (scanQuoted .between []) (List.cons.inj
    ((bytes first rest).symm.trans ((congrArg encoded same).trans (bytes second behind)))).2
  rw [scan_quoted_text, scan_quoted_text, Except.ok.injEq, Prod.mk.injEq] at scanned
  rw [scanned.1] at same
  exact ⟨scanned.1, List.append_cancel_left same⟩

def openingOf (character : Char) : Opening :=
  if character = '"' then .quote
  else if character = '[' then .bracket
  else if character = '\x7b' then .brace
  else .word

theorem opening_of_word {character : Char} (word : isWord character = true) :
    openingOf character = .word := by
  have not_word : isWord '"' = false ∧ isWord '[' = false ∧ isWord '\x7b' = false := by decide
  rw [openingOf]
  split_ifs with isQuote isBracket isBrace
  · simp [isQuote, not_word] at word
  · simp [isBracket, not_word] at word
  · simp [isBrace, not_word] at word
  · rfl

theorem starts_with_opening (depth : Nat) (json : Json) (rest : List Char) :
    (characters depth json ++ rest).head?.map openingOf = some json.opening := by
  have bracketed_starts : ∀ (left right : Char) (rows : List (List Char)),
      (bracketed depth left right rows ++ rest).head? = some left := by
    intro left right rows
    cases rows <;> rfl
  by_cases word : json.opening = .word
  · obtain ⟨character, others, starts⟩ := List.exists_cons_of_ne_nil (word_ne_nil word)
    have isWord := words_characters word character (starts ▸ List.mem_cons_self)
    simp [word_characters depth word, starts, opening_of_word isWord, word]
  · cases json with
    | null | count | number => contradiction
    | text value => simp [characters, indented, scalar, quote, openingOf, opening]
    | array items =>
        rw [array_characters, bracketed_starts]
        rfl
    | object members =>
        rw [object_characters, bracketed_starts]
        rfl

theorem same_opening {first second : Json} {depth : Nat} {rest others : List Char}
    (same : characters depth first ++ rest = characters depth second ++ others) :
    second.opening = first.opening := by
  have starts := starts_with_opening depth second others
  rw [← same, starts_with_opening, Option.some.injEq] at starts
  exact starts.symm

theorem told_member {member : String × Json} {depth : Nat}
    (told : Told (characters depth) written member.2) :
    Told (memberCharacters depth) (fun member => (member.1, member.2.written)) member := by
  intro second rest others stops otherStops same
  simp only [memberCharacters, List.append_assoc] at same
  obtain ⟨name, behind⟩ := quote_cancel same
  simp only [List.cons_append, List.cons.injEq, true_and] at behind
  obtain ⟨value, ends⟩ := told second.2 rest others stops otherStops behind
  simp [name, value, ends]

/-- Every value can be told from the front of a text, whatever its depth. -/
theorem told_value (json : Json) (depth : Nat) : Told (characters depth) written json := by
  induction json using Json.induction generalizing depth with
  | word json word =>
      intro other rest others stops otherStops same
      have otherWord := (same_opening same).trans word
      rw [word_characters depth word, word_characters depth otherWord] at same
      obtain ⟨texts, ends⟩ :=
        cancel_run (words_characters word) (words_characters otherWord) stops otherStops same
      exact ⟨words_inj word otherWord (String.toList_inj.mp texts), ends⟩
  | text value =>
      intro other rest others _ _ same
      cases other with
      | null | count | number | array | object => cases same_opening same
      | text otherValue =>
          obtain ⟨rfl, ends⟩ := quote_cancel (by simpa [characters, indented, scalar] using same)
          exact ⟨rfl, ends⟩
  | array items told =>
      intro other rest others _ _ same
      cases other with
      | null | count | number | text | object => cases same_opening same
      | array otherItems =>
          rw [array_characters, array_characters] at same
          obtain ⟨parts, ends⟩ :=
            told_bracketed (by decide) (fun item member => told item member (depth + 1)) same
          rw [written_array, written_array, parts]
          exact ⟨rfl, ends⟩
  | object members told =>
      intro other rest others _ _ same
      cases other with
      | null | count | number | text | array => cases same_opening same
      | object otherMembers =>
          rw [object_characters, object_characters] at same
          obtain ⟨parts, ends⟩ := told_bracketed (by decide)
            (fun member isMember => told_member (told member isMember (depth + 1))) same
          rw [written_object, written_object, parts]
          exact ⟨rfl, ends⟩

/-- Values with the same indented text are the same, as far as a text tells. -/
theorem indented_inj {first second : Json} {depth : Nat}
    (same : first.indented depth = second.indented depth) : first.written = second.written := by
  have nothing : Stops isWord [] := by simp [Stops]
  have told := told_value first depth second [] [] nothing nothing
  rw [characters, characters, same] at told
  exact (told rfl).1

end Texts

end Json

end Cohesion
