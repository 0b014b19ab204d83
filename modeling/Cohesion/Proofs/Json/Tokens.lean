import Cohesion.Proofs.Json.Quoted

/-!
# The tokens of a compact text

A quoted text is one token, and so is a mark. Items and members are parted by commas, so the tokens
of an array or an object are those of its parts with commas between them and a pair of marks around.
-/

namespace Cohesion.Json

/-- The end or a mark: what a complete value has behind it. -/
def AtMark (rest : List UInt8) : Prop := ∀ byte ∈ rest.head?, (mark? byte).isSome

/-- With the end or a mark behind it, the text is scanned as these tokens. -/
def Spells (text : String) (row : List Token) : Prop :=
  ∀ rest, AtMark rest → tokens (bytesOf text ++ rest) = row ++ tokens rest

structure IsMark (text : String) (mark : Token) (byte : UInt8) : Prop where
  bytes : bytesOf text = [byte]
  marked : mark? byte = some mark

theorem comma_mark : IsMark "," .comma ','.toUInt8 := ⟨by decide, rfl⟩

theorem colon_mark : IsMark ":" .colon ':'.toUInt8 := ⟨by decide, rfl⟩

theorem array_opening : IsMark "[" .openArray '['.toUInt8 := ⟨by decide, rfl⟩

theorem array_closing : IsMark "]" .closeArray ']'.toUInt8 := ⟨by decide, rfl⟩

theorem object_opening : IsMark "\x7b" .openObject '\x7b'.toUInt8 := ⟨by decide, rfl⟩

theorem object_closing : IsMark "\x7d" .closeObject '\x7d'.toUInt8 := ⟨by decide, rfl⟩

theorem not_blank_of_mark {byte : UInt8} {mark : Token} (marked : mark? byte = some mark) :
    isBlank byte = false := by
  cases blank : isBlank byte with
  | false => rfl
  | true =>
      simp only [isBlank, Bool.or_eq_true, beq_iff_eq, or_assoc] at blank
      rcases blank with rfl | rfl | rfl | rfl <;> cases marked

section Mark

variable {text : String} {mark : Token} {byte : UInt8} (isMark : IsMark text mark byte)

include isMark

theorem tokens_mark (rest : List UInt8) :
    tokens (bytesOf text ++ rest) = mark :: tokens rest := by
  rw [isMark.bytes, List.singleton_append, tokens_cons, not_blank_of_mark isMark.marked, scanToken,
    isMark.marked]
  rfl

theorem at_mark (rest : List UInt8) : AtMark (bytesOf text ++ rest) := by
  simp [AtMark, isMark.bytes, isMark.marked]

end Mark

theorem tokens_quote (text : String) (rest : List UInt8) :
    tokens (bytesOf (quote text) ++ rest) = .text (.ok text) :: tokens rest := by
  have notBlank : isBlank '"'.toUInt8 = false := by decide
  have unmarked : mark? '"'.toUInt8 = none := by decide
  rw [bytes_of_quote, List.cons_append, tokens_cons, scanToken, unmarked]
  simp [notBlank, scan_quoted_text, tokenOf]

theorem text_spelled (text : String) : Spells (Json.text text).compact [.text (.ok text)] := by
  intro rest _
  simpa [compact, scalar] using tokens_quote text rest

def memberText (name : String) (value : Json) : String := quote name ++ ":" ++ value.compact

def memberRow (name : String) (row : List Token) : List Token := .text (.ok name) :: .colon :: row

theorem member_spelled {name : String} {value : Json} {row : List Token}
    (spelled : Spells value.compact row) : Spells (memberText name value) (memberRow name row) := by
  intro rest atMark
  simp [memberText, memberRow, tokens_quote, tokens_mark colon_mark, spelled rest atMark]

def parted (first : Bool) : List String → String
  | [] => ""
  | head :: rest => (if first then "" else ",") ++ head ++ parted false rest

def partedRows (first : Bool) : List (List Token) → List Token
  | [] => []
  | head :: rest => (if first then [] else [.comma]) ++ head ++ partedRows false rest

theorem parted_rows_first (row : List Token) (others : List (List Token)) (back : List Token) :
    partedRows true (row :: others) ++ back = row ++ (partedRows false others ++ back) := by
  simp [partedRows]

theorem parted_rows_later (row : List Token) (others : List (List Token)) (back : List Token) :
    partedRows false (row :: others) ++ back =
      .comma :: (row ++ (partedRows false others ++ back)) := by
  simp [partedRows]

theorem compact_items_eq (first : Bool) (items : List Json) :
    compactItems first items = parted first (items.map compact) := by
  induction items generalizing first with
  | nil => rw [compactItems, List.map_nil, parted]
  | cons item rest induction => rw [compactItems, induction, List.map_cons, parted]

theorem compact_members_eq (first : Bool) (members : List (String × Json)) :
    compactMembers first members =
      parted first (members.map fun member => memberText member.1 member.2) := by
  induction members generalizing first with
  | nil => rw [compactMembers, List.map_nil, parted]
  | cons member rest induction =>
      rw [compactMembers, induction, List.map_cons, parted, memberText]
      simp [String.append_assoc]

theorem at_mark_parted (texts : List String) {rest : List UInt8} (atMark : AtMark rest) :
    AtMark (bytesOf (parted false texts) ++ rest) := by
  cases texts with
  | nil => exact atMark
  | cons head others =>
      have ahead := at_mark comma_mark (bytesOf (head ++ parted false others) ++ rest)
      simpa [parted] using ahead

section Parts

variable {Item : Type} {items : List Item} {text : Item → String} {row : Item → List Token}
  (spelled : ∀ item ∈ items, Spells (text item) (row item))

include spelled

theorem parted_spelled (first : Bool) :
    Spells (parted first (items.map text)) (partedRows first (items.map row)) := by
  intro rest atMark
  induction items generalizing first with
  | nil => rfl
  | cons item others induction =>
      rw [List.forall_mem_cons] at spelled
      have ahead := spelled.1 _ (at_mark_parted (others.map text) atMark)
      rw [induction spelled.2 false] at ahead
      cases first
      case true => simp [parted, partedRows, ahead]
      case false => simp [parted, partedRows, tokens_mark comma_mark, ahead]

theorem enclosed_spelled {front back : String} {left right : Token} {opening closing : UInt8}
    (leftMark : IsMark front left opening) (rightMark : IsMark back right closing) :
    Spells (front ++ parted true (items.map text) ++ back)
      (left :: (partedRows true (items.map row) ++ [right])) := by
  intro rest _
  have inner := parted_spelled spelled true _ (at_mark rightMark rest)
  simp [tokens_mark leftMark, inner, tokens_mark rightMark]

end Parts

section Values

variable {Item : Type} {items : List Item} {value : Item → Json} {row : Item → List Token}
  (spelled : ∀ item ∈ items, Spells (value item).compact (row item))

include spelled

theorem array_spelled :
    Spells (Json.array (items.map value)).compact
      (.openArray :: (partedRows true (items.map row) ++ [.closeArray])) := by
  rw [compact, compact_items_eq, List.map_map]
  exact enclosed_spelled spelled array_opening array_closing

theorem object_spelled (name : Item → String) :
    Spells (Json.object (items.map fun item => (name item, value item))).compact
      (.openObject ::
        (partedRows true (items.map fun item => memberRow (name item) (row item)) ++
          [.closeObject])) := by
  have members : ∀ item ∈ items,
      Spells (memberText (name item) (value item)) (memberRow (name item) (row item)) :=
    fun item member => member_spelled (spelled item member)
  rw [compact, compact_members_eq, List.map_map]
  exact enclosed_spelled members object_opening object_closing

end Values

end Cohesion.Json
