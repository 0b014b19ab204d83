import Cohesion.Proofs.Decimal.Layout
import Cohesion.Proofs.Json.Indented

/-!
# The characters of decimal texts

The plain and the fixed layout write any double with letters, digits, points and signs alone, so that
a number never brings a blank, a mark or a line feed into a text.
-/

namespace Cohesion.Decimal

open Json (isWord is_word_of_digit word_row)

theorem parts_rows (numeral : Numeral) : IsRow numeral.parts.1 ∧ IsRow numeral.parts.2 := by
  have coefficient := digits_row numeral.coefficient
  dsimp only [Numeral.parts]
  split
  · exact ⟨coefficient.append (zeros_row _), fun _ member => nomatch member⟩
  · split
    · rw [List.splitAt_eq]
      exact ⟨fun digit member => coefficient digit (List.mem_of_mem_take member),
        fun digit member => coefficient digit (List.mem_of_mem_drop member)⟩
    · exact ⟨digits_row 0, (zeros_row _).append coefficient⟩

theorem positional_words (numeral : Numeral) :
    ∀ character ∈ numeral.positional, isWord character = true := by
  obtain ⟨whole, fraction⟩ := parts_rows numeral
  unfold Numeral.positional withFraction
  split
  · exact word_row whole
  · exact List.forall_mem_append.mpr
      ⟨word_row whole, List.forall_mem_cons.mpr ⟨rfl, word_row fraction⟩⟩

theorem signed_words {negative : Bool} {text : List Char}
    (words : ∀ character ∈ text, isWord character = true) :
    ∀ character ∈ signed negative text, isWord character = true := by
  unfold signed
  split
  · exact List.forall_mem_cons.mpr ⟨rfl, words⟩
  · exact words

theorem special_words : (∀ character ∈ "NaN".toList, isWord character = true) ∧
    ∀ character ∈ "inf".toList, isWord character = true := by
  simp [isWord]

theorem plain_words (value : Float) :
    ∀ character ∈ (plain value).toList, isWord character = true := by
  unfold plain
  split
  · exact special_words.1
  · rw [String.toList_ofList]
    exact signed_words special_words.2
  · rw [String.toList_ofList]
    exact signed_words (positional_words _)

theorem fixed_words (value : Float) :
    ∀ character ∈ (fixed value).toList, isWord character = true := by
  unfold fixed
  split
  · exact special_words.1
  · rw [String.toList_ofList]
    exact signed_words special_words.2
  · rw [String.toList_ofList]
    apply signed_words
    refine List.forall_mem_append.mpr ⟨List.forall_mem_append.mpr ⟨?_, ?_⟩, ?_⟩
    · exact word_row (digits_row _)
    · exact List.forall_mem_cons.mpr ⟨rfl, word_row (zeros_row _)⟩
    · exact word_row (digits_row _)

section Marks

variable (mark : Char) (notWord : isWord mark = false)

include notWord

theorem not_mem_of_words {text : List Char} (words : ∀ character ∈ text, isWord character = true) :
    mark ∉ text := by
  intro member
  rw [words mark member] at notWord
  cases notWord

theorem not_mem_plain (value : Float) : mark ∉ (plain value).toList :=
  not_mem_of_words mark notWord (plain_words value)

theorem not_mem_fixed (value : Float) : mark ∉ (fixed value).toList :=
  not_mem_of_words mark notWord (fixed_words value)

theorem not_mem_digits (value : Nat) : mark ∉ Nat.toDigits 10 value :=
  not_mem_of_words mark notWord (word_row (digits_row value))

end Marks

end Cohesion.Decimal
