import Mathlib.Data.String.Basic
import Mathlib.Order.Basic
import Mathlib.Tactic.SplitIfs
import Cohesion.Names.Set

/-!
# Names in byte order

Names are compared character by character. Their encodings are then ordered in the same way, byte by
byte, since a smaller character has an encoding that is smaller before it ends.
-/

namespace Cohesion

def nameBytes (name : String) : List UInt8 := name.toUTF8.data.toList

theorem name_bytes_eq (name : String) :
    nameBytes name = name.toList.flatMap String.utf8EncodeChar := by
  rw [nameBytes, String.toUTF8, ← String.utf8Encode_toList, List.utf8Encode]
  simp

theorem encoded_lt {first second : Char} (less : first < second)
    (firstRest secondRest : List UInt8) :
    String.utf8EncodeChar first ++ firstRest < String.utf8EncodeChar second ++ secondRest := by
  have codes : first.val.toNat < second.val.toNat := less
  have valid : second.val.toNat < 0x110000 := by
    rcases second.valid with low | high
    · have bound : second.val.toNat < 0xd800 := low
      omega
    · exact high.2
  simp only [String.utf8EncodeChar]
  generalize first.val.toNat = firstCode at codes
  generalize second.val.toNat = secondCode at codes valid
  -- Division by 64 again and again takes off one continuation byte at a time.
  have nested : ∀ code : Nat,
      code / 4096 = code / 64 / 64 ∧ code / 262144 = code / 64 / 64 / 64 := by
    intro code
    simp [Nat.div_div_eq_div_mul]
  simp only [(nested firstCode).1, (nested firstCode).2, (nested secondCode).1,
    (nested secondCode).2]
  split_ifs <;> simp [List.cons_lt_cons_iff, UInt8.lt_iff_toNat_lt, ← UInt8.toNat_inj] <;> omega

theorem encodings_lt {first second : List Char} (less : first < second) :
    first.flatMap String.utf8EncodeChar < second.flatMap String.utf8EncodeChar := by
  induction first generalizing second with
  | nil =>
      cases second with
      | nil => exact absurd less (List.lt_irrefl [])
      | cons head rest =>
          have some_byte : (head :: rest).flatMap String.utf8EncodeChar ≠ [] := by
            simp [← List.length_eq_zero_iff, Nat.ne_of_gt head.utf8Size_pos]
          obtain ⟨byte, bytes, listed⟩ := List.exists_cons_of_ne_nil some_byte
          rw [listed]
          exact List.nil_lt_cons byte bytes
  | cons head rest induction =>
      cases second with
      | nil => exact absurd less (List.not_lt_nil _)
      | cons other others =>
          rw [List.flatMap_cons, List.flatMap_cons]
          rcases List.cons_lt_cons_iff.mp less with headLess | ⟨rfl, restLess⟩
          · exact encoded_lt headLess _ _
          · exact List.append_left_lt (induction restLess)

/-- The order of names is the order of their bytes. -/
theorem lt_iff_name_bytes {first second : String} :
    first < second ↔ nameBytes first < nameBytes second := by
  have forward : ∀ {one other : String}, one < other → nameBytes one < nameBytes other := by
    intro one other less
    rw [name_bytes_eq, name_bytes_eq]
    exact encodings_lt less
  constructor
  · exact forward
  · intro less
    rcases lt_trichotomy first second with before | same | after
    · exact before
    · rw [same] at less
      exact absurd less (List.lt_irrefl _)
    · exact absurd less (List.lt_asymm (forward after))

theorem name_bytes_inj {first second : String} (same : nameBytes first = nameBytes second) :
    first = second := by
  apply le_antisymm
  · rw [← not_lt, lt_iff_name_bytes, same]
    exact List.lt_irrefl _
  · rw [← not_lt, lt_iff_name_bytes, same]
    exact List.lt_irrefl _

end Cohesion
