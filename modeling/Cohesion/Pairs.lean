import Cohesion.Weight

/-!
Scanning the unordered pairs of a list. A pair is listed with its earlier member first, and pairs
come in the order of their first members, then of their second.
-/

namespace Cohesion

variable {Item : Type}

def pairs : List Item → List (Item × Item)
  | [] => []
  | head :: rest => rest.map (head, ·) ++ pairs rest

theorem mem_of_mem_pairs {items : List Item} {pair : Item × Item} (member : pair ∈ pairs items) :
    pair.1 ∈ items ∧ pair.2 ∈ items := by
  induction items with
  | nil => simp [pairs] at member
  | cons head rest induction =>
      simp only [pairs, List.mem_append, List.mem_map] at member
      rcases member with ⟨second, memberSecond, rfl⟩ | later
      · simp [memberSecond]
      · have both := induction later
        simp [both]

variable {W : Type} [Weight W]

/-- Keep the strongest item so far unless the next one is strictly stronger. -/
def stronger (strength : Item → W) (best : Option (Item × W)) (item : Item) : Option (Item × W) :=
  match best with
  | none => some (item, strength item)
  | some (held, heldStrength) =>
      let itemStrength := strength item
      if Weight.exceeds itemStrength heldStrength then some (item, itemStrength)
      else some (held, heldStrength)

/-- The first item of greatest strength, with that strength. -/
def firstStrongest (strength : Item → W) (items : List Item) : Option (Item × W) :=
  items.foldl (stronger strength) none

theorem foldl_stronger_mem {strength : Item → W} {items : List Item}
    {start : Option (Item × W)} {best : Item × W}
    (result : items.foldl (stronger strength) start = some best) :
    start = some best ∨ best.1 ∈ items ∧ best.2 = strength best.1 := by
  induction items generalizing start with
  | nil => exact .inl result
  | cons head rest induction =>
      rcases induction result with stepped | ⟨member, equal⟩
      · unfold stronger at stepped
        split at stepped
        · cases stepped
          exact .inr ⟨List.mem_cons_self, rfl⟩
        · dsimp only at stepped
          split at stepped
          · cases stepped
            exact .inr ⟨List.mem_cons_self, rfl⟩
          · exact .inl stepped
      · exact .inr ⟨List.mem_cons_of_mem _ member, equal⟩

theorem first_strongest_mem {strength : Item → W} {items : List Item} {best : Item × W}
    (result : firstStrongest strength items = some best) : best.1 ∈ items :=
  (foldl_stronger_mem result).elim (fun absurdity => nomatch absurdity) And.left

end Cohesion
