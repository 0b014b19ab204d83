import Mathlib.Data.List.Sort
import Cohesion.Pairs
import Cohesion.Proofs.Weight.Order

/-!
# Scanning pairs for the strongest

The pairs of an ordered list come in the order of pairs. The scan keeps what it holds unless
something strictly stronger comes, so it ends with the first item of greatest strength, provided
that every strength is a number.
-/

namespace Cohesion

variable {Item : Type}

theorem mem_pairs_iff {items : List Item} {first second : Item} :
    (first, second) ∈ pairs items ↔
      ∃ before middle after, items = before ++ first :: middle ++ second :: after := by
  induction items with
  | nil => simp [pairs]
  | cons head rest induction =>
      simp only [pairs, List.mem_append, List.mem_map, Prod.mk.injEq]
      constructor
      · rintro (⟨found, member, rfl, rfl⟩ | later)
        · obtain ⟨middle, after, rfl⟩ := List.append_of_mem member
          exact ⟨[], middle, after, rfl⟩
        · obtain ⟨before, middle, after, rfl⟩ := induction.mp later
          exact ⟨head :: before, middle, after, rfl⟩
      · rintro ⟨before, middle, after, split⟩
        cases before with
        | nil =>
            obtain ⟨rfl, rfl⟩ := List.cons.inj split
            exact .inl ⟨second, by simp, rfl, rfl⟩
        | cons other before =>
            obtain ⟨rfl, rfl⟩ := List.cons.inj split
            exact .inr (induction.mpr ⟨before, middle, after, rfl⟩)

theorem pairs_eq_nil_iff {items : List Item} : pairs items = [] ↔ items.length < 2 := by
  cases items with
  | nil => simp [pairs]
  | cons head rest =>
      cases rest with
      | nil => simp [pairs]
      | cons next others => simp [pairs]

def PairBefore (before : Item → Item → Prop) (pair other : Item × Item) : Prop :=
  before pair.1 other.1 ∨ pair.1 = other.1 ∧ before pair.2 other.2

instance {before : Item → Item → Prop} [Std.Asymm before] : Std.Asymm (PairBefore before) where
  asymm pair other less := by
    rcases less with firstLess | ⟨same, secondLess⟩
    · rintro (firstGreater | ⟨same, _⟩)
      · exact asymm firstLess firstGreater
      · rw [same] at firstLess
        exact irrefl _ firstLess
    · rintro (firstGreater | ⟨_, secondGreater⟩)
      · rw [same] at firstGreater
        exact irrefl _ firstGreater
      · exact asymm secondLess secondGreater

theorem pairs_ordered {before : Item → Item → Prop} {items : List Item}
    (ordered : items.Pairwise before) : (pairs items).Pairwise (PairBefore before) := by
  induction items with
  | nil => exact .nil
  | cons head rest induction =>
      obtain ⟨below, tail⟩ := List.pairwise_cons.mp ordered
      refine List.pairwise_append.mpr ⟨?_, induction tail, ?_⟩
      · rw [List.pairwise_map]
        exact tail.imp fun less => .inr ⟨rfl, less⟩
      · intro pair member other later
        obtain ⟨second, _, rfl⟩ := List.mem_map.mp member
        exact .inl (below other.1 (mem_of_mem_pairs later).1)

theorem related_of_mem_pairs {before : Item → Item → Prop} {items : List Item}
    (ordered : items.Pairwise before) {first second : Item}
    (member : (first, second) ∈ pairs items) : before first second := by
  obtain ⟨front, middle, back, rfl⟩ := mem_pairs_iff.mp member
  obtain ⟨_, _, across⟩ := List.pairwise_append.mp ordered
  exact across first (List.mem_append_right _ List.mem_cons_self) second List.mem_cons_self

theorem mem_pairs_or_swap {items : List Item} {first second : Item} (memberFirst : first ∈ items)
    (memberSecond : second ∈ items) (differs : first ≠ second) :
    (first, second) ∈ pairs items ∨ (second, first) ∈ pairs items := by
  obtain ⟨front, back, rfl⟩ := List.append_of_mem memberFirst
  rcases List.mem_append.mp memberSecond with inFront | inBack
  · obtain ⟨before, middle, rfl⟩ := List.append_of_mem inFront
    exact .inr (mem_pairs_iff.mpr ⟨before, middle, back, rfl⟩)
  · rcases List.mem_cons.mp inBack with same | later
    · exact absurd same.symm differs
    · obtain ⟨middle, after, rfl⟩ := List.append_of_mem later
      exact .inl (mem_pairs_iff.mpr ⟨front, middle, after, by simp⟩)

theorem zip_idx_split {items : List Item} {before middle after : List (Item × Nat)}
    {left right : Item × Nat}
    (split : items.zipIdx = before ++ left :: middle ++ right :: after) :
    items = before.map Prod.fst ++ left.1 :: middle.map Prod.fst ++ right.1 :: after.map Prod.fst ∧
      left.2 = before.length ∧ right.2 = before.length + 1 + middle.length := by
  have positions : ∀ (place : Nat) (item : Item) (number : Nat),
      items.zipIdx[place]? = some (item, number) → number = place := by
    intro place item number found
    rw [List.getElem?_zipIdx, Option.map_eq_some_iff] at found
    obtain ⟨_, _, same⟩ := found
    have number_eq := congrArg Prod.snd same
    simpa using number_eq.symm
  refine ⟨?_, ?_, ?_⟩
  · have items_eq := congrArg (List.map Prod.fst) split
    simpa using items_eq
  · apply positions before.length left.1 left.2
    rw [split]
    simp
  · apply positions (before.length + 1 + middle.length) right.1 right.2
    have front : (before ++ left :: middle).length = before.length + 1 + middle.length := by
      simp only [List.length_append, List.length_cons]
      omega
    rw [split, List.getElem?_append_right (Nat.le_of_eq front), front, Nat.sub_self]
    rfl

variable {W : Type} [Weight W]

theorem first_strongest_some (strength : Item → W) {items : List Item} (nonempty : items ≠ []) :
    ∃ best, firstStrongest strength items = some best := by
  have kept : ∀ (rest : List Item) (held : Item × W), ∃ best,
      rest.foldl (stronger strength) (some held) = some best := by
    intro rest
    induction rest with
    | nil => exact fun held => ⟨held, rfl⟩
    | cons head rest induction =>
        intro held
        rw [List.foldl_cons, stronger]
        split
        · exact induction _
        · exact induction _
  cases items with
  | nil => exact absurd rfl nonempty
  | cons head rest => exact kept rest (head, strength head)

theorem first_strongest_strength {strength : Item → W} {items : List Item} {best : Item × W}
    (result : firstStrongest strength items = some best) : best.2 = strength best.1 :=
  (foldl_stronger_mem result).elim (fun absurdity => nomatch absurdity) And.right

variable [OrderedWeight W]

/-- The rest of a scan that holds something either keeps it, since nothing exceeds it, or ends with
an item that exceeds it and everything scanned before. -/
theorem foldl_stronger_split {strength : Item → W} {items : List Item} {held best : Item × W}
    (numbers : ∀ item ∈ items, OrderedWeight.isNumber (strength item))
    (heldNumber : OrderedWeight.isNumber held.2)
    (result : items.foldl (stronger strength) (some held) = some best) :
    best = held ∧ (∀ item ∈ items, Weight.exceeds (strength item) held.2 = false) ∨
      Weight.exceeds best.2 held.2 = true ∧ ∃ before after, items = before ++ best.1 :: after ∧
        (∀ item ∈ before, Weight.exceeds best.2 (strength item) = true) ∧
        ∀ item ∈ after, Weight.exceeds (strength item) best.2 = false := by
  induction items generalizing held with
  | nil =>
      cases result
      exact .inl ⟨rfl, fun _ member => absurd member List.not_mem_nil⟩
  | cons head rest induction =>
      have headNumber := numbers head List.mem_cons_self
      have restNumbers : ∀ item ∈ rest, OrderedWeight.isNumber (strength item) :=
        fun item member => numbers item (List.mem_cons_of_mem _ member)
      rw [List.foldl_cons, stronger] at result
      split at result
      · next above =>
          rcases induction restNumbers headNumber result with ⟨same, rest_below⟩ |
            ⟨exceedsHead, before, after, split, earlier, later⟩
          · refine .inr ⟨by rw [same]; exact above, [], rest, by rw [same]; rfl, ?_, ?_⟩
            · exact fun _ member => absurd member List.not_mem_nil
            · intro item member
              rw [same]
              exact rest_below item member
          · have notAbove := OrderedWeight.exceeds_asymm above
            refine .inr ⟨?_, head :: before, after, by rw [split]; rfl, ?_, later⟩
            · exact OrderedWeight.exceeds_of_not_exceeds heldNumber exceedsHead notAbove
            · intro item member
              rcases List.mem_cons.mp member with same | inBefore
              · exact same ▸ exceedsHead
              · exact earlier item inBefore
      · next notAbove =>
          have headBelow : Weight.exceeds (strength head) held.2 = false := by simpa using notAbove
          rcases induction restNumbers heldNumber result with ⟨same, rest_below⟩ |
            ⟨exceedsHeld, before, after, split, earlier, later⟩
          · refine .inl ⟨same, fun item member => ?_⟩
            rcases List.mem_cons.mp member with isHead | inRest
            · exact isHead ▸ headBelow
            · exact rest_below item inRest
          · refine .inr ⟨exceedsHeld, head :: before, after, by rw [split]; rfl, ?_, later⟩
            intro item member
            rcases List.mem_cons.mp member with same | inBefore
            · rw [same]
              exact OrderedWeight.exceeds_of_not_exceeds headNumber exceedsHeld headBelow
            · exact earlier item inBefore

theorem first_strongest_split {strength : Item → W} {items : List Item} {best : Item × W}
    (numbers : ∀ item ∈ items, OrderedWeight.isNumber (strength item))
    (result : firstStrongest strength items = some best) :
    ∃ before after, items = before ++ best.1 :: after ∧
      (∀ item ∈ before, Weight.exceeds best.2 (strength item) = true) ∧
      ∀ item ∈ after, Weight.exceeds (strength item) best.2 = false := by
  cases items with
  | nil => cases result
  | cons head rest =>
      have headNumber := numbers head List.mem_cons_self
      have restNumbers : ∀ item ∈ rest, OrderedWeight.isNumber (strength item) :=
        fun item member => numbers item (List.mem_cons_of_mem _ member)
      have resumed : rest.foldl (stronger strength) (some (head, strength head)) = some best :=
        result
      rcases foldl_stronger_split restNumbers headNumber resumed with ⟨same, rest_below⟩ |
        ⟨exceedsHead, before, after, split, earlier, later⟩
      · subst same
        exact ⟨[], rest, rfl, fun _ member => absurd member List.not_mem_nil, rest_below⟩
      · refine ⟨head :: before, after, by rw [split]; rfl, fun item member => ?_, later⟩
        rcases List.mem_cons.mp member with same | inBefore
        · exact same ▸ exceedsHead
        · exact earlier item inBefore

/-- Nothing is stronger than what an ordered scan ends with, and what is as strong comes later. -/
theorem first_strongest_first {before : Item → Item → Prop} {strength : Item → W}
    {items : List Item} {best : Item × W}
    (numbers : ∀ item ∈ items, OrderedWeight.isNumber (strength item))
    (ordered : items.Pairwise before) (result : firstStrongest strength items = some best)
    {item : Item} (member : item ∈ items) :
    Weight.exceeds (strength item) best.2 = false ∧
      (Weight.exceeds best.2 (strength item) = false → item = best.1 ∨ before best.1 item) := by
  obtain ⟨front, back, rfl, earlier, later⟩ := first_strongest_split numbers result
  obtain ⟨_, backOrdered, _⟩ := List.pairwise_append.mp ordered
  rcases List.mem_append.mp member with inFront | inBack
  · have above := earlier item inFront
    refine ⟨OrderedWeight.exceeds_asymm above, fun reaches => ?_⟩
    rw [above] at reaches
    contradiction
  · rcases List.mem_cons.mp inBack with same | after
    · refine ⟨?_, fun _ => .inl same⟩
      rw [same, first_strongest_strength result]
      exact OrderedWeight.exceeds_irrefl _
    · exact ⟨later item after, fun _ => .inr (List.rel_of_pairwise_cons backOrdered after)⟩

end Cohesion
