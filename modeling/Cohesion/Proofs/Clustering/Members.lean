import Cohesion.Clustering.Forest

/-!
# Member lists of clusters

The members of disjoint clusters are ordered by their first numbers alone. A joined cluster has the
first number of its left part, so it comes to stand exactly where the left part stood.
-/

namespace Cohesion

/-- One list begins with something smaller than the other list does. -/
def Leads {Item : Type} [LT Item] (leading following : List Item) : Prop :=
  ∃ first ∈ leading.head?, ∃ second ∈ following.head?, first < second

theorem Leads.lt {Item : Type} [LT Item] {leading following : List Item}
    (leads : Leads leading following) : leading < following := by
  obtain ⟨first, isFirst, second, isSecond, less⟩ := leads
  obtain ⟨rest, rfl⟩ := List.head?_eq_some_iff.mp isFirst
  obtain ⟨others, rfl⟩ := List.head?_eq_some_iff.mp isSecond
  exact List.cons_lt_cons_iff.mpr (.inl less)

theorem Leads.map {Item Other : Type} [LT Item] [LT Other] {rename : Item → Other}
    {leading following : List Item} (leads : Leads leading following)
    (increasing : ∀ first ∈ leading, ∀ second ∈ following, first < second →
      rename first < rename second) : Leads (leading.map rename) (following.map rename) := by
  obtain ⟨first, isFirst, second, isSecond, less⟩ := leads
  refine ⟨rename first, ?_, rename second, ?_, ?_⟩
  · rw [List.head?_map, isFirst]
    rfl
  · rw [List.head?_map, isSecond]
    rfl
  · exact increasing first (List.mem_of_mem_head? isFirst) second
      (List.mem_of_mem_head? isSecond) less

theorem insert_number_perm (number : Nat) (numbers : List Nat) :
    (insertNumber number numbers).Perm (number :: numbers) := by
  induction numbers with
  | nil => exact .refl _
  | cons head rest induction =>
      unfold insertNumber
      split
      · exact (induction.cons head).trans (.swap number head rest)
      · exact .refl _

theorem insert_number_ascending {number : Nat} {numbers : List Nat}
    (ascending : numbers.Pairwise (· < ·)) (fresh : number ∉ numbers) :
    (insertNumber number numbers).Pairwise (· < ·) := by
  induction numbers with
  | nil => simp [insertNumber]
  | cons head rest induction =>
      obtain ⟨below, tail⟩ := List.pairwise_cons.mp ascending
      rw [List.mem_cons, not_or] at fresh
      obtain ⟨differs, freshRest⟩ := fresh
      unfold insertNumber
      split
      · next less =>
          refine List.pairwise_cons.mpr ⟨fun other member => ?_, induction tail freshRest⟩
          rcases List.mem_cons.mp ((insert_number_perm number rest).mem_iff.mp member) with
            same | later
          · exact same ▸ less
          · exact below other later
      · next notLess =>
          have less : number < head := by omega
          refine List.pairwise_cons.mpr ⟨fun other member => ?_, ascending⟩
          rcases List.mem_cons.mp member with same | later
          · exact same ▸ less
          · exact Nat.lt_trans less (below other later)

theorem insert_numbers_perm (added numbers : List Nat) :
    (added.foldr insertNumber numbers).Perm (added ++ numbers) := by
  induction added with
  | nil => exact .refl _
  | cons head rest induction =>
      exact (insert_number_perm head _).trans (induction.cons head)

theorem insert_numbers_ascending {added numbers : List Nat}
    (ascending : numbers.Pairwise (· < ·)) (addedAscending : added.Pairwise (· < ·))
    (disjoint : ∀ number ∈ added, number ∉ numbers) :
    (added.foldr insertNumber numbers).Pairwise (· < ·) := by
  induction added with
  | nil => exact ascending
  | cons head rest induction =>
      obtain ⟨below, tail⟩ := List.pairwise_cons.mp addedAscending
      have restDisjoint : ∀ number ∈ rest, number ∉ numbers :=
        fun number member => disjoint number (List.mem_cons_of_mem _ member)
      apply insert_number_ascending (induction tail restDisjoint)
      intro member
      rcases List.mem_append.mp ((insert_numbers_perm rest numbers).mem_iff.mp member) with
        inRest | inNumbers
      · exact Nat.lt_irrefl head (below head inRest)
      · exact disjoint head List.mem_cons_self inNumbers

theorem head_eq_least {numbers : List Nat} (ascending : numbers.Pairwise (· < ·)) {first : Nat}
    (member : first ∈ numbers) (least : ∀ number ∈ numbers, first ≤ number) :
    numbers.head? = some first := by
  cases numbers with
  | nil => exact absurd member List.not_mem_nil
  | cons head rest =>
      have headLeast := least head List.mem_cons_self
      rcases List.mem_cons.mp member with same | later
      · rw [same, List.head?_cons]
      · have above := List.rel_of_pairwise_cons ascending later
        omega

theorem least_of_head {numbers : List Nat} (ascending : numbers.Pairwise (· < ·)) {first : Nat}
    (isFirst : first ∈ numbers.head?) : ∀ number ∈ numbers, first ≤ number := by
  obtain ⟨rest, rfl⟩ := List.head?_eq_some_iff.mp isFirst
  intro number member
  rcases List.mem_cons.mp member with same | later
  · exact Nat.le_of_eq same.symm
  · exact Nat.le_of_lt (List.rel_of_pairwise_cons ascending later)

namespace Cluster

theorem joined_members_perm (left right : Cluster) :
    (left.joinedMembers right).Perm (left.members ++ right.members) :=
  (insert_numbers_perm right.members left.members).trans List.perm_append_comm

theorem mem_joined_members {left right : Cluster} {number : Nat} :
    number ∈ left.joinedMembers right ↔ number ∈ left.members ∨ number ∈ right.members := by
  rw [(joined_members_perm left right).mem_iff, List.mem_append]

theorem joined_members_ascending {left right : Cluster}
    (leftAscending : left.members.Pairwise (· < ·))
    (rightAscending : right.members.Pairwise (· < ·))
    (disjoint : ∀ number ∈ right.members, number ∉ left.members) :
    (left.joinedMembers right).Pairwise (· < ·) :=
  insert_numbers_ascending leftAscending rightAscending disjoint

theorem joined_members_head {left right : Cluster}
    (leftAscending : left.members.Pairwise (· < ·))
    (rightAscending : right.members.Pairwise (· < ·))
    (disjoint : ∀ number ∈ right.members, number ∉ left.members)
    (leads : Leads left.members right.members) :
    (left.joinedMembers right).head? = left.members.head? := by
  obtain ⟨first, isFirst, second, isSecond, less⟩ := leads
  have ascending := joined_members_ascending leftAscending rightAscending disjoint
  have member : first ∈ left.joinedMembers right :=
    mem_joined_members.mpr (.inl (List.mem_of_mem_head? isFirst))
  rw [isFirst]
  apply head_eq_least ascending member
  intro number joined
  rcases mem_joined_members.mp joined with inLeft | inRight
  · exact least_of_head leftAscending isFirst number inLeft
  · have above := least_of_head rightAscending isSecond number inRight
    omega

theorem place_between {cluster : Cluster} {before after : List Cluster}
    (leading : ∀ other ∈ before, Leads other.members cluster.members)
    (following : ∀ other ∈ after, Leads cluster.members other.members) :
    cluster.place (before ++ after) = before ++ cluster :: after := by
  induction before with
  | nil =>
      cases after with
      | nil => rfl
      | cons head rest =>
          have above := (following head List.mem_cons_self).lt
          have notBelow : ¬head.members < cluster.members := List.lt_asymm above
          simp [place, notBelow]
  | cons head rest induction =>
      have below := (leading head List.mem_cons_self).lt
      have placed := induction fun other member => leading other (List.mem_cons_of_mem _ member)
      simp [place, below, placed]

end Cluster

end Cohesion
