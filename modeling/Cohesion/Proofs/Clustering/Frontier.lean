import Mathlib.Data.Finset.Card
import Cohesion.Proofs.Clustering.Subtree

/-!
# The active nodes before a place

Before every place behind the leaves the active nodes of a dendrogram divide its classes among them.
Each joint takes the place of its two children, so there is one active node less after it.
-/

namespace Cohesion

variable {W : Type}

theorem Arena.not_is_child_of_active {arena : Arena W} {place id parent : Nat}
    (active : arena.ActiveBefore place id) (isChild : arena.IsChild id parent) :
    place ≤ parent := by
  by_contra earlier
  exact active.2 parent (Nat.lt_of_not_le earlier) isChild

theorem Arena.Joint.active_succ {arena : Arena W} {place left right : Nat} {coupling : W}
    (joint : arena.Joint place left right coupling) (id : Nat) :
    arena.ActiveBefore (place + 1) id ↔
      id = place ∨ arena.ActiveBefore place id ∧ id ≠ left ∧ id ≠ right := by
  have isChild : arena.IsChild id place ↔ id = left ∨ id = right :=
    Arena.is_child_merged joint.stored
  constructor
  · intro active
    rcases Nat.lt_succ_iff_lt_or_eq.mp active.1 with earlier | same
    · right
      have orphan : ¬arena.IsChild id place := active.2 place (Nat.lt_succ_self place)
      rw [isChild, not_or] at orphan
      exact ⟨⟨earlier, fun parent before => active.2 parent (Nat.lt_succ_of_lt before)⟩, orphan⟩
    · exact .inl same
  · intro either
    rcases either with same | ⟨active, notLeft, notRight⟩
    · rw [same]
      apply And.intro (Nat.lt_succ_self place)
      intro parent before child
      have later := child.lt
      omega
    · apply And.intro (Nat.lt_succ_of_lt active.1)
      intro parent before child
      have later := Arena.not_is_child_of_active active child
      have same : parent = place := by omega
      rw [same, isChild] at child
      exact child.elim notLeft notRight

namespace Dendrogram

def activeNodes (dendrogram : Dendrogram W) (place : Nat) : Finset Nat :=
  (Finset.range place).filter fun id => dendrogram.ActiveBefore place id

theorem mem_active_nodes {dendrogram : Dendrogram W} {place id : Nat} :
    id ∈ dendrogram.activeNodes place ↔ dendrogram.ActiveBefore place id := by
  rw [activeNodes, Finset.mem_filter, Finset.mem_range]
  exact and_iff_right_of_imp fun active => active.1

namespace Grown

variable {classes : NameSet} {dendrogram : Dendrogram W} (grown : dendrogram.Grown classes)

include grown

theorem active_at_leaves (id : Nat) :
    dendrogram.ActiveBefore classes.size id ↔ id < classes.size := by
  apply and_iff_left_of_imp
  intro bound parent isLeaf isChild
  exact absurd isChild (Arena.not_is_child_leaf (grown.leaf_at parent isLeaf))

/-- Active nodes with a class in common are the same node. -/
theorem active_unique {place first second : Nat} (bound : place ≤ dendrogram.nodes.size)
    (firstActive : dendrogram.ActiveBefore place first)
    (secondActive : dendrogram.ActiveBefore place second) {name : String}
    (inFirst : name ∈ dendrogram.classesAt first) (inSecond : name ∈ dendrogram.classesAt second) :
    first = second := by
  have firstBound := Nat.lt_of_lt_of_le firstActive.1 bound
  have secondBound := Nat.lt_of_lt_of_le secondActive.1 bound
  have notBelow : ∀ {top id}, dendrogram.ActiveBefore place top →
      dendrogram.ActiveBefore place id → dendrogram.Below top id → id = top := by
    intro top id topActive active below
    by_contra differs
    obtain ⟨parent, above, isChild⟩ := below.parent differs
    have later := Arena.not_is_child_of_active active isChild
    have earlier := above.le
    have topBefore := topActive.1
    omega
  rcases grown.below_or_below_of_shared firstBound secondBound inFirst inSecond with below | below
  · exact (notBelow firstActive secondActive below).symm
  · exact notBelow secondActive firstActive below

/-- Every class is in an active node, by induction along the places. -/
theorem exists_active {place : Nat} (behindLeaves : classes.size ≤ place)
    (bound : place ≤ dendrogram.nodes.size) {name : String} (listed : name ∈ classes) :
    ∃ id, dendrogram.ActiveBefore place id ∧ name ∈ dendrogram.classesAt id := by
  induction place, behindLeaves using Nat.le_induction with
  | base =>
      rw [NameSet.mem_iff, ← NameSet.map_name_at_range, List.mem_map] at listed
      rcases listed with ⟨number, inRange, rfl⟩
      have isLeaf := List.mem_range.mp inRange
      apply Exists.intro number
      apply And.intro ((grown.active_at_leaves number).mpr isLeaf)
      rw [Arena.classes_at_stored (grown.leaf_at number isLeaf)]
      exact NameSet.mem_singleton.mpr rfl
  | succ place behindLeaves induction =>
      obtain ⟨id, active, inside⟩ := induction (Nat.le_of_succ_le bound)
      obtain ⟨left, right, coupling, joint⟩ := grown.joint_at place behindLeaves bound
      by_cases isChild : id = left ∨ id = right
      · apply Exists.intro place
        apply And.intro ((joint.active_succ place).mpr (.inl rfl))
        rw [joint.classes_at, NameSet.mem_union]
        rcases isChild with same | same
        · exact .inl (same ▸ inside)
        · exact .inr (same ▸ inside)
      · rw [not_or] at isChild
        exact ⟨id, (joint.active_succ id).mpr (.inr ⟨active, isChild⟩), inside⟩

theorem card_active_nodes {place : Nat} (behindLeaves : classes.size ≤ place)
    (bound : place ≤ dendrogram.nodes.size) :
    (dendrogram.activeNodes place).card + place = 2 * classes.size := by
  induction place, behindLeaves using Nat.le_induction with
  | base =>
      have leaves : dendrogram.activeNodes classes.size = Finset.range classes.size := by
        ext id
        rw [mem_active_nodes, grown.active_at_leaves, Finset.mem_range]
      rw [leaves, Finset.card_range]
      omega
  | succ place behindLeaves induction =>
      have count := induction (Nat.le_of_succ_le bound)
      obtain ⟨left, right, coupling, joint⟩ := grown.joint_at place behindLeaves bound
      have differs : right ≠ left := by
        intro same
        have leads := joint.leads.lt
        rw [same] at leads
        exact List.lt_irrefl _ leads
      have next : dendrogram.activeNodes (place + 1) =
          insert place (((dendrogram.activeNodes place).erase left).erase right) := by
        ext id
        rw [mem_active_nodes, joint.active_succ, Finset.mem_insert, Finset.mem_erase,
          Finset.mem_erase, mem_active_nodes]
        tauto
      have absent : place ∉ ((dendrogram.activeNodes place).erase left).erase right := by
        intro member
        have active := Finset.mem_of_mem_erase (Finset.mem_of_mem_erase member)
        exact Nat.lt_irrefl _ (mem_active_nodes.mp active).1
      have leftMember := mem_active_nodes.mpr joint.left_active
      have rightMember := Finset.mem_erase.mpr ⟨differs, mem_active_nodes.mpr joint.right_active⟩
      have withoutLeft := Finset.card_erase_add_one leftMember
      have withoutBoth := Finset.card_erase_add_one rightMember
      rw [next, Finset.card_insert_of_notMem absent]
      omega

end Grown

end Dendrogram

end Cohesion
