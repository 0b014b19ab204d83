import Mathlib.Data.List.Perm.Subperm
import Cohesion.Proofs.Clustering.Shape

/-!
# What is below a node

The classes of a joint are those of its two children and each child has some, so a node with a
number of classes has twice as many nodes below it, itself included, less one.
-/

namespace Cohesion

variable {W : Type}

namespace Arena.Joint

variable {arena : Arena W} {id left right : Nat} {coupling : W}

theorem classes_at (joint : arena.Joint id left right coupling) :
    arena.classesAt id = (arena.classesAt left).union (arena.classesAt right) :=
  classes_at_stored joint.stored

theorem names_perm (joint : arena.Joint id left right coupling) :
    (arena.classesAt id).names.Perm
      ((arena.classesAt left).names ++ (arena.classesAt right).names) := by
  rw [joint.classes_at]
  exact NameSet.union_names_perm joint.disjoint

theorem size_eq (joint : arena.Joint id left right coupling) :
    (arena.classesAt id).size = (arena.classesAt left).size + (arena.classesAt right).size := by
  simpa [NameSet.size] using joint.names_perm.length_eq

end Arena.Joint

namespace Dendrogram.Grown

variable {classes : NameSet} {dendrogram : Dendrogram W} (grown : dendrogram.Grown classes)

include grown

theorem size_pos {id : Nat} (bound : id < dendrogram.nodes.size) :
    0 < (dendrogram.classesAt id).size := by
  induction id using Nat.strongRecOn with
  | ind id induction =>
      rcases grown.node_cases bound with ⟨_, leaf⟩ | ⟨left, right, coupling, joint⟩
      · rw [Arena.classes_at_stored leaf]
        exact Nat.one_pos
      · have leftBelow := joint.left_active.1
        have leftPositive := induction left leftBelow (Nat.lt_trans leftBelow bound)
        rw [joint.size_eq]
        omega

theorem exists_class {id : Nat} (bound : id < dendrogram.nodes.size) :
    ∃ name, name ∈ dendrogram.classesAt id :=
  List.exists_mem_of_length_pos (grown.size_pos bound)

theorem two_le_size {id left right : Nat} {coupling : W} (bound : id < dendrogram.nodes.size)
    (joint : dendrogram.Joint id left right coupling) : 2 ≤ (dendrogram.classesAt id).size := by
  have leftPositive := grown.size_pos (Nat.lt_trans joint.left_active.1 bound)
  have rightPositive := grown.size_pos (Nat.lt_trans joint.right_active.1 bound)
  rw [joint.size_eq]
  omega

omit grown in
theorem lt_of_below {top id : Nat} (bound : top < dendrogram.nodes.size)
    (below : dendrogram.Below top id) : id < dendrogram.nodes.size :=
  Nat.lt_of_le_of_lt below.le bound

theorem mem_classes_of_below {top id : Nat} (bound : top < dendrogram.nodes.size)
    (below : dendrogram.Below top id) {name : String} (member : name ∈ dendrogram.classesAt id) :
    name ∈ dendrogram.classesAt top := by
  obtain ⟨leaf, reached, stored⟩ := (grown.mem_classes_at (lt_of_below bound below)).mp member
  exact (grown.mem_classes_at bound).mpr ⟨leaf, below.trans reached, stored⟩

theorem not_below_right {top left right id : Nat} {coupling : W}
    (bound : top < dendrogram.nodes.size) (joint : dendrogram.Joint top left right coupling)
    (belowLeft : dendrogram.Below left id) : ¬dendrogram.Below right id := by
  intro belowRight
  have leftBound := Nat.lt_trans joint.left_active.1 bound
  have rightBound := Nat.lt_trans joint.right_active.1 bound
  obtain ⟨name, member⟩ := grown.exists_class (lt_of_below leftBound belowLeft)
  exact joint.disjoint name (grown.mem_classes_of_below leftBound belowLeft member)
    (grown.mem_classes_of_below rightBound belowRight member)

theorem exists_nodes_below {top : Nat} (bound : top < dendrogram.nodes.size) :
    ∃ places : List Nat, places.Nodup ∧ (∀ id, id ∈ places ↔ dendrogram.Below top id) ∧
      places.length + 1 = 2 * (dendrogram.classesAt top).size := by
  induction top using Nat.strongRecOn with
  | ind top induction =>
      rcases grown.node_cases bound with ⟨_, leaf⟩ | ⟨left, right, coupling, joint⟩
      · refine ⟨[top], List.pairwise_singleton _ _, fun id => ?_, ?_⟩
        · rw [List.mem_singleton, Arena.below_leaf leaf]
        · rw [Arena.classes_at_stored leaf]
          rfl
      · have leftBelow := joint.left_active.1
        have rightBelow := joint.right_active.1
        obtain ⟨lefts, leftNodup, leftMember, leftCount⟩ :=
          induction left leftBelow (Nat.lt_trans leftBelow bound)
        obtain ⟨rights, rightNodup, rightMember, rightCount⟩ :=
          induction right rightBelow (Nat.lt_trans rightBelow bound)
        have member : ∀ id, id ∈ top :: (lefts ++ rights) ↔ dendrogram.Below top id := by
          intro id
          rw [List.mem_cons, List.mem_append, leftMember, rightMember,
            Arena.below_merged joint.stored]
        refine ⟨top :: (lefts ++ rights), ?_, member, ?_⟩
        · refine List.nodup_cons.mpr ⟨fun again => ?_,
            List.nodup_append.mpr ⟨leftNodup, rightNodup, ?_⟩⟩
          · rw [List.mem_append, leftMember, rightMember] at again
            rcases again with inLeft | inRight
            · exact Nat.not_le_of_lt leftBelow inLeft.le
            · exact Nat.not_le_of_lt rightBelow inRight.le
          · rintro id inLeft _ inRight rfl
            exact grown.not_below_right bound joint ((leftMember id).mp inLeft)
              ((rightMember id).mp inRight)
        · rw [List.length_cons, List.length_append, joint.size_eq]
          omega

theorem size_le_of_below {top id : Nat} (bound : top < dendrogram.nodes.size)
    (below : dendrogram.Below top id) :
    (dendrogram.classesAt id).size ≤ (dendrogram.classesAt top).size := by
  have inside : (dendrogram.classesAt id).names ⊆ (dendrogram.classesAt top).names :=
    fun _ member => grown.mem_classes_of_below bound below member
  exact ((NameSet.names_nodup _).subperm inside).length_le

theorem size_lt_of_below {top id : Nat} (bound : top < dendrogram.nodes.size)
    (below : dendrogram.Below top id) (differs : id ≠ top) :
    (dendrogram.classesAt id).size < (dendrogram.classesAt top).size := by
  obtain ⟨parent, parentBelow, isChild⟩ := below.parent differs
  apply Nat.lt_of_lt_of_le _ (grown.size_le_of_below bound parentBelow)
  rcases grown.node_cases isChild.parent_lt with ⟨_, leaf⟩ | ⟨left, right, coupling, joint⟩
  · exact absurd isChild (Arena.not_is_child_leaf leaf)
  · have leftPositive := grown.size_pos (Nat.lt_trans joint.left_active.1 isChild.parent_lt)
    have rightPositive := grown.size_pos (Nat.lt_trans joint.right_active.1 isChild.parent_lt)
    rw [joint.size_eq]
    rcases (Arena.is_child_merged joint.stored).mp isChild with same | same
    · rw [same]
      omega
    · rw [same]
      omega

/-- Of two nodes above a third one, one is above the other. -/
theorem below_or_below {first second id : Nat} (firstAbove : dendrogram.Below first id)
    (secondAbove : dendrogram.Below second id) :
    dendrogram.Below first second ∨ dendrogram.Below second first := by
  induction firstAbove with
  | top => exact .inr secondAbove
  | @child parent child above isChild induction =>
      by_cases isSecond : child = second
      · exact .inl (isSecond ▸ above.child isChild)
      · obtain ⟨other, otherAbove, otherChild⟩ := secondAbove.parent isSecond
        rw [grown.parent_unique otherChild isChild] at otherAbove
        exact induction otherAbove

theorem below_or_below_of_shared {first second : Nat} (firstBound : first < dendrogram.nodes.size)
    (secondBound : second < dendrogram.nodes.size) {name : String}
    (inFirst : name ∈ dendrogram.classesAt first) (inSecond : name ∈ dendrogram.classesAt second) :
    dendrogram.Below first second ∨ dendrogram.Below second first := by
  obtain ⟨leaf, firstAbove, stored⟩ := (grown.mem_classes_at firstBound).mp inFirst
  obtain ⟨other, secondAbove, otherStored⟩ := (grown.mem_classes_at secondBound).mp inSecond
  obtain ⟨isLeaf, named⟩ := grown.leaf_cases stored
  obtain ⟨isOther, otherNamed⟩ := grown.leaf_cases otherStored
  rw [NameSet.name_at_injective isOther isLeaf (otherNamed.symm.trans named)] at secondAbove
  exact grown.below_or_below firstAbove secondAbove

theorem classes_at_injective {first second : Nat} (firstBound : first < dendrogram.nodes.size)
    (secondBound : second < dendrogram.nodes.size)
    (same : dendrogram.classesAt first = dendrogram.classesAt second) : first = second := by
  by_contra differs
  obtain ⟨name, inFirst⟩ := grown.exists_class firstBound
  have inSecond : name ∈ dendrogram.classesAt second := same ▸ inFirst
  rcases grown.below_or_below_of_shared firstBound secondBound inFirst inSecond with below | below
  · have fewer := grown.size_lt_of_below firstBound below (Ne.symm differs)
    rw [same] at fewer
    exact Nat.lt_irrefl _ fewer
  · have fewer := grown.size_lt_of_below secondBound below differs
    rw [same] at fewer
    exact Nat.lt_irrefl _ fewer

end Dendrogram.Grown

/-- The places of the nodes below a node, in ascending order: its leaves in the order of their
names, then its joints in the order of their creation. -/
structure Dendrogram.Enumerates (classes : NameSet) (dendrogram : Dendrogram W) (top : Nat)
    (place : Nat → Nat) : Prop where
  ascending : ∀ first second, first < second →
    second + 1 < 2 * (dendrogram.classesAt top).size → place first < place second
  onto : ∀ id, dendrogram.Below top id ↔
    ∃ number, number + 1 < 2 * (dendrogram.classesAt top).size ∧ place number = id
  leaf_at : ∀ number < (dendrogram.classesAt top).size,
    dendrogram.nodes[place number]? = some (.leaf ((dendrogram.classesAt top).nameAt number))
  joint_at : ∀ number, (dendrogram.classesAt top).size ≤ number →
    number + 1 < 2 * (dendrogram.classesAt top).size → classes.size ≤ place number

namespace Dendrogram.Grown

variable {classes : NameSet} {dendrogram : Dendrogram W} (grown : dendrogram.Grown classes)

include grown

theorem leaf_names {top : Nat} (bound : top < dendrogram.nodes.size) {leaves : List Nat}
    (ascending : leaves.Pairwise (· < ·))
    (member : ∀ id, id ∈ leaves ↔ id < classes.size ∧ dendrogram.Below top id) :
    (dendrogram.classesAt top).names = leaves.map classes.nameAt := by
  have bounded : ∀ id ∈ leaves, id < classes.size := fun id inside => ((member id).mp inside).1
  apply NameSet.names_eq_of_ascending (NameSet.map_name_at_ascending ascending bounded)
  intro name
  rw [grown.mem_classes_at bound, List.mem_map]
  constructor
  · rintro ⟨leaf, below, stored⟩
    obtain ⟨isLeaf, named⟩ := grown.leaf_cases stored
    exact ⟨leaf, (member leaf).mpr ⟨isLeaf, below⟩, named.symm⟩
  · rintro ⟨leaf, inside, rfl⟩
    obtain ⟨isLeaf, below⟩ := (member leaf).mp inside
    exact ⟨leaf, below, grown.leaf_at leaf isLeaf⟩

theorem length_below {top : Nat} (bound : top < dendrogram.nodes.size) {nodes : List Nat}
    (ascending : nodes.Pairwise (· < ·)) (member : ∀ id, id ∈ nodes ↔ dendrogram.Below top id) :
    nodes.length + 1 = 2 * (dendrogram.classesAt top).size := by
  obtain ⟨places, distinct, placed, counted⟩ := grown.exists_nodes_below bound
  have sameNodes : nodes.Perm places := by
    apply (List.perm_ext_iff_of_nodup (ascending.imp Nat.ne_of_lt) distinct).mpr
    intro id
    exact (member id).trans (placed id).symm
  rw [sameNodes.length_eq, counted]

omit grown in
theorem exists_ascending_below {top : Nat} (bound : top < dendrogram.nodes.size) (limit : Nat) :
    ∃ leaves later : List Nat, (leaves ++ later).Pairwise (· < ·) ∧
      (∀ id, id ∈ leaves ↔ id < limit ∧ dendrogram.Below top id) ∧
      ∀ id, id ∈ later ↔ limit ≤ id ∧ dendrogram.Below top id := by
  have leafMember : ∀ id, id ∈ (List.range limit).filter
      (fun id => decide (dendrogram.Below top id)) ↔
        id < limit ∧ dendrogram.Below top id := by
    intro id
    rw [List.mem_filter, List.mem_range, decide_eq_true_eq]
  have laterMember : ∀ id, id ∈ (List.range dendrogram.nodes.size).filter
      (fun id => decide (limit ≤ id ∧ dendrogram.Below top id)) ↔
        limit ≤ id ∧ dendrogram.Below top id := by
    intro id
    rw [List.mem_filter, List.mem_range, decide_eq_true_eq]
    exact and_iff_right_of_imp fun both => lt_of_below bound both.2
  refine ⟨_, _, List.pairwise_append.mpr ⟨?_, ?_, ?_⟩, leafMember, laterMember⟩
  · exact List.pairwise_lt_range.sublist List.filter_sublist
  · exact List.pairwise_lt_range.sublist List.filter_sublist
  · intro leaf isLeaf other isLater
    exact Nat.lt_of_lt_of_le ((leafMember leaf).mp isLeaf).1 ((laterMember other).mp isLater).1

theorem exists_enumeration {top : Nat} (bound : top < dendrogram.nodes.size) :
    ∃ place, dendrogram.Enumerates classes top place := by
  obtain ⟨leaves, later, ascending, leafMember, laterMember⟩ :=
    exists_ascending_below bound classes.size
  have member : ∀ id, id ∈ leaves ++ later ↔ dendrogram.Below top id := by
    intro id
    rw [List.mem_append, leafMember, laterMember, ← or_and_right]
    exact and_iff_right (Nat.lt_or_ge id classes.size)
  have names := grown.leaf_names bound (List.pairwise_append.mp ascending).1 leafMember
  have leafCount : leaves.length = (dendrogram.classesAt top).size := by
    rw [NameSet.size, names, List.length_map]
  have nodeCount := grown.length_below bound ascending member
  have found : ∀ number (small : number < (leaves ++ later).length),
      (leaves ++ later).getD number 0 = (leaves ++ later)[number] := by
    intro number small
    rw [List.getD_eq_getElem?_getD, List.getElem?_eq_getElem small]
    rfl
  refine ⟨fun number => (leaves ++ later).getD number 0, ?_, ?_, ?_, ?_⟩
  · intro first second less small
    rw [found first (by omega), found second (by omega)]
    exact List.pairwise_iff_getElem.mp ascending first second _ _ less
  · intro id
    rw [← member, List.mem_iff_getElem]
    constructor
    · rintro ⟨number, inside, same⟩
      exact ⟨number, by omega, (found number inside).trans same⟩
    · rintro ⟨number, small, same⟩
      exact ⟨number, by omega, (found number (by omega)).symm.trans same⟩
  · intro number small
    have isLeaf : number < leaves.length := by omega
    have bounded := ((leafMember _).mp (List.getElem_mem isLeaf)).1
    rw [found number (by omega), List.getElem_append_left isLeaf, grown.leaf_at _ bounded,
      NameSet.name_at_eq small]
    simp only [names, List.getElem_map]
  · intro number large small
    have notLeaf : leaves.length ≤ number := by omega
    have inLater : number - leaves.length < later.length := by
      rw [List.length_append] at nodeCount
      omega
    rw [found number (by omega), List.getElem_append_right notLeaf]
    exact ((laterMember _).mp (List.getElem_mem inLater)).1

end Dendrogram.Grown

end Cohesion
