import Mathlib.Algebra.BigOperators.Group.Finset.Basic
import Cohesion.Proofs.Clustering.Greedy
import Cohesion.Proofs.Clustering.Subtree

/-!
# The merges of a dendrogram

The merged nodes are listed in the order of their creation, which is the order of the rounds. Those
at or below a joint are the joint itself with those below its left and its right child, and no node
is below both.
-/

namespace Cohesion

variable {W : Type}

/-- The coupling at which a node was joined, zero for a leaf. -/
def Arena.couplingAt [Weight W] (arena : Arena W) (id : Nat) : W :=
  match arena.nodes[id]? with
  | some (.merged _ _ coupling _) => coupling
  | _ => Weight.zero

theorem Arena.coupling_at_merged [Weight W] {arena : Arena W} {id left right : Nat} {coupling : W}
    {classes : NameSet} (stored : arena.nodes[id]? = some (.merged left right coupling classes)) :
    arena.couplingAt id = coupling := by
  rw [couplingAt, stored]

namespace Dendrogram

theorem mem_merges {dendrogram : Dendrogram W} {id : Nat} :
    id ∈ dendrogram.merges ↔
      ∃ node, dendrogram.nodes[id]? = some node ∧ node.isLeaf = false := by
  simp only [merges, List.mem_map, List.mem_filter, Prod.exists, List.mem_zipIdx_iff_getElem?,
    Array.getElem?_toList, Bool.not_eq_true']
  constructor
  · intro ⟨node, place, ⟨stored, merged⟩, same⟩
    exact ⟨node, same ▸ stored, merged⟩
  · intro ⟨node, stored, merged⟩
    exact ⟨node, id, ⟨stored, merged⟩, rfl⟩

def mergesBelow (dendrogram : Dendrogram W) (top : Nat) : Finset Nat :=
  dendrogram.merges.toFinset.filter fun id => dendrogram.Below top id

theorem mem_merges_below {dendrogram : Dendrogram W} {top id : Nat} :
    id ∈ dendrogram.mergesBelow top ↔ id ∈ dendrogram.merges ∧ dendrogram.Below top id := by
  rw [mergesBelow, Finset.mem_filter, List.mem_toFinset]

namespace Grown

variable {classes : NameSet} {dendrogram : Dendrogram W} (grown : dendrogram.Grown classes)

include grown

theorem mem_merges_iff {id : Nat} :
    id ∈ dendrogram.merges ↔ classes.size ≤ id ∧ id < dendrogram.nodes.size := by
  rw [mem_merges]
  constructor
  · intro ⟨node, stored, merged⟩
    have bound := Arena.lt_of_stored stored
    apply And.intro _ bound
    by_contra isLeaf
    rw [grown.leaf_at id (Nat.lt_of_not_le isLeaf)] at stored
    cases stored
    contradiction
  · intro ⟨behindLeaves, bound⟩
    obtain ⟨left, right, coupling, joint⟩ := grown.joint_at id behindLeaves bound
    exact ⟨_, joint.stored, rfl⟩

/-- The merges are the nodes behind the leaves, one for each round. -/
theorem merges_eq : dendrogram.merges = List.range' classes.size (classes.size - 1) := by
  have ascending : dendrogram.merges.Pairwise (· < ·) := by
    have places : (dendrogram.nodes.toList.zipIdx.map Prod.snd).Pairwise (· < ·) := by
      rw [List.zipIdx_map_snd]
      exact List.pairwise_lt_range'
    exact places.sublist (List.filter_sublist.map Prod.snd)
  apply ascending.eq_of_mem_iff List.pairwise_lt_range'
  intro id
  have count := grown.count
  rw [grown.mem_merges_iff, List.mem_range'_1]
  omega

theorem below_root {id : Nat} (bound : id < dendrogram.nodes.size) :
    dendrogram.Below dendrogram.root id := by
  by_cases isRoot : id = dendrogram.root
  · rw [isRoot]
    exact .top
  · obtain ⟨parent, isChild⟩ := grown.exists_parent bound isRoot
    have later := isChild.lt
    have parentBound := isChild.parent_lt
    exact (below_root parentBound).child isChild
termination_by dendrogram.nodes.size - id

theorem mem_classes_of_node {id : Nat} (bound : id < dendrogram.nodes.size) {name : String}
    (inside : name ∈ dendrogram.classesAt id) : name ∈ classes := by
  rw [← grown.root_classes]
  exact grown.mem_classes_of_below dendrogram.root_lt (grown.below_root bound) inside

theorem merges_below_leaf {top : Nat} {name : String}
    (stored : dendrogram.nodes[top]? = some (.leaf name)) : dendrogram.mergesBelow top = ∅ := by
  ext id
  rw [mem_merges_below, Arena.below_leaf stored, grown.mem_merges_iff]
  simp only [Finset.notMem_empty, iff_false]
  intro ⟨⟨behindLeaves, _⟩, same⟩
  have isLeaf := (grown.leaf_cases stored).1
  omega

section Joint

variable {top left right : Nat} {coupling : W} (bound : top < dendrogram.nodes.size)
  (joint : dendrogram.Joint top left right coupling)

include joint

theorem merges_below_joint (bound : top < dendrogram.nodes.size) : dendrogram.mergesBelow top =
    insert top (dendrogram.mergesBelow left ∪ dendrogram.mergesBelow right) := by
  ext id
  rw [Finset.mem_insert, Finset.mem_union, mem_merges_below, mem_merges_below, mem_merges_below,
    Arena.below_merged joint.stored]
  have isMerge : id = top → id ∈ dendrogram.merges := by
    intro same
    rw [same, grown.mem_merges_iff]
    exact ⟨grown.behind_leaves joint.stored, bound⟩
  tauto

include bound

/-- The coupling of a joint comes on top of the couplings below its two children. -/
theorem sum_merges_below {Amount : Type} [AddCommMonoid Amount] (amount : Nat → Amount) :
    ∑ id ∈ dendrogram.mergesBelow top, amount id =
      amount top + (∑ id ∈ dendrogram.mergesBelow left, amount id +
        ∑ id ∈ dendrogram.mergesBelow right, amount id) := by
  have leftBelow := joint.left_active.1
  have rightBelow := joint.right_active.1
  have apart : Disjoint (dendrogram.mergesBelow left) (dendrogram.mergesBelow right) := by
    rw [Finset.disjoint_left]
    intro id inLeft inRight
    exact grown.not_below_right bound joint (mem_merges_below.mp inLeft).2
      (mem_merges_below.mp inRight).2
  have above : top ∉ dendrogram.mergesBelow left ∪ dendrogram.mergesBelow right := by
    rw [Finset.mem_union, mem_merges_below, mem_merges_below]
    intro again
    rcases again with ⟨_, below⟩ | ⟨_, below⟩
    · exact Nat.not_le_of_lt leftBelow below.le
    · exact Nat.not_le_of_lt rightBelow below.le
  rw [grown.merges_below_joint joint bound, Finset.sum_insert above, Finset.sum_union apart]

end Joint

end Grown

end Dendrogram

end Cohesion
