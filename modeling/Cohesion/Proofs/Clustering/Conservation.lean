import Cohesion.Proofs.Clustering.Crossings
import Cohesion.Proofs.Clustering.Merges

/-!
# Coupling is conserved in the tree

Every pair of classes below a node is parted by exactly one merge at or below it. With exact weights
the couplings of these merges are therefore together what the classes of the node have inside, and
at the root they are the weights of all edges that are not loops.
-/

namespace Cohesion

theorem Affinity.inner_singleton (affinity : Affinity Rat) (name : String) :
    affinity.inner (NameSet.singleton name) = 0 := rfl

section Clustered

variable {graph : CouplingGraph Rat} {dendrogram : Dendrogram Rat}
  (clustered : graph.cluster? = some dendrogram)

include clustered

/-- By induction along the children: a joint has inside what its two children have, and the coupling
between them, at which it was made. -/
theorem inner_eq_merges {id : Nat} (bound : id < dendrogram.nodes.size) :
    (Affinity.ofGraph graph).inner (dendrogram.classesAt id) =
      ∑ merge ∈ dendrogram.mergesBelow id, dendrogram.couplingAt merge := by
  have grown := cluster_grown clustered
  induction id using Nat.strongRecOn with
  | ind id induction =>
      rcases grown.node_cases bound with ⟨_, leaf⟩ | ⟨left, right, coupling, joint⟩
      · rw [grown.merges_below_leaf leaf, Finset.sum_empty, Arena.classes_at_stored leaf]
        exact Affinity.inner_singleton _ _
      · have leftBelow := joint.left_active.1
        have rightBelow := joint.right_active.1
        have leftEq := induction left leftBelow (Nat.lt_trans leftBelow bound)
        have rightEq := induction right rightBelow (Nat.lt_trans rightBelow bound)
        have between : dendrogram.couplingAt id = (Affinity.ofGraph graph).between
            (dendrogram.classesAt left) (dendrogram.classesAt right) := by
          rw [Arena.coupling_at_merged joint.stored, coupling_of_merged clustered joint.stored]
          rfl
        rw [Affinity.inner_of_parts graph joint.names_perm, leftEq, rightEq, ← between,
          grown.sum_merges_below bound joint, add_comm]

theorem merges_eq_proper_edges :
    ∑ merge ∈ dendrogram.mergesBelow dendrogram.root, dendrogram.couplingAt merge =
      (graph.properEdges.map Edge.weight).sum := by
  rw [← inner_eq_merges clustered dendrogram.root_lt, (cluster_grown clustered).root_classes]
  exact CouplingGraph.inner_classes graph

end Clustered

/-- The mean affinity in a node times the number of its pairs of classes is what the merges at or
below it couple, and the merges below the root couple all that joins different classes. -/
structure Dendrogram.Conserves (graph : CouplingGraph Rat) (dendrogram : Dendrogram Rat) :
    Prop where
  inside : ∀ id < dendrogram.nodeCount, 2 ≤ (dendrogram.classesAt id).size →
    ∃ average, (Affinity.ofGraph graph).average? (dendrogram.classesAt id) = some average ∧
      average * ((dendrogram.classesAt id).size * ((dendrogram.classesAt id).size - 1) / 2) =
        ∑ merge ∈ dendrogram.mergesBelow id, dendrogram.couplingAt merge
  all_below : dendrogram.mergesBelow dendrogram.root = dendrogram.merges.toFinset
  whole : ∑ merge ∈ dendrogram.mergesBelow dendrogram.root, dendrogram.couplingAt merge =
    (graph.properEdges.map Edge.weight).sum

/-- Exact coupling is conserved in every dendrogram, and for a call graph that has any coupling all
merges together couple exactly one. -/
theorem coupling_is_conserved :
    (∀ graph : CouplingGraph Rat, graph.classes ≠ ∅ →
      ∃ dendrogram, graph.cluster? = some dendrogram ∧ dendrogram.Conserves graph) ∧
    ∀ (separator : Separator) (calls : CallGraph),
      (CouplingGraph.ofCalls separator calls : CouplingGraph Rat).isEmpty = false →
      ∃ dendrogram, (CouplingGraph.ofCalls separator calls).cluster? = some dendrogram ∧
        ∑ merge ∈ dendrogram.mergesBelow dendrogram.root, dendrogram.couplingAt merge =
          (1 : Rat) := by
  constructor
  · intro graph nonempty
    obtain ⟨dendrogram, clustered⟩ := CouplingGraph.exists_dendrogram nonempty
    have grown := cluster_grown clustered
    apply Exists.intro dendrogram
    apply And.intro clustered
    constructor
    case inside =>
      intro id bound several
      have average := Affinity.average_eq (Affinity.ofGraph graph) several
      have some_pair := lt_of_lt_of_le zero_lt_one (Affinity.one_le_pair_count several)
      apply Exists.intro
      apply And.intro average
      rw [div_mul_cancel₀ _ some_pair.ne', inner_eq_merges clustered bound]
    case all_below =>
      ext id
      rw [Dendrogram.mem_merges_below, List.mem_toFinset]
      apply and_iff_left_of_imp
      intro isMerge
      exact grown.below_root (grown.mem_merges_iff.mp isMerge).2
    case whole => exact merges_eq_proper_edges clustered
  · intro separator calls nonempty
    have crossing : 0 < (calls.crossingRelations separator).card := by
      by_contra none_crosses
      have empty := (CouplingGraph.is_empty_of_calls (W := Rat) separator calls).mpr (by omega)
      rw [nonempty] at empty
      contradiction
    obtain ⟨dendrogram, clustered⟩ := CouplingGraph.weighed_clusters
      (Weight.share (W := Rat) (calls.crossingRelations separator).card) crossing
    rw [← CouplingGraph.of_calls_eq_weighed] at clustered
    apply Exists.intro dendrogram
    apply And.intro clustered
    rw [← inner_eq_merges clustered dendrogram.root_lt, (cluster_grown clustered).root_classes]
    exact CouplingGraph.inner_of_calls crossing

/-- Three classes with edges in both directions, one of a negative weight, and a loop. -/
def signedRing : CouplingGraph Rat :=
  .ofEdges [⟨"a", "b", 1 / 2⟩, ⟨"b", "a", 1 / 4⟩, ⟨"b", "c", 1 / 3⟩, ⟨"c", "a", -1 / 6⟩,
    ⟨"c", "c", 5⟩]

theorem signed_ring_is_conserved :
    (∃ dendrogram, signedRing.cluster? = some dendrogram ∧ dendrogram.Conserves signedRing ∧
      ∑ merge ∈ dendrogram.mergesBelow 4, dendrogram.couplingAt merge = (11 / 12 : Rat)) ∧
    ∃ dendrogram, (CouplingGraph.ofCalls .standard twoEqualPairs).cluster? = some dendrogram ∧
      ∑ merge ∈ dendrogram.mergesBelow dendrogram.root, dendrogram.couplingAt merge =
        (1 : Rat) := by
  obtain ⟨dendrogram, clustered, conserves⟩ :=
    coupling_is_conserved.1 signedRing (by decide +kernel)
  have root : signedRing.cluster?.map Dendrogram.root = some 4 := by decide +kernel
  rw [clustered, Option.map_some, Option.some.injEq] at root
  have whole := conserves.whole
  have edges : (signedRing.properEdges.map Edge.weight).sum = 11 / 12 := by decide +kernel
  rw [root, edges] at whole
  exact ⟨⟨dendrogram, clustered, conserves, whole⟩,
    coupling_is_conserved.2 .standard twoEqualPairs (by decide +kernel)⟩

end Cohesion
