import Cohesion.Proofs.Clustering.Run
import Cohesion.Proofs.Coupling.Counts
import Cohesion.Proofs.Coupling.Sums

/-!
# Clustering the classes of a call graph

A call graph has something to cluster as soon as one relation crosses a class boundary: then there
are two classes at least. With exact weights all pairs of classes have an affinity of one together.
-/

namespace Cohesion.CouplingGraph

variable {separator : Separator} {calls : CallGraph}

section AnyWeights

variable {W : Type} [Weight W] (weigh : Nat → W)

theorem cluster_weighed_eq_none_iff : (weighed weigh separator calls).cluster? = none ↔
    (calls.crossingRelations separator).card = 0 := by
  rw [cluster_eq_none_iff_empty, classes_weighed_eq_empty]

theorem weighed_clusters (crossing : 0 < (calls.crossingRelations separator).card) :
    ∃ dendrogram, (weighed weigh separator calls).cluster? = some dendrogram := by
  apply exists_dendrogram
  rw [Ne, classes_weighed_eq_empty]
  omega

omit [Weight W] in
theorem two_le_classes_weighed (crossing : 0 < (calls.crossingRelations separator).card) :
    2 ≤ (weighed weigh separator calls).classes.size := by
  obtain ⟨relation, member⟩ := Finset.card_pos.mp crossing
  have pair : ({separator.classOf relation.1, separator.classOf relation.2} : Finset String) ⊆
      (weighed weigh separator calls).classes.names.toFinset := by
    intro name isEnd
    rw [Finset.mem_insert, Finset.mem_singleton] at isEnd
    exact List.mem_toFinset.mpr ((mem_classes_weighed weigh).mpr ⟨relation, member, isEnd⟩)
  calc 2 = ({separator.classOf relation.1, separator.classOf relation.2} : Finset String).card :=
        (Finset.card_pair (CallGraph.ends_differ member)).symm
    _ ≤ (weighed weigh separator calls).classes.names.toFinset.card := Finset.card_le_card pair
    _ ≤ (weighed weigh separator calls).classes.size := List.toFinset_card_le _

end AnyWeights

variable (separator calls) in
theorem is_empty_of_calls {W : Type} [Weight W] :
    (ofCalls separator calls : CouplingGraph W).isEmpty = true ↔
      (calls.crossingRelations separator).card = 0 := by
  rw [isEmpty, edge_count_eq, beq_iff_eq, List.length_eq_zero_iff, of_calls_eq_weighed,
    edges_weighed_eq_nil]

/-- Exact shares add up to one over the pairs of classes. -/
theorem inner_of_calls (crossing : 0 < (calls.crossingRelations separator).card) :
    (Affinity.ofGraph (ofCalls separator calls : CouplingGraph Rat)).inner
      (ofCalls separator calls : CouplingGraph Rat).classes = 1 := by
  have proper : (ofCalls separator calls : CouplingGraph Rat).properEdges =
      (ofCalls separator calls).edges := by
    apply List.filter_eq_self.mpr
    intro edge member
    exact bne_iff_ne.mpr (counts_relations.no_loop edge member)
  rw [inner_classes, proper, ← weight_sum_eq]
  exact exact_shares.total_weight crossing

end Cohesion.CouplingGraph
