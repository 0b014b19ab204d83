import Mathlib.Data.String.Basic
import Cohesion.Proofs.Coupling.Sums

/-!
# The two directions of a pair

Different classes are joined by one edge in each direction at most. Their affinity starts from zero
and adds first the edge from the smaller class and then the one to it; with exact weights it is the
sum of both.
-/

namespace Cohesion.CouplingGraph

section AnyWeights

variable {W : Type} (graph : CouplingGraph W) {first second : String} (less : first < second)

include less

theorem joining_edges :
    (graph.edges.filter fun edge => decide (Affinity.Joining first second edge)) =
      (graph.weight? first second).toList.map (Edge.mk first second) ++
        (graph.weight? second first).toList.map (Edge.mk second first) := by
  have single : ∀ (held : Option W) (source target : String),
      (held.toList.map (Edge.mk source target)).Pairwise EdgeBefore := by
    intro held source target
    cases held <;> simp
  apply ((edges_ordered graph).sublist List.filter_sublist).eq_of_mem_iff
  · rw [List.pairwise_append]
    refine ⟨single _ _ _, single _ _ _, fun forward isForward backward isBackward => ?_⟩
    obtain ⟨_, _, rfl⟩ := List.mem_map.mp isForward
    obtain ⟨_, _, rfl⟩ := List.mem_map.mp isBackward
    exact .inl less
  · intro edge
    obtain ⟨source, target, weight⟩ := edge
    simp only [List.mem_filter, mem_edges_iff, decide_eq_true_eq, List.mem_append, List.mem_map,
      Option.mem_toList, Edge.mk.injEq]
    constructor
    · rintro ⟨held, ⟨rfl, rfl⟩ | ⟨rfl, rfl⟩⟩
      · exact .inl ⟨weight, held, rfl, rfl, rfl⟩
      · exact .inr ⟨weight, held, rfl, rfl, rfl⟩
    · rintro (⟨_, held, rfl, rfl, rfl⟩ | ⟨_, held, rfl, rfl, rfl⟩)
      · exact ⟨held, .inl ⟨rfl, rfl⟩⟩
      · exact ⟨held, .inr ⟨rfl, rfl⟩⟩

theorem affinity_of_pair [Weight W] : (Affinity.ofGraph graph).weight first second =
    Weight.accumulate
      ((graph.weight? first second).toList ++ (graph.weight? second first).toList) := by
  rw [Affinity.weight_of_graph, joining_edges graph less]
  simp [Function.comp_def]

end AnyWeights

/-- The weights of both directions together, where an absent edge weighs nothing. -/
def undirected (graph : CouplingGraph Rat) (first second : String) : Rat :=
  (graph.weight? first second).getD 0 + (graph.weight? second first).getD 0

theorem undirected_comm (graph : CouplingGraph Rat) (first second : String) :
    graph.undirected first second = graph.undirected second first := add_comm _ _

theorem affinity_eq_undirected (graph : CouplingGraph Rat) {first second : String}
    (differs : first ≠ second) :
    (Affinity.ofGraph graph).weight first second = graph.undirected first second := by
  have ordered : ∀ {one other : String}, one < other →
      (Affinity.ofGraph graph).weight one other = graph.undirected one other := by
    intro one other less
    rw [affinity_of_pair graph less, Affinity.accumulate_eq_sum, List.sum_append, undirected]
    cases graph.weight? one other <;> cases graph.weight? other one <;> simp
  rcases lt_or_gt_of_ne differs with less | greater
  · exact ordered less
  · rw [Affinity.weight_symm, undirected_comm]
    exact ordered greater

theorem undirected_of_unknown (graph : CouplingGraph Rat) {first second : String}
    (unknown : ¬(first ∈ graph.classes ∧ second ∈ graph.classes)) :
    graph.undirected first second = 0 := by
  have absent : ∀ source target, ¬(source ∈ graph.classes ∧ target ∈ graph.classes) →
      graph.weight? source target = none := by
    intro source target outside
    rw [Option.eq_none_iff_forall_ne_some]
    intro weight held
    have listed : (⟨source, target, weight⟩ : Edge Rat) ∈ graph.edges :=
      (mem_edges_iff graph).mpr held
    exact outside (ends_mem_classes listed)
  rw [undirected, absent first second unknown, absent second first (mt And.symm unknown)]
  simp

end Cohesion.CouplingGraph
