import Mathlib.Data.List.Basic
import Cohesion.Coupling.Affinity
import Cohesion.Proofs.Names.Lookup
import Cohesion.Proofs.Pairs

/-!
# Edges and affinities

The edges of a coupling graph are its weights, in order of source and then of target. The affinity
of two classes adds up the edges that join them, in this order and starting from zero, so it depends
on nothing but these edges.
-/

namespace Cohesion

variable {W : Type}

namespace CouplingGraph

theorem mem_edges_iff (graph : CouplingGraph W) {edge : Edge W} :
    edge ∈ graph.edges ↔ graph.weight? edge.source edge.target = some edge.weight := by
  obtain ⟨source, target, weight⟩ := edge
  simp only [edges, NameTable.cells, NameMap.toList, List.mem_map, List.mem_flatMap, weight?,
    NameTable.get?, NameTable.row?, Option.bind_eq_some_iff]
  constructor
  · rintro ⟨_, ⟨⟨row, values⟩, rowMember, ⟨column, value⟩, member, rfl⟩, same⟩
    cases same
    exact ⟨values, (NameMap.mem_entries_iff _).mp rowMember, (NameMap.mem_entries_iff _).mp member⟩
  · rintro ⟨values, rowFound, found⟩
    exact ⟨_, ⟨(source, values), (NameMap.mem_entries_iff _).mpr rowFound, (target, weight),
      (NameMap.mem_entries_iff _).mpr found, rfl⟩, rfl⟩

def EdgeBefore (edge other : Edge W) : Prop :=
  PairBefore (· < ·) (edge.source, edge.target) (other.source, other.target)

instance : Std.Asymm (@EdgeBefore W) where
  asymm edge other := Std.Asymm.asymm (r := PairBefore (· < ·)) (edge.source, edge.target)
    (other.source, other.target)

theorem edges_ordered (graph : CouplingGraph W) : graph.edges.Pairwise EdgeBefore := by
  rw [edges, List.pairwise_map, NameTable.cells, List.pairwise_flatMap]
  constructor
  · rintro ⟨row, values⟩ _
    rw [List.pairwise_map]
    have columns := values.ascending
    rw [List.pairwise_map] at columns
    exact columns.imp fun less => .inr ⟨rfl, less⟩
  · have rows := graph.table.rows.ascending
    rw [List.pairwise_map] at rows
    apply rows.imp
    rintro ⟨row, values⟩ ⟨other, otherValues⟩ less first firstMember second secondMember
    obtain ⟨_, _, rfl⟩ := List.mem_map.mp firstMember
    obtain ⟨_, _, rfl⟩ := List.mem_map.mp secondMember
    exact .inl less

theorem edge_pairs_nodup (graph : CouplingGraph W) :
    (graph.edges.map fun edge => (edge.source, edge.target)).Nodup := by
  have ordered : (graph.edges.map fun edge => (edge.source, edge.target)).Pairwise
      (PairBefore (· < ·)) := by
    rw [List.pairwise_map]
    exact graph.edges_ordered
  exact ordered.nodup

theorem edge_count_eq (graph : CouplingGraph W) : graph.edgeCount = graph.edges.length := by
  rw [edges, List.length_map, NameTable.cells, List.length_flatMap, edgeCount, NameTable.size,
    NameMap.values, List.foldr_map, List.sum, List.foldr_map]
  simp only [NameMap.size, NameMap.toList, List.length_map]

theorem mem_classes_iff (graph : CouplingGraph W) {name : String} :
    name ∈ graph.classes ↔
      ∃ row ∈ graph.table.rows.entries, name = row.1 ∨ name ∈ row.2.keys :=
  NameTable.mem_names

end CouplingGraph

namespace Affinity

variable [Weight W]

def Joining (first second : String) (edge : Edge W) : Prop :=
  edge.source = first ∧ edge.target = second ∨ edge.source = second ∧ edge.target = first

instance (first second : String) : DecidablePred (Joining (W := W) first second) :=
  fun _ => inferInstanceAs (Decidable (_ ∨ _))

omit [Weight W] in
theorem joining_comm {first second : String} {edge : Edge W} :
    Joining first second edge ↔ Joining second first edge := or_comm

theorem weight_accrue (affinity : Affinity W) (row column first second : String) (added : W) :
    (affinity.accrue row column added).weight first second =
      if first = row ∧ second = column then Weight.add (affinity.weight first second) added
      else affinity.weight first second := by
  split
  · next same =>
      obtain ⟨rfl, rfl⟩ := same
      rw [weight, accrue, NameTable.get?_adjust_self, Option.getD_some, weight]
  · next differs =>
      rw [weight, accrue, NameTable.get?_adjust_of_ne _ (not_and_or.mp differs), weight]

theorem weight_add_edge (affinity : Affinity W) (edge : Edge W) (first second : String) :
    (affinity.addEdge edge).weight first second =
      if Joining first second edge then Weight.add (affinity.weight first second) edge.weight
      else affinity.weight first second := by
  obtain ⟨source, target, added⟩ := edge
  simp only [addEdge, Joining]
  by_cases isLoop : source = target
  · subst isLoop
    rw [if_pos rfl, weight_accrue]
    refine if_congr ?_ rfl rfl
    constructor
    · rintro ⟨rfl, rfl⟩
      exact .inl ⟨rfl, rfl⟩
    · rintro (⟨rfl, rfl⟩ | ⟨rfl, rfl⟩)
      · exact ⟨rfl, rfl⟩
      · exact ⟨rfl, rfl⟩
  · rw [if_neg isLoop, weight_accrue, weight_accrue]
    by_cases forward : source = first ∧ target = second
    · obtain ⟨rfl, rfl⟩ := forward
      simp [isLoop]
    · by_cases backward : source = second ∧ target = first
      · obtain ⟨rfl, rfl⟩ := backward
        simp [Ne.symm isLoop]
      · simp only [forward, backward, or_self, if_false]
        rw [if_neg fun same => backward ⟨same.2.symm, same.1.symm⟩,
          if_neg fun same => forward ⟨same.1.symm, same.2.symm⟩]

theorem weight_add_edges (affinity : Affinity W) (edges : List (Edge W)) (first second : String) :
    (edges.foldl addEdge affinity).weight first second =
      ((edges.filter fun edge => decide (Joining first second edge)).map Edge.weight).foldl
        Weight.add (affinity.weight first second) := by
  induction edges generalizing affinity with
  | nil => rfl
  | cons edge rest induction =>
      rw [List.foldl_cons, induction, weight_add_edge]
      by_cases joins : Joining first second edge
      · simp [joins]
      · simp [joins]

/-- The affinity of two classes adds the edges that join them, in edge order. -/
theorem weight_of_graph (graph : CouplingGraph W) (first second : String) :
    (ofGraph graph).weight first second = Weight.accumulate
      ((graph.edges.filter fun edge => decide (Joining first second edge)).map Edge.weight) :=
  weight_add_edges ⟨∅⟩ graph.edges first second

theorem weight_symm (graph : CouplingGraph W) (first second : String) :
    (ofGraph graph).weight first second = (ofGraph graph).weight second first := by
  have same : (fun edge : Edge W => decide (Joining first second edge)) =
      fun edge => decide (Joining second first edge) := by
    funext edge
    rw [decide_eq_decide]
    exact joining_comm
  rw [weight_of_graph, weight_of_graph, same]

section Sums

variable {holds sums : W → Prop} (accumulated : ∀ weights : List W,
  (∀ weight ∈ weights, holds weight) → sums (Weight.accumulate weights))

include accumulated

/-- Every affinity has what all sums of edge weights have. -/
theorem weight_of_edges {graph : CouplingGraph W} (edges : ∀ edge ∈ graph.edges, holds edge.weight)
    (first second : String) : sums ((ofGraph graph).weight first second) := by
  rw [weight_of_graph]
  apply accumulated
  intro weight member
  obtain ⟨edge, edgeMember, rfl⟩ := List.mem_map.mp member
  exact edges edge (List.mem_of_mem_filter edgeMember)

theorem between_of_weights {affinity : Affinity W}
    (weights : ∀ first second, holds (affinity.weight first second)) (rows columns : NameSet) :
    sums (affinity.between rows columns) := by
  apply accumulated
  intro weight member
  obtain ⟨row, _, cell⟩ := List.mem_flatMap.mp member
  obtain ⟨column, _, rfl⟩ := List.mem_map.mp cell
  exact weights row column

end Sums

end Affinity

end Cohesion
