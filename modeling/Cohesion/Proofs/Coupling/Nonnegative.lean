import Cohesion.Proofs.Clustering.Cells
import Cohesion.Proofs.Coupling.Edges
import Cohesion.Proofs.Weight.Nonnegative

/-!
# Nonnegative affinities

In a graph without negative weights no affinity is negative, and a coupling of two sets of classes
is positive exactly when the affinity of some pair across them is.
-/

namespace Cohesion.CouplingGraph

variable {W : Type} [Weight W]

def NonnegativeWeights (graph : CouplingGraph W) : Prop :=
  ∀ edge ∈ graph.edges, Weight.isFinite edge.weight = true ∧
    Weight.exceeds Weight.zero edge.weight = false

section Nonnegative

variable [OrderedWeight W] [ConicalWeight W] {graph : CouplingGraph W}
  (nonnegative : graph.NonnegativeWeights)

include nonnegative

theorem nonnegative_affinity (first second : String) :
    Weight.Nonnegative ((Affinity.ofGraph graph).weight first second) := by
  apply Affinity.weight_of_edges fun _ => Weight.accumulate_nonnegative
  intro edge member
  have bounds := nonnegative edge member
  exact ⟨ConicalWeight.number_of_finite bounds.1, bounds.2⟩

theorem nonnegative_terms (rows columns : NameSet) :
    ∀ weight ∈ (Affinity.ofGraph graph).terms rows columns, Weight.Nonnegative weight := by
  intro weight member
  rw [Affinity.terms, List.mem_flatMap] at member
  obtain ⟨row, _, inRow⟩ := member
  obtain ⟨column, _, rfl⟩ := List.mem_map.mp inRow
  exact nonnegative_affinity nonnegative row column

theorem nonnegative_between (rows columns : NameSet) :
    Weight.Nonnegative ((Affinity.ofGraph graph).between rows columns) :=
  Weight.accumulate_nonnegative (nonnegative_terms nonnegative rows columns)

theorem positive_between (rows columns : NameSet) :
    Weight.Positive ((Affinity.ofGraph graph).between rows columns) ↔
      ∃ row ∈ rows, ∃ column ∈ columns,
        Weight.Positive ((Affinity.ofGraph graph).weight row column) := by
  rw [Affinity.between_eq_terms,
    Weight.accumulate_positive (nonnegative_terms nonnegative rows columns)]
  simp [Affinity.terms, NameSet.mem_to_list]

theorem between_eq_zero {rows columns : NameSet}
    (apart : ∀ row ∈ rows, ∀ column ∈ columns,
      ¬Weight.Positive ((Affinity.ofGraph graph).weight row column)) :
    (Affinity.ofGraph graph).between rows columns = Weight.zero := by
  apply Weight.accumulate_eq_zero (nonnegative_terms nonnegative rows columns)
  intro weight member
  obtain ⟨row, isRow, inRow⟩ := List.mem_flatMap.mp member
  obtain ⟨column, isColumn, rfl⟩ := List.mem_map.mp inRow
  exact apart row (NameSet.mem_to_list.mp isRow) column (NameSet.mem_to_list.mp isColumn)

end Nonnegative

end Cohesion.CouplingGraph
