import Cohesion.Proofs.Coupling.Edges
import Cohesion.Proofs.Coupling.Tally
import Cohesion.Proofs.Weight.Magnitude

/-!
# The coupling of a call graph is free of the not-a-number

Every weight of such a coupling is the share of a positive count in the number of all crossings.
While this number fits a machine word, the weights are finite and have no sign, so that no sum of
affinities can fail to be a number.
-/

namespace Cohesion

namespace CouplingGraph

variable {separator : Separator} {calls : CallGraph}

theorem full_weight_of_calls (bounded : (calls.crossings separator).length < 2 ^ 64)
    {source target : String} {weight : Float}
    (found : (ofCalls separator calls).weight? source target = some weight) :
    FullBetween (-1074) 971 weight.toModel.unpack := by
  rw [weight?, ofCalls, NameTable.get?_map_values, get?_tally, Option.map_eq_some_iff] at found
  obtain ⟨count, counted, rfl⟩ := found
  rw [Option.ite_none_left_eq_some, Option.some.injEq] at counted
  obtain ⟨listed, rfl⟩ := counted
  exact full_share (Nat.pos_of_ne_zero listed) List.count_le_length bounded

theorem unsigned_between_of_calls (bounded : (calls.crossings separator).length < 2 ^ 64)
    (rows columns : NameSet) :
    UnsignedDouble ((Affinity.ofGraph (ofCalls separator calls)).between rows columns) := by
  have edges : ∀ edge ∈ (ofCalls separator calls).edges, UnsignedDouble edge.weight :=
    fun edge member => (full_weight_of_calls bounded ((mem_edges_iff _).mp member)).unsigned
  have sums : ∀ weights : List Float, (∀ weight ∈ weights, UnsignedDouble weight) →
      UnsignedDouble (Weight.accumulate weights) := fun _ unsigned =>
    UnsignedDouble.accumulate unsigned
  exact Affinity.between_of_weights sums (Affinity.weight_of_edges sums edges) rows columns

end CouplingGraph

end Cohesion
