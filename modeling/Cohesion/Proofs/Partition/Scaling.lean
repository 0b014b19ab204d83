import Cohesion.Proofs.Clustering.Conservation
import Cohesion.Proofs.Clustering.RoundedMerges
import Cohesion.Proofs.Partition.Image

/-!
# Normalisation is a change of scale

Exact weights multiplied by a positive factor give the same tree with all couplings multiplied, and
the same cuts at multiplied thresholds. The shares of a call graph are its relation counts divided
by their total, so both have the same tree.
-/

namespace Cohesion

variable {V W : Type}

theorem NameTable.cells_map_values (transform : V → W) (table : NameTable V) :
    (table.mapValues transform).cells =
      table.cells.map fun cell => (cell.1, cell.2.1, transform cell.2.2) := by
  simp [cells, mapValues, NameMap.mapValues, NameMap.toList, List.flatMap_map, List.map_flatMap,
    Function.comp_def]

theorem NameTable.names_map_values (transform : V → W) (table : NameTable V) :
    (table.mapValues transform).names = table.names := by
  ext name
  rw [mem_names, mem_names]
  simp [mapValues, NameMap.mapValues, NameMap.keys, NameSet.mem_iff]

namespace CouplingGraph

def mapWeights (transform : V → W) (graph : CouplingGraph V) : CouplingGraph W :=
  ⟨graph.table.mapValues transform⟩

def scale (factor : Rat) (graph : CouplingGraph Rat) : CouplingGraph Rat :=
  graph.mapWeights fun weight => factor * weight

theorem edges_map_weights (transform : V → W) (graph : CouplingGraph V) :
    (graph.mapWeights transform).edges =
      graph.edges.map fun edge => ⟨edge.source, edge.target, transform edge.weight⟩ := by
  simp [edges, mapWeights, NameTable.cells_map_values]

theorem map_weights_weighed {Start : Type} (weigh : Nat → Start) (transform : Start → V)
    (separator : Separator) (calls : CallGraph) :
    (weighed weigh separator calls).mapWeights transform =
      weighed (fun count => transform (weigh count)) separator calls := by
  simp [weighed, mapWeights, NameTable.mapValues, NameMap.mapValues, Function.comp_def]

section Rescaled

variable [Weight V] [Weight W] {rescale : V → W} (rescaling : Rescaling rescale)
  (graph : CouplingGraph V)

include rescaling

theorem affinity_map_weights (kept : Set String) :
    (Affinity.ofGraph graph).Carries id rescale (Affinity.ofGraph (graph.mapWeights rescale))
      kept := by
  refine ⟨strictMonoOn_id, rescaling, fun first _ second _ _ => ?_⟩
  rw [Affinity.weight_of_graph, Affinity.weight_of_graph, ← rescaling.accumulate,
    edges_map_weights, List.filter_map, List.map_map, List.map_map]
  rfl

theorem carries_map_weights : graph.Carries id rescale (graph.mapWeights rescale) where
  classes := (NameTable.names_map_values rescale graph.table).trans (NameSet.image_id _).symm
  affinity := affinity_map_weights rescaling graph _

end Rescaled

/-- The other graph has the tree of the first one with its couplings multiplied by a factor. At a
threshold that is multiplied, too, every tree is cut into the same modules over the other graph, in
the same order and with the same remark, their cohesions multiplied. -/
structure ScalesTo (graph other : CouplingGraph Rat) (factor : Rat) : Prop where
  tree_exists : graph.classes ≠ ∅ → ∃ dendrogram, graph.cluster? = some dendrogram
  tree : other.cluster? = graph.cluster?.map (Dendrogram.map id (factor * ·))
  cut : ∀ (dendrogram : Dendrogram Rat) (start : Nat) (threshold : Rat), ∃ partition,
    dendrogram.partitionFrom (Affinity.ofGraph graph) start threshold = .ok partition ∧
    (dendrogram.map id (factor * ·)).partitionFrom (Affinity.ofGraph other) start
      (factor * threshold) = .ok (partition.map id (factor * ·))

theorem scales_to_scale (graph : CouplingGraph Rat) {factor : Rat} (positive : 0 < factor) :
    graph.ScalesTo (graph.scale factor) factor where
  tree_exists := exists_dendrogram
  tree := (carries_map_weights (rescaling_mul positive) graph).cluster_image
  cut dendrogram start threshold := by
    have carries := affinity_map_weights (rescaling_mul positive) graph Set.univ
    have known : dendrogram.ClassesIn Set.univ := fun _ name _ => Set.mem_univ name
    have finite : Weight.isFinite threshold = true := rfl
    exact carries.partition_from known start finite

/-- Shares are the counts divided by their total. -/
theorem scale_relation_counts (separator : Separator) (calls : CallGraph) :
    (relationCounts separator calls).scale (calls.crossingRelations separator).card⁻¹ =
      ofCalls separator calls := by
  rw [scale, relationCounts, map_weights_weighed, of_calls_eq_weighed]
  apply congrArg (weighed · separator calls)
  funext count
  exact inv_mul_eq_div _ _

theorem scales_to_shares {separator : Separator} {calls : CallGraph}
    (crossing : 0 < (calls.crossingRelations separator).card) :
    (relationCounts separator calls).ScalesTo (ofCalls separator calls)
      (calls.crossingRelations separator).card⁻¹ := by
  have positive : (0 : Rat) < ((calls.crossingRelations separator).card : Rat)⁻¹ :=
    inv_pos.mpr (Nat.cast_pos.mpr crossing)
  rw [← scale_relation_counts]
  exact scales_to_scale _ positive

/-- Without any relation across classes there is no total to divide by, but no tree, either. -/
theorem shares_tree (separator : Separator) (calls : CallGraph) :
    (ofCalls separator calls).cluster? =
      (relationCounts separator calls).cluster?.map
        (Dendrogram.map id (((calls.crossingRelations separator).card : Rat)⁻¹ * ·)) := by
  rcases Nat.eq_zero_or_pos (calls.crossingRelations separator).card with noRelation | crossing
  · have noTree : ∀ weigh : Nat → Rat, (weighed weigh separator calls).cluster? = none :=
      fun weigh => (cluster_weighed_eq_none_iff weigh).mpr noRelation
    rw [of_calls_eq_weighed, relationCounts, noTree, noTree, Option.map_none]
  · exact (scales_to_shares crossing).tree

end CouplingGraph

/-- Multiplying exact weights by a positive factor changes nothing but the scale of the couplings. In
particular the tree of the shares of a call graph is the tree of its relation counts. -/
theorem scaled_weights_cluster_alike :
    (∀ (graph : CouplingGraph Rat) (factor : Rat), 0 < factor →
      graph.ScalesTo (graph.scale factor) factor) ∧
    ∀ (separator : Separator) (calls : CallGraph),
      (CouplingGraph.ofCalls separator calls).cluster? =
        (CouplingGraph.relationCounts separator calls).cluster?.map
          (Dendrogram.map id (((calls.crossingRelations separator).card : Rat)⁻¹ * ·)) ∧
      (0 < (calls.crossingRelations separator).card →
        (CouplingGraph.relationCounts separator calls).ScalesTo
          (CouplingGraph.ofCalls separator calls) (calls.crossingRelations separator).card⁻¹) :=
  ⟨fun graph _ positive => graph.scales_to_scale positive,
    fun separator calls => ⟨CouplingGraph.shares_tree separator calls,
      CouplingGraph.scales_to_shares⟩⟩

theorem signed_ring_and_pairs_scale :
    signedRing.ScalesTo (signedRing.scale 12) 12 ∧
    (CouplingGraph.relationCounts .standard twoEqualPairs).ScalesTo
      (CouplingGraph.ofCalls .standard twoEqualPairs)
      (twoEqualPairs.crossingRelations .standard).card⁻¹ := by
  obtain ⟨scaled, shares⟩ := scaled_weights_cluster_alike
  exact ⟨scaled signedRing 12 (by decide +kernel),
    (shares .standard twoEqualPairs).2 (by decide +kernel)⟩

end Cohesion
