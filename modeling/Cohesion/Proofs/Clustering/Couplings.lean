import Cohesion.Proofs.Clustering.Greedy

/-!
# Couplings by number and by name

The rounds of a clustering add up matrix cells by member numbers. The same couplings come from the
affinities of the class names: in every round and for every pair of active clusters, the cells read
are cells of the matrix, and they are the affinities of the names, in the same order.
-/

namespace Cohesion

variable {W : Type} [Weight W]

/-- A round that joins two nodes at a coupling: the strongest pair by member numbers has the coupling
of the two nodes by class names, and whatever the round reads from the matrix is the affinity of two
names. -/
structure CouplingGraph.CoupledAt (graph : CouplingGraph W) (arena : Arena W)
    (round left right : Nat) (coupling : W) : Prop where
  by_number : ∃ one other, Forest.strongestPair graph.matrix (graph.forestAt round).active =
    some ((one, other), coupling) ∧ one.1.node = left ∧ other.1.node = right ∧
      coupling = graph.matrix.between one.1.members other.1.members
  by_name : coupling =
    (Affinity.ofGraph graph).between (arena.classesAt left) (arena.classesAt right)
  reads : ∀ first ∈ (graph.forestAt round).active, ∀ second ∈ (graph.forestAt round).active,
    graph.matrix.ReadsNames (Affinity.ofGraph graph) first.members second.members
      (arena.classesAt first.node) (arena.classesAt second.node)

theorem Origin.coupled_at {graph : CouplingGraph W} {arena : Arena W} {round : Nat}
    {before middle after : List Cluster} {left right : Cluster} {coupling : W}
    (origin : Origin graph arena (graph.forestAt round) before left middle right after coupling) :
    graph.CoupledAt arena round left.node right.node coupling where
  by_number := by
    obtain ⟨leftPosition, rightPosition, found⟩ := origin.found
    exact ⟨_, _, found, rfl, rfl, first_strongest_strength found⟩
  by_name := origin.coupling_eq
  reads := fun _ firstActive _ secondActive => origin.reads_names firstActive secondActive

/-- The coupling of every merged node is that of its children by their class names, with the same
additions in the same order, and no round reads beyond the matrix. -/
theorem couplings_by_number_and_name {graph : CouplingGraph W} {dendrogram : Dendrogram W}
    (clustered : graph.cluster? = some dendrogram) :
    graph.matrix.size = graph.classes.size ∧
      graph.matrix.cells.size = graph.matrix.size * graph.matrix.size ∧
      ∀ id left right coupling joined,
        dendrogram.nodes[id]? = some (.merged left right coupling joined) →
        ∃ round, id = graph.classes.size + round ∧
          graph.CoupledAt dendrogram.toArena round left right coupling := by
  refine ⟨rfl, AffinityMatrix.cells_size _ _, ?_⟩
  intro id left right coupling joined stored
  have behindLeaves := (cluster_grown clustered).behind_leaves stored
  obtain ⟨round, roundBound, rfl⟩ :=
    round_of_merged clustered behindLeaves (Arena.lt_of_stored stored)
  obtain ⟨size, _, _, _, _, _, _, origin⟩ := origin_of_round clustered roundBound
  have made := origin.stored
  rw [size, stored] at made
  cases made
  exact ⟨round, rfl, origin.coupled_at⟩

/-- Five classes whose couplings are sums that have to be rounded. -/
def unevenShares : CouplingGraph Float :=
  .ofEdges [⟨"a", "b", 0.1⟩, ⟨"b", "c", 0.3⟩, ⟨"c", "a", 0.05⟩, ⟨"d", "a", 0.35⟩, ⟨"e", "d", 0.2⟩]

theorem uneven_shares_by_number_and_name : ∃ dendrogram,
    unevenShares.cluster? = some dendrogram ∧
    dendrogram.nodes[8]? = some (.merged 7 6 (0.1 + 0.05) (.ofList ["a", "b", "c", "d", "e"])) ∧
    ∃ round, 8 = unevenShares.classes.size + round ∧
      unevenShares.CoupledAt dendrogram.toArena round 7 6 (0.1 + 0.05) := by
  have computed : (unevenShares.cluster?.bind fun dendrogram => dendrogram.nodes[8]?) =
      some (.merged 7 6 (0.1 + 0.05) (.ofList ["a", "b", "c", "d", "e"])) := by
    decide +kernel
  obtain ⟨dendrogram, clustered, stored⟩ := Option.bind_eq_some_iff.mp computed
  exact ⟨dendrogram, clustered, stored,
    (couplings_by_number_and_name clustered).2.2 8 7 6 (0.1 + 0.05) _ stored⟩

end Cohesion
