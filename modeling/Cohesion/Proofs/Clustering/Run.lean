import Cohesion.Proofs.Clustering.Rounds

/-!
# The run of a whole clustering

A clustering of `n` classes makes `n - 1` rounds. Every merged node of the dendrogram comes from one
of them, and what held of the active clusters then can be read off the finished dendrogram.
-/

namespace Cohesion

variable {W : Type} [Weight W]

namespace CouplingGraph

def matrix (graph : CouplingGraph W) : AffinityMatrix W :=
  .ofAffinity (Affinity.ofGraph graph) graph.classes

def forestAt (graph : CouplingGraph W) (round : Nat) : Forest W :=
  Forest.mergeRounds graph.matrix round (Forest.ofClasses graph.classes)

end CouplingGraph

theorem Forest.merge_rounds_succ (matrix : AffinityMatrix W) (rounds : Nat) (forest : Forest W) :
    Forest.mergeRounds matrix (rounds + 1) forest =
      (Forest.mergeRounds matrix rounds forest).mergeStrongest matrix := by
  induction rounds generalizing forest with
  | zero => rfl
  | succ rounds induction =>
      rw [Forest.mergeRounds, induction, Forest.mergeRounds]

namespace CouplingGraph

variable {graph : CouplingGraph W}

theorem forest_at_succ (round : Nat) :
    graph.forestAt (round + 1) = (graph.forestAt round).mergeStrongest graph.matrix :=
  Forest.merge_rounds_succ graph.matrix round _

theorem forest_at_canonical (graph : CouplingGraph W) {round : Nat}
    (bound : round ≤ graph.classes.size - 1) :
    (graph.forestAt round).Canonical graph.classes ∧
      (graph.forestAt round).nodes.size = graph.classes.size + round := by
  induction round with
  | zero =>
      refine ⟨Forest.canonical_of_classes graph.classes, ?_⟩
      simp [forestAt, Forest.mergeRounds, Forest.ofClasses, NameSet.size, NameSet.toList]
  | succ round induction =>
      obtain ⟨canonical, size⟩ := induction (by omega)
      have several : 2 ≤ (graph.forestAt round).active.length := by
        have count := canonical.count
        omega
      obtain ⟨_, _, _, _, _, _, joins⟩ :=
        Forest.merge_strongest_joins canonical graph.matrix several
      rw [forest_at_succ]
      refine ⟨joins.canonical canonical, ?_⟩
      rw [joins.next_size, size]
      rfl

theorem forest_at_joins {round : Nat} (bound : round < graph.classes.size - 1) :
    ∃ before left middle right after coupling, (graph.forestAt round).Joins graph.matrix
      (graph.forestAt (round + 1)) before left middle right after coupling := by
  obtain ⟨canonical, size⟩ := forest_at_canonical graph (Nat.le_of_lt bound)
  have several : 2 ≤ (graph.forestAt round).active.length := by
    have count := canonical.count
    omega
  rw [forest_at_succ]
  exact Forest.merge_strongest_joins canonical graph.matrix several

theorem forest_at_continues {round later : Nat} (order : round ≤ later)
    (bound : later ≤ graph.classes.size - 1) :
    (graph.forestAt later).Continues (graph.forestAt round).toArena := by
  induction later, order using Nat.le_induction with
  | base => exact fun _ _ => rfl
  | succ later _ induction =>
      obtain ⟨_, _, _, _, _, _, joins⟩ := forest_at_joins bound
      exact joins.continues.trans (induction (by omega))

def lastForest (graph : CouplingGraph W) : Forest W := graph.forestAt (graph.classes.size - 1)

theorem last_forest_canonical (graph : CouplingGraph W) :
    graph.lastForest.Canonical graph.classes :=
  (forest_at_canonical graph (Nat.le_refl _)).1

theorem last_forest_active (graph : CouplingGraph W) :
    graph.lastForest.active.length = min 1 graph.classes.size := by
  obtain ⟨canonical, size⟩ := forest_at_canonical graph (Nat.le_refl _)
  have count := canonical.count
  have last : graph.lastForest = graph.forestAt (graph.classes.size - 1) := rfl
  rw [last]
  omega

theorem cluster_eq_none_iff : graph.cluster? = none ↔ graph.classes.size = 0 := by
  have length := last_forest_active graph
  change graph.lastForest.tree? = none ↔ _
  unfold Forest.tree?
  split
  · next absent =>
      rw [List.getLast?_eq_none_iff] at absent
      rw [absent, List.length_nil] at length
      simp only [true_iff]
      omega
  · next cluster present =>
      have some_active := List.length_pos_of_mem (List.mem_of_getLast? present)
      simp only [reduceCtorEq, false_iff]
      omega

theorem cluster_eq_none_iff_empty :
    graph.cluster? = none ↔ graph.classes = ∅ := by
  rw [cluster_eq_none_iff, NameSet.size_eq_zero_iff]
  constructor
  · intro none_named
    exact NameSet.eq_of_names none_named
  · intro empty
    rw [empty]
    rfl

theorem exists_dendrogram (nonempty : graph.classes ≠ ∅) :
    ∃ dendrogram, graph.cluster? = some dendrogram :=
  Option.ne_none_iff_exists'.mp (cluster_eq_none_iff_empty.not.mpr nonempty)

theorem cluster_eq_some {dendrogram : Dendrogram W}
    (clustered : graph.cluster? = some dendrogram) :
    dendrogram.toArena = graph.lastForest.toArena ∧
      ∃ cluster, graph.lastForest.active = [cluster] ∧ cluster.node = dendrogram.root := by
  have length := last_forest_active graph
  have present : graph.classes.size ≠ 0 := by
    intro empty
    rw [cluster_eq_none_iff.mpr empty] at clustered
    contradiction
  have single : graph.lastForest.active.length = 1 := by omega
  obtain ⟨cluster, active⟩ := List.length_eq_one_iff.mp single
  change graph.lastForest.tree? = some dendrogram at clustered
  unfold Forest.tree? at clustered
  split at clustered
  · contradiction
  · next found last =>
      cases clustered
      rw [active] at last
      cases last
      exact ⟨rfl, cluster, active, rfl⟩

end CouplingGraph

/-- The round that a merged node comes from, as it shows in a list of nodes that goes on from it. -/
structure Origin (graph : CouplingGraph W) (arena : Arena W) (forest : Forest W)
    (before : List Cluster) (left : Cluster) (middle : List Cluster) (right : Cluster)
    (after : List Cluster) (coupling : W) : Prop
    extends forest.Split before left middle right after where
  canonical : forest.Canonical graph.classes
  continues : arena.Continues forest.toArena
  found : ∃ leftPosition rightPosition, Forest.strongestPair graph.matrix forest.active =
    some (((left, leftPosition), (right, rightPosition)), coupling)
  stored : arena.nodes[forest.nodes.size]? = some (.merged left.node right.node coupling
    ((arena.classesAt left.node).union (arena.classesAt right.node)))

theorem origin_of_round {graph : CouplingGraph W} {dendrogram : Dendrogram W}
    (clustered : graph.cluster? = some dendrogram) {round : Nat}
    (roundBound : round < graph.classes.size - 1) :
    (graph.forestAt round).nodes.size = graph.classes.size + round ∧
      ∃ before left middle right after coupling, Origin graph dendrogram.toArena
        (graph.forestAt round) before left middle right after coupling := by
  obtain ⟨nodes, _⟩ := CouplingGraph.cluster_eq_some clustered
  obtain ⟨canonical, size⟩ := CouplingGraph.forest_at_canonical graph (Nat.le_of_lt roundBound)
  obtain ⟨before, left, middle, right, after, coupling, joins⟩ :=
    CouplingGraph.forest_at_joins roundBound
  have laterContinues : dendrogram.Continues (graph.forestAt (round + 1)).toArena := by
    rw [nodes]
    exact CouplingGraph.forest_at_continues roundBound (Nat.le_refl _)
  have continues := laterContinues.trans joins.continues
  refine ⟨size, before, left, middle, right, after, coupling, joins.toSplit, canonical, continues,
    joins.found, ?_⟩
  rw [laterContinues _ (by rw [joins.next_size]; omega), joins.stored,
    continues.classes_at (Forest.node_lt _ left joins.left_active),
    continues.classes_at (Forest.node_lt _ right joins.right_active)]

theorem round_of_merged {graph : CouplingGraph W} {dendrogram : Dendrogram W}
    (clustered : graph.cluster? = some dendrogram) {id : Nat}
    (behindLeaves : graph.classes.size ≤ id) (bound : id < dendrogram.nodes.size) :
    ∃ round < graph.classes.size - 1, id = graph.classes.size + round := by
  obtain ⟨nodes, _⟩ := CouplingGraph.cluster_eq_some clustered
  obtain ⟨_, lastSize⟩ := CouplingGraph.forest_at_canonical graph (Nat.le_refl _)
  obtain ⟨round, rfl⟩ := Nat.exists_eq_add_of_le behindLeaves
  have last : graph.lastForest = graph.forestAt (graph.classes.size - 1) := rfl
  rw [nodes, last, lastSize] at bound
  exact ⟨round, by omega, rfl⟩

theorem origin_of_merged {graph : CouplingGraph W} {dendrogram : Dendrogram W}
    (clustered : graph.cluster? = some dendrogram) {id : Nat}
    (behindLeaves : graph.classes.size ≤ id) (bound : id < dendrogram.nodes.size) :
    ∃ forest before left middle right after coupling, forest.nodes.size = id ∧
      Origin graph dendrogram.toArena forest before left middle right after coupling := by
  obtain ⟨round, roundBound, rfl⟩ := round_of_merged clustered behindLeaves bound
  obtain ⟨size, before, left, middle, right, after, coupling, origin⟩ :=
    origin_of_round clustered roundBound
  exact ⟨_, before, left, middle, right, after, coupling, size, origin⟩

namespace Origin

variable {graph : CouplingGraph W} {arena : Arena W} {forest : Forest W}
  {before middle after : List Cluster} {left right : Cluster} {coupling : W}

theorem active_before (origin : Origin graph arena forest before left middle right after coupling)
    (id : Nat) : arena.ActiveBefore forest.nodes.size id ↔
      ∃ cluster ∈ forest.active, cluster.node = id := by
  rw [origin.continues.active_before (Nat.le_refl _), origin.canonical.parentless, List.mem_map]

theorem named (origin : Origin graph arena forest before left middle right after coupling)
    {cluster : Cluster} (active : cluster ∈ forest.active) :
    (arena.classesAt cluster.node).names = cluster.members.map graph.classes.nameAt := by
  rw [origin.continues.classes_at (forest.node_lt cluster active)]
  exact origin.canonical.named cluster active

/-- The order of active clusters is also the order of their class names. -/
theorem leads_of_members
    (origin : Origin graph arena forest before left middle right after coupling)
    {first second : Cluster} (firstActive : first ∈ forest.active)
    (secondActive : second ∈ forest.active) (leads : Leads first.members second.members) :
    Leads (arena.classesAt first.node).names (arena.classesAt second.node).names := by
  rw [origin.named firstActive, origin.named secondActive]
  apply leads.map
  intro number _ other member less
  exact NameSet.name_at_lt less (origin.canonical.bounded secondActive other member)

theorem disjoint_of_members
    (origin : Origin graph arena forest before left middle right after coupling)
    {first second : Cluster} (firstActive : first ∈ forest.active)
    (secondActive : second ∈ forest.active)
    (apart : ∀ number ∈ first.members, number ∉ second.members) :
    ∀ name ∈ arena.classesAt first.node, name ∉ arena.classesAt second.node := by
  intro name inFirst inSecond
  rw [NameSet.mem_iff, origin.named firstActive, List.mem_map] at inFirst
  obtain ⟨number, member, rfl⟩ := inFirst
  rw [NameSet.mem_iff, origin.named secondActive, NameSet.mem_map_name_at
    (origin.canonical.bounded secondActive) (origin.canonical.bounded firstActive number member)]
    at inSecond
  exact apart number member inSecond

end Origin

end Cohesion
