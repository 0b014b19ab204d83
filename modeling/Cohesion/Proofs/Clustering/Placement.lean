import Cohesion.Proofs.Clustering.Shape

/-!
# The list of active clusters

Before every round the active clusters are in the order of their member lists, which is also the
order of their class names and of their first class names. A round takes out two of them and puts the
joined cluster exactly where the left one stood: a search for its members finds no equal ones and
ends at that place.
-/

namespace Cohesion

namespace Cluster

/-- Halve the places that may be the last one with no greater members than a key, as long as there
are several of them: those from a base on, of some number. -/
def halve (clusters : List Cluster) (key : List Nat) (base size : Nat) : Nat :=
  if 1 < size then
    match clusters[base + size / 2]? with
    | none => base
    | some probe =>
        halve clusters key (if key < probe.members then base else base + size / 2) (size - size / 2)
  else base
termination_by size

/-- Look for a member list in an ascending list of clusters: the place of the cluster that has it, or
else the place where a cluster with it belongs. -/
def search (clusters : List Cluster) (key : List Nat) : Except Nat Nat :=
  let base := halve clusters key 0 clusters.length
  match clusters[base]? with
  | none => .error 0
  | some found =>
      if found.members = key then .ok base
      else .error (if found.members < key then base + 1 else base)

section Search

variable {before after : List Cluster} {key : List Nat}
  (below : ∀ cluster ∈ before, cluster.members < key)
  (above : ∀ cluster ∈ after, key < cluster.members)

include below above

theorem probe_between {place : Nat} (bound : place < (before ++ after).length) :
    ∃ probe, (before ++ after)[place]? = some probe ∧
      (place < before.length → probe.members < key) ∧
      (before.length ≤ place → key < probe.members) := by
  refine ⟨_, List.getElem?_eq_getElem bound, fun inBefore => ?_, fun inAfter => ?_⟩
  · rw [List.getElem_append_left inBefore]
    exact below _ (List.getElem_mem inBefore)
  · rw [List.getElem_append_right inAfter]
    exact above _ (List.getElem_mem _)

/-- The halving ends at the last place in front of the key, or at the first one if there is none. -/
theorem halve_between {base size : Nat} (start : base ≤ before.length - 1)
    (reach : before.length - 1 < base + size) (inside : base + size ≤ (before ++ after).length) :
    halve (before ++ after) key base size = before.length - 1 := by
  induction size using Nat.strongRecOn generalizing base with
  | ind size induction =>
      rw [halve]
      split
      · have bound : base + size / 2 < (before ++ after).length := by omega
        obtain ⟨probe, found, less, greater⟩ := probe_between below above bound
        simp only [found]
        rcases Nat.lt_or_ge (base + size / 2) before.length with inBefore | inAfter
        · rw [if_neg (List.lt_asymm (less inBefore))]
          exact induction _ (by omega) (by omega) (by omega) (by omega)
        · rw [if_pos (greater inAfter)]
          exact induction _ (by omega) start (by omega) (by omega)
      · omega

theorem search_between : search (before ++ after) key = .error before.length := by
  unfold search
  rcases Nat.eq_zero_or_pos (before ++ after).length with empty | several
  · rw [List.length_eq_zero_iff] at empty
    rw [empty, (List.append_eq_nil_iff.mp empty).1]
    rfl
  · have bound : before.length - 1 < (before ++ after).length := by
      rw [List.length_append] at several ⊢
      omega
    have base := halve_between below above (Nat.zero_le _) (by simpa using bound)
      (Nat.le_of_eq (Nat.zero_add _))
    obtain ⟨probe, found, less, greater⟩ := probe_between below above bound
    simp only [base, found]
    rcases Nat.eq_zero_or_pos before.length with none_before | some_before
    · have more := greater (by omega)
      have differs : probe.members ≠ key := by
        intro same
        exact List.lt_irrefl _ (same ▸ more)
      rw [if_neg differs, if_neg (List.lt_asymm more), none_before]
    · have fewer := less (by omega)
      have differs : probe.members ≠ key := by
        intro same
        exact List.lt_irrefl _ (same ▸ fewer)
      rw [if_neg differs, if_pos fewer, Nat.sub_add_cancel some_before]

end Search

end Cluster

namespace Forest

variable {W : Type} {classes : NameSet} {forest : Forest W}

/-- The canonical state of the active clusters, with their order: by member lists, and alike by class
names and by first class names. -/
structure InOrder (classes : NameSet) (forest : Forest W) : Prop
    extends forest.Canonical classes where
  disjoint : forest.active.Pairwise fun left right => ∀ number ∈ left.members, number ∉ right.members
  lexicographic : forest.active.Pairwise fun left right => left.members < right.members
  by_names : ∀ first ∈ forest.active, ∀ second ∈ forest.active,
    (first.members < second.members ↔
      (forest.classesAt first.node).names < (forest.classesAt second.node).names)
  by_first_name : ∀ first ∈ forest.active, ∀ second ∈ forest.active,
    (first.members < second.members ↔
      Leads (forest.classesAt first.node).names (forest.classesAt second.node).names)

theorem Canonical.leads_names (canonical : forest.Canonical classes) {first second : Cluster}
    (firstActive : first ∈ forest.active) (secondActive : second ∈ forest.active)
    (leads : Leads first.members second.members) :
    Leads (forest.classesAt first.node).names (forest.classesAt second.node).names := by
  rw [canonical.named first firstActive, canonical.named second secondActive]
  apply leads.map
  intro number _ other member less
  exact NameSet.name_at_lt less (canonical.bounded secondActive other member)

theorem Canonical.leads_or_leads (canonical : forest.Canonical classes) {first second : Cluster}
    (firstActive : first ∈ forest.active) (secondActive : second ∈ forest.active) :
    first = second ∨ Leads first.members second.members ∨ Leads second.members first.members := by
  by_cases same : first = second
  · exact .inl same
  · rcases mem_pairs_or_swap firstActive secondActive same with pair | swapped
    · exact .inr (.inl (related_of_mem_pairs canonical.ordered pair))
    · exact .inr (.inr (related_of_mem_pairs canonical.ordered swapped))

theorem Canonical.less_iff (canonical : forest.Canonical classes)
    {before : List String → List String → Prop}
    (of_leads : ∀ {leading following}, Leads leading following → before leading following)
    (asymm : ∀ {leading following}, before leading following → ¬before following leading)
    {first second : Cluster} (firstActive : first ∈ forest.active)
    (secondActive : second ∈ forest.active) : first.members < second.members ↔
      before (forest.classesAt first.node).names (forest.classesAt second.node).names := by
  rcases canonical.leads_or_leads firstActive secondActive with rfl | leads | leads
  · exact iff_of_false (List.lt_irrefl _) fun own => asymm own own
  · exact iff_of_true leads.lt (of_leads (canonical.leads_names firstActive secondActive leads))
  · have behind := of_leads (canonical.leads_names secondActive firstActive leads)
    exact iff_of_false (List.lt_asymm leads.lt) (asymm behind)

theorem Canonical.in_order (canonical : forest.Canonical classes) : forest.InOrder classes := by
  refine { canonical with
    disjoint := canonical.disjoint
    lexicographic := canonical.ordered.imp Leads.lt
    by_names := ?_
    by_first_name := ?_ }
  · intro first firstActive second secondActive
    exact canonical.less_iff Leads.lt List.lt_asymm firstActive secondActive
  · intro first firstActive second secondActive
    exact canonical.less_iff id (fun leads behind => List.lt_asymm leads.lt behind.lt) firstActive
      secondActive

/-- The active clusters without those at two places, of which the later one is taken out first. -/
def others (forest : Forest W) (earlier later : Nat) : List Cluster :=
  (forest.active.eraseIdx later).eraseIdx earlier

theorem insert_between (cluster : Cluster) (before after : List Cluster) :
    (before ++ after).insertIdx before.length cluster = before ++ cluster :: after := by
  induction before with
  | nil => rfl
  | cons head rest induction =>
      rw [List.cons_append, List.length_cons, List.insertIdx_succ_cons, induction, List.cons_append]

variable [Weight W]

/-- What a round does to the list of active clusters. The strongest pair stands at two places inside
it, and taking out the later cluster leaves the earlier one at its place. A search for the joined
members among the others does not find them and ends at the place of the left cluster, where the
joined one is put. -/
structure Replaces (matrix : AffinityMatrix W) (forest next : Forest W) (left right : Cluster)
    (leftPlace rightPlace : Nat) (coupling : W) : Prop where
  found : strongestPair matrix forest.active =
    some (((left, leftPlace), (right, rightPlace)), coupling)
  apart : leftPlace < rightPlace
  inside : rightPlace < forest.active.length
  right_taken : forest.active[rightPlace]? = some right
  left_taken : (forest.active.eraseIdx rightPlace)[leftPlace]? = some left
  left_stood : forest.active[leftPlace]? = some left
  fresh : ∀ other ∈ forest.others leftPlace rightPlace,
    other.members ≠ left.joinedMembers right
  searched : Cluster.search (forest.others leftPlace rightPlace) (left.joinedMembers right) =
    .error leftPlace
  put : next.active = (forest.others leftPlace rightPlace).insertIdx leftPlace
    ⟨forest.nodes.size, left.joinedMembers right⟩

theorem replaces_of_found (canonical : forest.Canonical classes) {matrix : AffinityMatrix W}
    {left right : Cluster} {leftPlace rightPlace : Nat} {coupling : W}
    (found : strongestPair matrix forest.active =
      some (((left, leftPlace), (right, rightPlace)), coupling)) :
    forest.Replaces matrix (forest.mergeStrongest matrix) left right leftPlace rightPlace
      coupling := by
  obtain ⟨before, middle, after, split, rfl, rfl⟩ := strongest_pair_split found
  have others : forest.others before.length (before.length + 1 + middle.length) =
      before ++ (middle ++ after) := split.others_eq
  have below : ∀ other ∈ before, other.members < left.joinedMembers right :=
    fun other member => (split.before_leads_joined canonical member).lt
  have above : ∀ other ∈ middle ++ after, left.joinedMembers right < other.members :=
    fun other member => (split.joined_leads_after canonical member).lt
  have front : (before ++ left :: middle).length = before.length + 1 + middle.length := by
    rw [List.length_append, List.length_cons]
    omega
  have active : forest.active = (before ++ left :: middle) ++ right :: after := by
    rw [split.active, List.append_assoc, List.cons_append]
  constructor
  case found => exact found
  case apart => omega
  case inside =>
    rw [active, List.length_append, List.length_cons, front]
    omega
  case right_taken =>
    rw [active, ← front, List.getElem?_append_right (Nat.le_refl _), Nat.sub_self]
    rfl
  case left_taken =>
    rw [active, ← front, List.eraseIdx_append_of_length_le (Nat.le_refl _), Nat.sub_self,
      List.eraseIdx_cons_zero, List.append_assoc, List.getElem?_append_right (Nat.le_refl _),
      Nat.sub_self]
    rfl
  case left_stood =>
    rw [split.active, List.getElem?_append_right (Nat.le_refl _), Nat.sub_self]
    rfl
  case fresh =>
    intro other member same
    rw [others, List.mem_append] at member
    rcases member with inBefore | behind
    · exact List.lt_irrefl _ (same ▸ below other inBefore)
    · exact List.lt_irrefl _ (same ▸ above other behind)
  case searched =>
    rw [others]
    exact Cluster.search_between below above
  case put =>
    obtain ⟨leftActive, rightActive, joined⟩ := merge_strongest_eq found
    rw [joined, join]
    dsimp only
    rw [split.others_eq, split.placed_eq canonical, others, insert_between]

end Forest

variable {W : Type} [Weight W]

theorem Forest.merge_strongest_single {matrix : AffinityMatrix W} {forest : Forest W}
    (single : forest.active.length ≤ 1) : forest.mergeStrongest matrix = forest := by
  have none_listed : pairs forest.active.zipIdx = [] := by
    rw [pairs_eq_nil_iff, List.length_zipIdx]
    omega
  unfold mergeStrongest
  split
  · rfl
  · next found =>
      rw [strongestPair, none_listed] at found
      cases found

namespace CouplingGraph

theorem round_lt_of_several {graph : CouplingGraph W} {round : Nat}
    (several : 1 < (graph.forestAt round).active.length) : round < graph.classes.size - 1 := by
  by_contra late
  rw [not_lt] at late
  suffices single : (graph.forestAt round).active.length ≤ 1 by omega
  clear several
  induction round, late using Nat.le_induction with
  | base =>
      have length : (graph.forestAt (graph.classes.size - 1)).active.length =
        min 1 graph.classes.size := last_forest_active graph
      omega
  | succ round _ induction => rwa [forest_at_succ, Forest.merge_strongest_single induction]

end CouplingGraph

/-- As long as several clusters are active, they are in the order of their member lists, which is also
that of their class names and of their first class names, and the next round puts the joined cluster
in the place of the left one. -/
theorem active_clusters_in_order (graph : CouplingGraph W) {round : Nat}
    (several : 1 < (graph.forestAt round).active.length) : round < graph.classes.size - 1 ∧
    (graph.forestAt round).InOrder graph.classes ∧
      ∃ left right leftPlace rightPlace coupling, (graph.forestAt round).Replaces graph.matrix
        (graph.forestAt (round + 1)) left right leftPlace rightPlace coupling := by
  have bound := CouplingGraph.round_lt_of_several several
  obtain ⟨canonical, _⟩ := CouplingGraph.forest_at_canonical graph (Nat.le_of_lt bound)
  obtain ⟨left, right, leftPlace, rightPlace, coupling, found⟩ :=
    Forest.exists_strongest_pair graph.matrix several
  refine ⟨bound, canonical.in_order, left, right, leftPlace, rightPlace, coupling, ?_⟩
  rw [CouplingGraph.forest_at_succ]
  exact Forest.replaces_of_found canonical found

theorem partly_unknown_in_order : 1 < (partlyUnknown.forestAt 1).active.length ∧
    1 < partlyUnknown.classes.size - 1 ∧ (partlyUnknown.forestAt 1).InOrder partlyUnknown.classes ∧
      ∃ left right leftPlace rightPlace coupling, (partlyUnknown.forestAt 1).Replaces
        partlyUnknown.matrix (partlyUnknown.forestAt 2) left right leftPlace rightPlace coupling := by
  have several : 1 < (partlyUnknown.forestAt 1).active.length := by decide +kernel
  exact ⟨several, active_clusters_in_order partlyUnknown several⟩

end Cohesion
