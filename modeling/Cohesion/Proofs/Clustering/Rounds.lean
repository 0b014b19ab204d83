import Cohesion.Clustering.Forest
import Cohesion.Proofs.Clustering.Members
import Cohesion.Proofs.Pairs
import Cohesion.Proofs.Dendrogram.Ancestry
import Cohesion.Proofs.Names.Numbering

/-!
# The rounds of a clustering

In every round the active clusters divide the class numbers among them, stand in the order of their
first members, and are the nodes that have no parent yet. A round joins two of them and puts the new
cluster in the place of the left one.
-/

namespace Cohesion

variable {W : Type}

namespace Forest

structure Canonical (classes : NameSet) (forest : Forest W) : Prop where
  leaf_at : ∀ number < classes.size,
    forest.nodes[number]? = some (.leaf (classes.nameAt number))
  leaves_le : classes.size ≤ forest.nodes.size
  count : forest.nodes.size + forest.active.length = 2 * classes.size
  some_member : ∀ cluster ∈ forest.active, cluster.members ≠ []
  ascending : ∀ cluster ∈ forest.active, cluster.members.Pairwise (· < ·)
  covered : (forest.active.flatMap Cluster.members).Perm (List.range classes.size)
  ordered : forest.active.Pairwise fun left right => Leads left.members right.members
  named : ∀ cluster ∈ forest.active,
    (forest.classesAt cluster.node).names = cluster.members.map classes.nameAt
  distinct : (forest.active.map Cluster.node).Nodup
  parentless : ∀ id, forest.ActiveBefore forest.nodes.size id ↔
    id ∈ forest.active.map Cluster.node

theorem canonical_of_classes (classes : NameSet) :
    (ofClasses classes : Forest W).Canonical classes := by
  have size : (ofClasses classes : Forest W).nodes.size = classes.size := by
    simp [ofClasses, NameSet.size, NameSet.toList]
  have leaf : ∀ number < classes.size, (ofClasses classes : Forest W).nodes[number]? =
      some (.leaf (classes.nameAt number)) := by
    intro number bound
    simp [ofClasses, NameSet.toList, NameSet.names_get? bound]
  have clusters : ∀ cluster ∈ (ofClasses classes : Forest W).active,
      ∃ number < classes.size, cluster = ⟨number, [number]⟩ := by
    intro cluster member
    obtain ⟨number, bound, rfl⟩ := List.mem_map.mp member
    exact ⟨number, List.mem_range.mp bound, rfl⟩
  have places : (ofClasses classes : Forest W).active.map Cluster.node =
      List.range classes.size := by
    simp [ofClasses, Function.comp_def]
  constructor
  case leaf_at => exact leaf
  case leaves_le => exact Nat.le_of_eq size.symm
  case count =>
    have activeCount := congrArg List.length places
    rw [List.length_map, List.length_range] at activeCount
    omega
  case some_member =>
    intro cluster member
    obtain ⟨number, _, rfl⟩ := clusters cluster member
    exact List.cons_ne_nil _ _
  case ascending =>
    intro cluster member
    obtain ⟨number, _, rfl⟩ := clusters cluster member
    exact List.pairwise_singleton _ _
  case covered =>
    simp [ofClasses, List.flatMap_map]
  case ordered =>
    simp only [ofClasses, List.pairwise_map]
    exact List.pairwise_lt_range.imp fun {left right} less =>
      ⟨left, rfl, right, rfl, less⟩
  case named =>
    intro cluster member
    obtain ⟨number, bound, rfl⟩ := clusters cluster member
    rw [Arena.classes_at_stored (leaf number bound)]
    rfl
  case distinct =>
    rw [places]
    exact List.nodup_range
  case parentless =>
    intro id
    rw [places, List.mem_range, size]
    constructor
    · exact fun active => active.1
    · intro bound
      refine ⟨bound, fun parent parentBound => ?_⟩
      exact Arena.not_is_child_leaf (leaf parent parentBound)

section Members

variable {classes : NameSet} {forest : Forest W}

theorem Canonical.bounded (canonical : forest.Canonical classes) {cluster : Cluster}
    (active : cluster ∈ forest.active) : ∀ number ∈ cluster.members, number < classes.size := by
  intro number member
  have listed : number ∈ forest.active.flatMap Cluster.members :=
    List.mem_flatMap.mpr ⟨cluster, active, member⟩
  exact List.mem_range.mp (canonical.covered.mem_iff.mp listed)

theorem Canonical.disjoint (canonical : forest.Canonical classes) :
    forest.active.Pairwise fun left right => ∀ number ∈ left.members, number ∉ right.members := by
  have unique : (forest.active.flatMap Cluster.members).Pairwise (· ≠ ·) :=
    canonical.covered.nodup_iff.mpr List.nodup_range
  apply (List.pairwise_flatMap.mp unique).2.imp
  intro left right apart number inLeft inRight
  exact apart number inLeft number inRight rfl

end Members

/-- Removing the later of two clusters first keeps the position of the earlier one. -/
theorem erase_both {before middle after : List Cluster} {left right : Cluster} :
    ((before ++ left :: middle ++ right :: after).eraseIdx
      (before.length + 1 + middle.length)).eraseIdx before.length =
        before ++ (middle ++ after) := by
  have front : (before ++ left :: middle).length = before.length + 1 + middle.length := by
    simp only [List.length_append, List.length_cons]
    omega
  rw [List.eraseIdx_append_of_length_le (Nat.le_of_eq front), front, Nat.sub_self,
    List.eraseIdx_cons_zero, List.append_assoc,
    List.eraseIdx_append_of_length_le (Nat.le_refl _), Nat.sub_self, List.cons_append,
    List.eraseIdx_cons_zero]

theorem classes_of_eq {forest : Forest W} {cluster : Cluster} (active : cluster ∈ forest.active) :
    forest.classesOf cluster active = forest.classesAt cluster.node := by
  have bound := forest.node_lt cluster active
  rw [Arena.classesAt, Array.getElem?_eq_getElem bound]
  rfl

/-- Two active clusters with what stands before, between and behind them. -/
structure Split (forest : Forest W) (before : List Cluster) (left : Cluster)
    (middle : List Cluster) (right : Cluster) (after : List Cluster) : Prop where
  active : forest.active = before ++ left :: (middle ++ right :: after)

namespace Split

variable {classes : NameSet} {forest : Forest W} {before middle after : List Cluster}
  {left right : Cluster}

theorem left_active (split : forest.Split before left middle right after) :
    left ∈ forest.active := by
  rw [split.active]
  exact List.mem_append_right _ List.mem_cons_self

theorem right_active (split : forest.Split before left middle right after) :
    right ∈ forest.active := by
  rw [split.active]
  exact List.mem_append_right _ (List.mem_cons_of_mem _
    (List.mem_append_right _ List.mem_cons_self))

theorem related {relation : Cluster → Cluster → Prop}
    (split : forest.Split before left middle right after)
    (pairwise : forest.active.Pairwise relation) :
    relation left right ∧ (∀ other ∈ before, relation other left ∧ relation other right) ∧
      (∀ other ∈ middle, relation left other) ∧ ∀ other ∈ after, relation left other := by
  rw [split.active, List.pairwise_append, List.pairwise_cons] at pairwise
  obtain ⟨_, ⟨fromLeft, _⟩, across⟩ := pairwise
  have rightLater : right ∈ middle ++ right :: after :=
    List.mem_append_right _ List.mem_cons_self
  refine ⟨fromLeft right rightLater, fun other member => ⟨?_, ?_⟩, fun other member => ?_,
    fun other member => ?_⟩
  · exact across other member left List.mem_cons_self
  · exact across other member right (List.mem_cons_of_mem _ rightLater)
  · exact fromLeft other (List.mem_append_left _ member)
  · exact fromLeft other (List.mem_append_right _ (List.mem_cons_of_mem _ member))

theorem active_perm (split : forest.Split before left middle right after) :
    forest.active.Perm (left :: right :: (before ++ (middle ++ after))) := by
  rw [split.active]
  refine List.perm_middle.trans (List.Perm.cons left ?_)
  rw [← List.append_assoc, ← List.append_assoc]
  exact List.perm_middle

theorem leads (split : forest.Split before left middle right after)
    (canonical : forest.Canonical classes) : Leads left.members right.members :=
  (split.related canonical.ordered).1

theorem not_shared (split : forest.Split before left middle right after)
    (canonical : forest.Canonical classes) : ∀ number ∈ right.members, number ∉ left.members := by
  intro number inRight inLeft
  exact (split.related canonical.disjoint).1 number inLeft inRight

theorem joined_ascending (split : forest.Split before left middle right after)
    (canonical : forest.Canonical classes) : (left.joinedMembers right).Pairwise (· < ·) :=
  Cluster.joined_members_ascending (canonical.ascending left split.left_active)
    (canonical.ascending right split.right_active) (split.not_shared canonical)

theorem joined_head (split : forest.Split before left middle right after)
    (canonical : forest.Canonical classes) :
    (left.joinedMembers right).head? = left.members.head? :=
  Cluster.joined_members_head (canonical.ascending left split.left_active)
    (canonical.ascending right split.right_active) (split.not_shared canonical)
    (split.leads canonical)

theorem before_leads_joined (split : forest.Split before left middle right after)
    (canonical : forest.Canonical classes) {other : Cluster} (member : other ∈ before) :
    Leads other.members (left.joinedMembers right) := by
  have leadsLeft := ((split.related canonical.ordered).2.1 other member).1
  rwa [Leads, ← split.joined_head canonical] at leadsLeft

theorem joined_leads_after (split : forest.Split before left middle right after)
    (canonical : forest.Canonical classes) {other : Cluster} (member : other ∈ middle ++ after) :
    Leads (left.joinedMembers right) other.members := by
  obtain ⟨_, _, leadsMiddle, leadsAfter⟩ := split.related canonical.ordered
  have leftLeads : Leads left.members other.members :=
    (List.mem_append.mp member).elim (leadsMiddle other) (leadsAfter other)
  rwa [Leads, ← split.joined_head canonical] at leftLeads

theorem others_eq (split : forest.Split before left middle right after) :
    (forest.active.eraseIdx (before.length + 1 + middle.length)).eraseIdx before.length =
      before ++ (middle ++ after) := by
  rw [split.active, ← List.cons_append, ← List.append_assoc]
  exact erase_both

theorem placed_eq (split : forest.Split before left middle right after)
    (canonical : forest.Canonical classes) (node : Nat) :
    Cluster.place ⟨node, left.joinedMembers right⟩ (before ++ (middle ++ after)) =
      before ++ ⟨node, left.joinedMembers right⟩ :: (middle ++ after) :=
  Cluster.place_between (fun _ member => split.before_leads_joined canonical member)
    (fun _ member => split.joined_leads_after canonical member)

end Split

variable [Weight W]

/-- One round takes the strongest pair of active clusters, gives them a common parent, and puts the
joined cluster where the left one stood. -/
structure Joins (matrix : AffinityMatrix W) (forest next : Forest W) (before : List Cluster)
    (left : Cluster) (middle : List Cluster) (right : Cluster) (after : List Cluster)
    (coupling : W) : Prop extends forest.Split before left middle right after where
  found : ∃ leftPosition rightPosition, strongestPair matrix forest.active =
    some (((left, leftPosition), (right, rightPosition)), coupling)
  pushed : ∃ known, next.toArena = forest.toArena.push (.merged left.node right.node coupling
    ((forest.classesAt left.node).union (forest.classesAt right.node))) known
  replaced : next.active =
    before ++ ⟨forest.nodes.size, left.joinedMembers right⟩ :: (middle ++ after)

theorem merge_strongest_eq {matrix : AffinityMatrix W} {forest : Forest W}
    {left right : Cluster × Nat} {coupling : W}
    (found : strongestPair matrix forest.active = some ((left, right), coupling)) :
    ∃ leftActive rightActive, forest.mergeStrongest matrix =
      forest.join left.1 right.1 left.2 right.2 coupling leftActive rightActive := by
  have both := strongest_pair_active found
  refine ⟨both.1, both.2, ?_⟩
  unfold mergeStrongest
  split
  · next none_found =>
      rw [found] at none_found
      cases none_found
  · next result =>
      rw [found] at result
      cases result
      rfl

theorem exists_strongest_pair (matrix : AffinityMatrix W) {forest : Forest W}
    (several : 2 ≤ forest.active.length) : ∃ left right leftPlace rightPlace coupling,
      strongestPair matrix forest.active =
        some (((left, leftPlace), (right, rightPlace)), coupling) := by
  have nonempty : pairs forest.active.zipIdx ≠ [] := by
    rw [Ne, pairs_eq_nil_iff, List.length_zipIdx]
    omega
  obtain ⟨⟨⟨⟨left, leftPlace⟩, right, rightPlace⟩, coupling⟩, found⟩ :=
    first_strongest_some (fun (pair : (Cluster × Nat) × (Cluster × Nat)) =>
      matrix.between pair.1.1.members pair.2.1.members) nonempty
  exact ⟨left, right, leftPlace, rightPlace, coupling, found⟩

theorem strongest_pair_split {matrix : AffinityMatrix W} {forest : Forest W}
    {left right : Cluster} {leftPlace rightPlace : Nat} {coupling : W}
    (found : strongestPair matrix forest.active =
      some (((left, leftPlace), (right, rightPlace)), coupling)) :
    ∃ before middle after, forest.Split before left middle right after ∧
      leftPlace = before.length ∧ rightPlace = before.length + 1 + middle.length := by
  obtain ⟨front, middle, back, listed⟩ := mem_pairs_iff.mp (first_strongest_mem found)
  obtain ⟨active, leftStands, rightStands⟩ := zip_idx_split listed
  dsimp only at active leftStands rightStands
  refine ⟨front.map Prod.fst, middle.map Prod.fst, back.map Prod.fst, ⟨?_⟩, ?_, ?_⟩
  · rw [active, List.append_assoc, List.cons_append]
  · rw [leftStands, List.length_map]
  · rw [rightStands, List.length_map, List.length_map]

theorem merge_strongest_joins {classes : NameSet} {forest : Forest W}
    (canonical : forest.Canonical classes) (matrix : AffinityMatrix W)
    (several : 2 ≤ forest.active.length) :
    ∃ before left middle right after coupling, forest.Joins matrix (forest.mergeStrongest matrix)
      before left middle right after coupling := by
  obtain ⟨left, right, leftPlace, rightPlace, coupling, strongest⟩ :=
    exists_strongest_pair matrix several
  obtain ⟨before, middle, after, split, leftStands, rightStands⟩ := strongest_pair_split strongest
  obtain ⟨leftActive, rightActive, joined⟩ := merge_strongest_eq strongest
  refine ⟨before, left, middle, right, after, coupling, split, ⟨_, _, strongest⟩, ?_, ?_⟩
  · rw [joined]
    refine ⟨fun child member => ?_, by simp only [join, classes_of_eq]⟩
    have leftBound := forest.node_lt left leftActive
    have rightBound := forest.node_lt right rightActive
    simp only [Node.children, List.mem_cons, List.not_mem_nil, or_false] at member
    rcases member with rfl | rfl
    · exact leftBound
    · exact rightBound
  · rw [joined]
    simp only [join]
    rw [leftStands, rightStands, split.others_eq, split.placed_eq canonical]

namespace Joins

variable {classes : NameSet} {matrix : AffinityMatrix W} {forest next : Forest W}
  {before middle after : List Cluster} {left right : Cluster} {coupling : W}

theorem continues (joins : forest.Joins matrix next before left middle right after coupling) :
    next.Continues forest.toArena := by
  obtain ⟨known, pushed⟩ := joins.pushed
  rw [pushed]
  exact forest.continues_push _ known

theorem next_size (joins : forest.Joins matrix next before left middle right after coupling) :
    next.nodes.size = forest.nodes.size + 1 := by
  obtain ⟨known, pushed⟩ := joins.pushed
  rw [pushed, Arena.nodes_push, Array.size_push]

theorem stored (joins : forest.Joins matrix next before left middle right after coupling) :
    next.nodes[forest.nodes.size]? = some (.merged left.node right.node coupling
      ((forest.classesAt left.node).union (forest.classesAt right.node))) := by
  obtain ⟨known, pushed⟩ := joins.pushed
  rw [pushed, Arena.nodes_push, Array.getElem?_push_size]

theorem next_perm (joins : forest.Joins matrix next before left middle right after coupling) :
    next.active.Perm
      (⟨forest.nodes.size, left.joinedMembers right⟩ :: (before ++ (middle ++ after))) := by
  rw [joins.replaced]
  exact List.perm_middle

theorem active_length (joins : forest.Joins matrix next before left middle right after coupling) :
    next.active.length + 1 = forest.active.length := by
  rw [joins.next_perm.length_eq, joins.active_perm.length_eq]
  rfl

theorem active_cases (joins : forest.Joins matrix next before left middle right after coupling)
    {cluster : Cluster} (active : cluster ∈ next.active) :
    cluster = ⟨forest.nodes.size, left.joinedMembers right⟩ ∨ cluster ∈ forest.active := by
  rcases List.mem_cons.mp (joins.next_perm.mem_iff.mp active) with same | other
  · exact .inl same
  · exact .inr (joins.active_perm.mem_iff.mpr
      (List.mem_cons_of_mem _ (List.mem_cons_of_mem _ other)))

theorem covered (joins : forest.Joins matrix next before left middle right after coupling)
    (canonical : forest.Canonical classes) :
    (next.active.flatMap Cluster.members).Perm (List.range classes.size) := by
  have before_round := joins.active_perm.flatMap_right Cluster.members
  have after_round := joins.next_perm.flatMap_right Cluster.members
  rw [List.flatMap_cons, List.flatMap_cons, ← List.append_assoc] at before_round
  rw [List.flatMap_cons] at after_round
  have joined := (Cluster.joined_members_perm left right).append_right
    ((before ++ (middle ++ after)).flatMap Cluster.members)
  exact after_round.trans (joined.trans (before_round.symm.trans canonical.covered))

theorem ordered (joins : forest.Joins matrix next before left middle right after coupling)
    (canonical : forest.Canonical classes) :
    next.active.Pairwise fun first second => Leads first.members second.members := by
  have all := canonical.ordered
  rw [joins.active, List.pairwise_append, List.pairwise_cons] at all
  obtain ⟨inBefore, ⟨_, behind⟩, across⟩ := all
  rw [joins.replaced, List.pairwise_append, List.pairwise_cons]
  refine ⟨inBefore, ⟨fun other member => joins.joined_leads_after canonical member, ?_⟩, ?_⟩
  · exact behind.sublist ((List.sublist_cons_self right after).append_left middle)
  · intro first member second later
    rcases List.mem_cons.mp later with same | further
    · exact same ▸ joins.before_leads_joined canonical member
    · refine across first member second (List.mem_cons_of_mem _ ?_)
      rcases List.mem_append.mp further with inMiddle | inAfter
      · exact List.mem_append_left _ inMiddle
      · exact List.mem_append_right _ (List.mem_cons_of_mem _ inAfter)

theorem mem_joined_bounded
    (joins : forest.Joins matrix next before left middle right after coupling)
    (canonical : forest.Canonical classes) :
    ∀ number ∈ left.joinedMembers right, number < classes.size := by
  intro number member
  rcases Cluster.mem_joined_members.mp member with inLeft | inRight
  · exact canonical.bounded joins.left_active number inLeft
  · exact canonical.bounded joins.right_active number inRight

theorem joined_named (joins : forest.Joins matrix next before left middle right after coupling)
    (canonical : forest.Canonical classes) :
    (next.classesAt forest.nodes.size).names =
      (left.joinedMembers right).map classes.nameAt := by
  rw [Arena.classes_at_stored joins.stored]
  have bounded := joins.mem_joined_bounded canonical
  refine NameSet.names_eq_of_ascending
    (NameSet.map_name_at_ascending (joins.joined_ascending canonical) bounded) fun name => ?_
  rw [((Cluster.joined_members_perm left right).map classes.nameAt).mem_iff, List.map_append,
    List.mem_append, Node.classes, NameSet.mem_union, NameSet.mem_iff, NameSet.mem_iff,
    canonical.named left joins.left_active, canonical.named right joins.right_active]

theorem named (joins : forest.Joins matrix next before left middle right after coupling)
    (canonical : forest.Canonical classes) {cluster : Cluster} (active : cluster ∈ next.active) :
    (next.classesAt cluster.node).names = cluster.members.map classes.nameAt := by
  rcases joins.active_cases active with rfl | earlier
  · exact joins.joined_named canonical
  · rw [joins.continues.classes_at (forest.node_lt cluster earlier)]
    exact canonical.named cluster earlier

theorem distinct (joins : forest.Joins matrix next before left middle right after coupling)
    (canonical : forest.Canonical classes) : (next.active.map Cluster.node).Nodup := by
  have unique := canonical.distinct
  rw [(joins.active_perm.map Cluster.node).nodup_iff, List.map_cons, List.map_cons] at unique
  rw [(joins.next_perm.map Cluster.node).nodup_iff, List.map_cons, List.nodup_cons]
  refine ⟨fun member => ?_, (List.nodup_cons.mp (List.nodup_cons.mp unique).2).2⟩
  obtain ⟨cluster, other, same⟩ := List.mem_map.mp member
  have active : cluster ∈ forest.active := joins.active_perm.mem_iff.mpr
    (List.mem_cons_of_mem _ (List.mem_cons_of_mem _ other))
  have bound := forest.node_lt cluster active
  rw [same] at bound
  exact Nat.lt_irrefl _ bound

theorem parentless (joins : forest.Joins matrix next before left middle right after coupling)
    (canonical : forest.Canonical classes) (id : Nat) :
    next.ActiveBefore next.nodes.size id ↔ id ∈ next.active.map Cluster.node := by
  have unique := canonical.distinct
  rw [(joins.active_perm.map Cluster.node).nodup_iff, List.map_cons, List.map_cons,
    List.nodup_cons, List.nodup_cons, List.mem_cons, not_or] at unique
  obtain ⟨⟨_, leftTaken⟩, rightTaken, _⟩ := unique
  obtain ⟨known, pushed⟩ := joins.pushed
  rw [joins.next_size, pushed, Arena.active_before_push, canonical.parentless,
    (joins.active_perm.map Cluster.node).mem_iff, (joins.next_perm.map Cluster.node).mem_iff]
  simp only [List.map_cons, List.mem_cons, Node.children, List.not_mem_nil, or_false, not_or]
  refine or_congr_right ⟨?_, fun other => ⟨.inr (.inr other), ?_, ?_⟩⟩
  · rintro ⟨same | same | other, notLeft, notRight⟩
    · exact absurd same notLeft
    · exact absurd same notRight
    · exact other
  · rintro rfl
    exact leftTaken other
  · rintro rfl
    exact rightTaken other

theorem canonical (joins : forest.Joins matrix next before left middle right after coupling)
    (previous : forest.Canonical classes) : next.Canonical classes := by
  have size := joins.next_size
  constructor
  case leaf_at =>
    intro number bound
    rw [joins.continues number (Nat.lt_of_lt_of_le bound previous.leaves_le)]
    exact previous.leaf_at number bound
  case leaves_le =>
    rw [size]
    exact Nat.le_succ_of_le previous.leaves_le
  case count =>
    have count := previous.count
    have length := joins.active_length
    omega
  case some_member =>
    intro cluster active
    rcases joins.active_cases active with rfl | earlier
    · have leftSome := previous.some_member left joins.left_active
      intro none_joined
      have head := joins.joined_head previous
      dsimp only at none_joined
      rw [none_joined, List.head?_nil] at head
      exact leftSome (List.head?_eq_none_iff.mp head.symm)
    · exact previous.some_member cluster earlier
  case ascending =>
    intro cluster active
    rcases joins.active_cases active with rfl | earlier
    · exact joins.joined_ascending previous
    · exact previous.ascending cluster earlier
  case covered => exact joins.covered previous
  case ordered => exact joins.ordered previous
  case named => exact fun cluster active => joins.named previous active
  case distinct => exact joins.distinct previous
  case parentless => exact joins.parentless previous

end Joins

end Forest

end Cohesion
