import Cohesion.Proofs.Clustering.Cells
import Cohesion.Proofs.Clustering.Shape
import Cohesion.Proofs.Coupling.Shares

/-!
# Every merge is the greedy one

When no coupling of active nodes fails to be a number, each merged node joins the active pair of
greatest coupling, and among equals the pair that comes first in the order of class names.
-/

namespace Cohesion

variable {W : Type}

namespace Arena

def Smaller (arena : Arena W) (first second : Nat) : Prop :=
  (arena.classesAt first).names < (arena.classesAt second).names

instance (arena : Arena W) (first second : Nat) : Decidable (arena.Smaller first second) :=
  inferInstanceAs (Decidable (_ < _))

theorem Smaller.asymm {arena : Arena W} {first second : Nat}
    (smaller : arena.Smaller first second) : ¬arena.Smaller second first :=
  List.lt_asymm smaller

instance (arena : Arena W) : Std.Asymm arena.Smaller := ⟨fun _ _ smaller => smaller.asymm⟩

def couplingOf [Weight W] (arena : Arena W) (affinity : Affinity W) (first second : Nat) : W :=
  affinity.between (arena.classesAt first) (arena.classesAt second)

structure Greedy [Weight W] (arena : Arena W) (affinity : Affinity W) (id left right : Nat)
    (coupling : W) : Prop where
  left_active : arena.ActiveBefore id left
  right_active : arena.ActiveBefore id right
  comparable : ∀ first second, arena.ActiveBefore id first → arena.ActiveBefore id second →
    first ≠ second → arena.Smaller first second ∨ arena.Smaller second first
  ordered : arena.Smaller left right
  coupling_eq : coupling = arena.couplingOf affinity left right
  strongest : ∀ first second, arena.ActiveBefore id first → arena.ActiveBefore id second →
    arena.Smaller first second →
    Weight.exceeds (arena.couplingOf affinity first second) coupling = false
  first_of_equals : ∀ first second, arena.ActiveBefore id first → arena.ActiveBefore id second →
    arena.Smaller first second →
    Weight.exceeds coupling (arena.couplingOf affinity first second) = false →
    (first, second) = (left, right) ∨ PairBefore arena.Smaller (left, right) (first, second)

def NumericAt [Weight W] [OrderedWeight W] (arena : Arena W) (affinity : Affinity W) (id : Nat) :
    Prop :=
  ∀ first second, arena.ActiveBefore id first → arena.ActiveBefore id second →
    arena.Smaller first second → OrderedWeight.isNumber (arena.couplingOf affinity first second)

end Arena

namespace Origin

variable [Weight W] {graph : CouplingGraph W} {arena : Arena W} {forest : Forest W}
  {before middle after : List Cluster} {left right : Cluster} {coupling : W}

theorem smaller_of_leads
    (origin : Origin graph arena forest before left middle right after coupling)
    {first second : Cluster} (firstActive : first ∈ forest.active)
    (secondActive : second ∈ forest.active) (leads : Leads first.members second.members) :
    arena.Smaller first.node second.node :=
  (origin.leads_of_members firstActive secondActive leads).lt

theorem smaller_or_smaller
    (origin : Origin graph arena forest before left middle right after coupling)
    {first second : Cluster} (firstActive : first ∈ forest.active)
    (secondActive : second ∈ forest.active) (differs : first ≠ second) :
    arena.Smaller first.node second.node ∨ arena.Smaller second.node first.node := by
  have ordered := origin.canonical.ordered
  rcases mem_pairs_or_swap firstActive secondActive differs with pair | swapped
  · exact .inl (origin.smaller_of_leads firstActive secondActive
      (related_of_mem_pairs ordered pair))
  · exact .inr (origin.smaller_of_leads secondActive firstActive
      (related_of_mem_pairs ordered swapped))

theorem reads_names (origin : Origin graph arena forest before left middle right after coupling)
    {first second : Cluster} (firstActive : first ∈ forest.active)
    (secondActive : second ∈ forest.active) :
    graph.matrix.ReadsNames (Affinity.ofGraph graph) first.members second.members
      (arena.classesAt first.node) (arena.classesAt second.node) :=
  AffinityMatrix.reads_names_of_affinity _ (origin.canonical.bounded firstActive)
    (origin.canonical.bounded secondActive) (origin.named firstActive) (origin.named secondActive)

theorem between_eq (origin : Origin graph arena forest before left middle right after coupling)
    {first second : Cluster} (firstActive : first ∈ forest.active)
    (secondActive : second ∈ forest.active) :
    graph.matrix.between first.members second.members =
      arena.couplingOf (Affinity.ofGraph graph) first.node second.node :=
  (origin.reads_names firstActive secondActive).between_eq

theorem coupling_eq (origin : Origin graph arena forest before left middle right after coupling) :
    coupling = arena.couplingOf (Affinity.ofGraph graph) left.node right.node := by
  obtain ⟨_, _, found⟩ := origin.found
  rw [← origin.between_eq origin.left_active origin.right_active]
  exact first_strongest_strength found

theorem zip_idx_ordered
    (origin : Origin graph arena forest before left middle right after coupling) :
    forest.active.zipIdx.Pairwise fun one other => Leads one.1.members other.1.members := by
  rw [← List.pairwise_map (f := Prod.fst) (R := fun one other : Cluster =>
    Leads one.members other.members), List.zipIdx_map_fst]
  exact origin.canonical.ordered

theorem scanned_pair
    (origin : Origin graph arena forest before left middle right after coupling)
    {pair : (Cluster × Nat) × (Cluster × Nat)} (member : pair ∈ pairs forest.active.zipIdx) :
    pair.1.1 ∈ forest.active ∧ pair.2.1 ∈ forest.active ∧
      arena.Smaller pair.1.1.node pair.2.1.node := by
  have both := mem_of_mem_pairs member
  have oneActive := List.fst_mem_of_mem_zipIdx both.1
  have otherActive := List.fst_mem_of_mem_zipIdx both.2
  exact ⟨oneActive, otherActive, origin.smaller_of_leads oneActive otherActive
    (related_of_mem_pairs origin.zip_idx_ordered member)⟩

/-- Every pair of active clusters in the order of their names is scanned. -/
theorem mem_pairs_of_smaller
    (origin : Origin graph arena forest before left middle right after coupling)
    {first second : Cluster} (firstActive : first ∈ forest.active)
    (secondActive : second ∈ forest.active) (smaller : arena.Smaller first.node second.node) :
    ∃ firstPosition secondPosition,
      ((first, firstPosition), (second, secondPosition)) ∈ pairs forest.active.zipIdx := by
  obtain ⟨firstPosition, firstListed⟩ := List.mem_iff_getElem?.mp firstActive
  obtain ⟨secondPosition, secondListed⟩ := List.mem_iff_getElem?.mp secondActive
  have differs : (first, firstPosition) ≠ (second, secondPosition) := by
    intro same
    cases same
    exact smaller.asymm smaller
  refine ⟨firstPosition, secondPosition, ?_⟩
  rcases mem_pairs_or_swap (List.mk_mem_zipIdx_iff_getElem?.mpr firstListed)
    (List.mk_mem_zipIdx_iff_getElem?.mpr secondListed) differs with pair | swapped
  · exact pair
  · exact absurd smaller (origin.smaller_of_leads secondActive firstActive
      (related_of_mem_pairs origin.zip_idx_ordered swapped)).asymm

variable [OrderedWeight W]

theorem pairs_numeric
    (origin : Origin graph arena forest before left middle right after coupling)
    (numeric : arena.NumericAt (Affinity.ofGraph graph) forest.nodes.size) :
    ∀ pair ∈ pairs forest.active.zipIdx,
      OrderedWeight.isNumber (graph.matrix.between pair.1.1.members pair.2.1.members) := by
  intro pair member
  obtain ⟨oneActive, otherActive, smaller⟩ := origin.scanned_pair member
  rw [origin.between_eq oneActive otherActive]
  apply numeric _ _ _ _ smaller
  · exact (origin.active_before _).mpr ⟨_, oneActive, rfl⟩
  · exact (origin.active_before _).mpr ⟨_, otherActive, rfl⟩

/-- The pair that a round takes, compared with any other pair of active clusters. -/
theorem strongest_first
    (origin : Origin graph arena forest before left middle right after coupling)
    (numeric : arena.NumericAt (Affinity.ofGraph graph) forest.nodes.size)
    {first second : Cluster} (firstActive : first ∈ forest.active)
    (secondActive : second ∈ forest.active) (smaller : arena.Smaller first.node second.node) :
    Weight.exceeds (arena.couplingOf (Affinity.ofGraph graph) first.node second.node) coupling =
        false ∧
      (Weight.exceeds coupling
        (arena.couplingOf (Affinity.ofGraph graph) first.node second.node) = false →
        (first.node, second.node) = (left.node, right.node) ∨
          PairBefore arena.Smaller (left.node, right.node) (first.node, second.node)) := by
  obtain ⟨leftPosition, rightPosition, found⟩ := origin.found
  obtain ⟨firstPosition, secondPosition, member⟩ :=
    origin.mem_pairs_of_smaller firstActive secondActive smaller
  have compared := first_strongest_first (origin.pairs_numeric numeric)
    (pairs_ordered origin.zip_idx_ordered) found member
  rw [origin.between_eq firstActive secondActive] at compared
  refine ⟨compared.1, fun reaches => ?_⟩
  rcases compared.2 reaches with same | leftLeads | ⟨sameLeft, rightLeads⟩
  · cases same
    exact .inl rfl
  · exact .inr (.inl (origin.smaller_of_leads origin.left_active firstActive leftLeads))
  · cases sameLeft
    exact .inr (.inr ⟨rfl, origin.smaller_of_leads origin.right_active secondActive rightLeads⟩)

theorem greedy (origin : Origin graph arena forest before left middle right after coupling)
    (numeric : arena.NumericAt (Affinity.ofGraph graph) forest.nodes.size) :
    arena.Greedy (Affinity.ofGraph graph) forest.nodes.size left.node right.node coupling := by
  have joint := origin.joint
  refine ⟨joint.left_active, joint.right_active, ?_, joint.leads.lt, origin.coupling_eq, ?_, ?_⟩
  · intro first second firstBefore secondBefore differs
    obtain ⟨firstCluster, firstActive, rfl⟩ := (origin.active_before first).mp firstBefore
    obtain ⟨secondCluster, secondActive, rfl⟩ := (origin.active_before second).mp secondBefore
    exact origin.smaller_or_smaller firstActive secondActive fun same => differs (same ▸ rfl)
  · intro first second firstBefore secondBefore smaller
    obtain ⟨firstCluster, firstActive, rfl⟩ := (origin.active_before first).mp firstBefore
    obtain ⟨secondCluster, secondActive, rfl⟩ := (origin.active_before second).mp secondBefore
    exact (origin.strongest_first numeric firstActive secondActive smaller).1
  · intro first second firstBefore secondBefore smaller reaches
    obtain ⟨firstCluster, firstActive, rfl⟩ := (origin.active_before first).mp firstBefore
    obtain ⟨secondCluster, secondActive, rfl⟩ := (origin.active_before second).mp secondBefore
    exact (origin.strongest_first numeric firstActive secondActive smaller).2 reaches

end Origin

section Clustered

variable [Weight W] {graph : CouplingGraph W} {dendrogram : Dendrogram W}

/-- The round in which a merged node was made. -/
theorem origin_of_stored (clustered : graph.cluster? = some dendrogram) {id left right : Nat}
    {coupling : W} {joined : NameSet}
    (stored : dendrogram.nodes[id]? = some (.merged left right coupling joined)) :
    ∃ forest before one middle other after, forest.nodes.size = id ∧ one.node = left ∧
      other.node = right ∧
      Origin graph dendrogram.toArena forest before one middle other after coupling := by
  have behindLeaves := (cluster_grown clustered).behind_leaves stored
  obtain ⟨forest, before, one, middle, other, after, _, rfl, origin⟩ :=
    origin_of_merged clustered behindLeaves (Arena.lt_of_stored stored)
  rw [origin.stored] at stored
  cases stored
  exact ⟨forest, before, one, middle, other, after, rfl, rfl, rfl, origin⟩

theorem coupling_of_merged (clustered : graph.cluster? = some dendrogram) {id left right : Nat}
    {coupling : W} {joined : NameSet}
    (stored : dendrogram.nodes[id]? = some (.merged left right coupling joined)) :
    coupling = dendrogram.couplingOf (Affinity.ofGraph graph) left right := by
  obtain ⟨_, _, _, _, _, _, rfl, rfl, rfl, origin⟩ := origin_of_stored clustered stored
  exact origin.coupling_eq

theorem merged_greedy [OrderedWeight W] (clustered : graph.cluster? = some dendrogram)
    {id left right : Nat} {coupling : W} {joined : NameSet}
    (stored : dendrogram.nodes[id]? = some (.merged left right coupling joined))
    (numeric : dendrogram.NumericAt (Affinity.ofGraph graph) id) :
    dendrogram.Greedy (Affinity.ofGraph graph) id left right coupling := by
  obtain ⟨_, _, _, _, _, _, rfl, rfl, rfl, origin⟩ := origin_of_stored clustered stored
  exact origin.greedy numeric

end Clustered

/-- No coupling that is compared while a dendrogram grows fails to be a number. -/
def Dendrogram.Numeric [Weight W] [OrderedWeight W] (dendrogram : Dendrogram W)
    (affinity : Affinity W) : Prop :=
  ∀ id < dendrogram.nodes.size, dendrogram.NumericAt affinity id

/-- A merged node joins two active nodes whose coupling is the greatest one of all pairs of active
nodes, and that come first in the order of names among the pairs with this coupling. -/
structure Arena.JoinsStrongest (arena : Arena Float) (affinity : Affinity Float)
    (id left right : Nat) (coupling : Float) : Prop where
  left_active : arena.ActiveBefore id left
  right_active : arena.ActiveBefore id right
  comparable : ∀ first second, arena.ActiveBefore id first → arena.ActiveBefore id second →
    first ≠ second → arena.Smaller first second ∨ arena.Smaller second first
  ordered : arena.Smaller left right
  coupling_eq : coupling = arena.couplingOf affinity left right
  greatest : ∀ first second, arena.ActiveBefore id first → arena.ActiveBefore id second →
    arena.Smaller first second → arena.couplingOf affinity first second ≤ coupling
  first_of_equals : ∀ first second, arena.ActiveBefore id first → arena.ActiveBefore id second →
    arena.Smaller first second → coupling ≤ arena.couplingOf affinity first second →
    (first, second) = (left, right) ∨ PairBefore arena.Smaller (left, right) (first, second)

/-- On doubles that are numbers, not to be exceeded is to be at most as great. -/
theorem Arena.Greedy.joins_strongest {arena : Arena Float} {affinity : Affinity Float}
    {id left right : Nat} {coupling : Float}
    (greedy : arena.Greedy affinity id left right coupling)
    (numeric : arena.NumericAt affinity id) :
    arena.JoinsStrongest affinity id left right coupling := by
  have couplingNumber : coupling.isNaN = false := by
    rw [greedy.coupling_eq]
    exact numeric _ _ greedy.left_active greedy.right_active greedy.ordered
  refine ⟨greedy.left_active, greedy.right_active, greedy.comparable, greedy.ordered,
    greedy.coupling_eq, ?_, ?_⟩
  · intro first second firstActive secondActive smaller
    have number := numeric _ _ firstActive secondActive smaller
    exact (float_not_lt_iff couplingNumber number).mp
      (of_decide_eq_false (greedy.strongest _ _ firstActive secondActive smaller))
  · intro first second firstActive secondActive smaller reaches
    have number := numeric _ _ firstActive secondActive smaller
    exact greedy.first_of_equals _ _ firstActive secondActive smaller
      (decide_eq_false ((float_not_lt_iff number couplingNumber).mpr reaches))

/-- Every merge is the greedy choice when all couplings are numbers. The weights of a call graph are
finite and not negative while the number of its crossings fits a machine word, and then all
couplings are numbers. -/
theorem merges_join_strongest :
    (∀ (graph : CouplingGraph Float) (dendrogram : Dendrogram Float),
      graph.cluster? = some dendrogram → dendrogram.Numeric (Affinity.ofGraph graph) →
      ∀ id left right coupling joined,
        dendrogram.nodes[id]? = some (.merged left right coupling joined) →
        dendrogram.JoinsStrongest (Affinity.ofGraph graph) id left right coupling) ∧
    ∀ (separator : Separator) (calls : CallGraph), (calls.crossings separator).length < 2 ^ 64 →
      (∀ source target (weight : Float),
        (CouplingGraph.ofCalls separator calls).weight? source target = some weight →
        weight.isFinite = true ∧ Weight.zero ≤ weight) ∧
      ∀ dendrogram : Dendrogram Float,
        dendrogram.Numeric (Affinity.ofGraph (CouplingGraph.ofCalls separator calls)) := by
  constructor
  · intro graph dendrogram clustered numeric id left right coupling joined stored
    have numericAt := numeric id (Arena.lt_of_stored stored)
    exact (merged_greedy clustered stored numericAt).joins_strongest numericAt
  · intro separator calls bounded
    constructor
    · intro source target weight found
      have full := CouplingGraph.full_weight_of_calls bounded found
      exact ⟨full.is_finite, UnsignedDouble.nonnegative full.unsigned⟩
    · intro dendrogram id _ first second _ _ _
      exact (CouplingGraph.unsigned_between_of_calls bounded _ _).is_number

def twoEqualPairs : CallGraph := .ofPairs [("a.f", "b.f"), ("c.f", "d.f")]

theorem equal_pairs_join_in_name_order : ∃ dendrogram : Dendrogram Float,
    (CouplingGraph.ofCalls .standard twoEqualPairs).cluster? = some dendrogram ∧
    dendrogram.nodes[4]? = some (.merged 0 1 0.5 (.ofList ["a", "b"])) ∧
    dendrogram.JoinsStrongest (Affinity.ofGraph (CouplingGraph.ofCalls .standard twoEqualPairs))
      4 0 1 0.5 := by
  have computed :
      ((CouplingGraph.ofCalls .standard twoEqualPairs : CouplingGraph Float).cluster?.bind
        fun dendrogram => dendrogram.nodes[4]?) = some (.merged 0 1 0.5 (.ofList ["a", "b"])) := by
    decide +kernel
  obtain ⟨dendrogram, clustered, stored⟩ := Option.bind_eq_some_iff.mp computed
  have counted := merges_join_strongest.2 .standard twoEqualPairs (by decide +kernel)
  exact ⟨dendrogram, clustered, stored,
    merges_join_strongest.1 _ _ clustered (counted.2 dendrogram) _ _ _ _ _ stored⟩

end Cohesion
