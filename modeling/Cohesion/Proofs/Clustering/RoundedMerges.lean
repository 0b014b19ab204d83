import Cohesion.Proofs.Clustering.Crossings
import Cohesion.Proofs.Clustering.Frontier
import Cohesion.Proofs.Clustering.Lockstep
import Cohesion.Proofs.Coupling.Joining

/-!
# Merges under rounding

The shares of a call graph are rounded, and so are their sums. Compared with a clustering by exact
relation counts, a merge can go wrong only among pairs whose counts are too near to each other: as
long as there are no more than `2 ^ 25` crossing relations, only among pairs with the same count.
Where no count is met twice, or where the shares come out even, both clusterings make the same
merges. Pairs with the same count do get different doubles, though, and then names do not decide.
-/

namespace Cohesion

variable {W : Type}

/-- The coupling graph that has the numbers of relations themselves as weights. -/
def CouplingGraph.relationCounts (separator : Separator) (calls : CallGraph) :
    CouplingGraph Rat :=
  weighed (fun count => (count : Rat)) separator calls

def Arena.relationsOf (arena : Arena W) (separator : Separator) (calls : CallGraph)
    (first second : Nat) : Nat :=
  (calls.relationsJoining separator (arena.classesAt first) (arena.classesAt second)).card

section Disjoint

variable [Weight W] {graph : CouplingGraph W} {dendrogram : Dendrogram W}

theorem active_disjoint (clustered : graph.cluster? = some dendrogram) {id left right : Nat}
    {coupling : W} {joined : NameSet}
    (stored : dendrogram.nodes[id]? = some (.merged left right coupling joined))
    {first second : Nat} (firstActive : dendrogram.ActiveBefore id first)
    (secondActive : dendrogram.ActiveBefore id second)
    (smaller : dendrogram.Smaller first second) :
    ∀ name ∈ dendrogram.classesAt first, name ∉ dendrogram.classesAt second := by
  intro name inFirst inSecond
  have bound := Nat.le_of_lt (Arena.lt_of_stored stored)
  have same :=
    (cluster_grown clustered).active_unique bound firstActive secondActive inFirst inSecond
  rw [same] at smaller
  exact smaller.asymm smaller

end Disjoint

section Choices

variable {separator : Separator} {calls : CallGraph}

theorem classes_of_weighed {V : Type} (weigh : Nat → V) (other : Nat → W) :
    (CouplingGraph.weighed weigh separator calls).classes =
      (CouplingGraph.weighed other separator calls).classes := by
  ext name
  rw [CouplingGraph.mem_classes_weighed, CouplingGraph.mem_classes_weighed]

section Exact

variable {exact : Dendrogram Rat}

theorem exact_numeric (affinity : Affinity Rat) : exact.Numeric affinity :=
  fun _ _ _ _ _ _ _ => trivial

theorem exact_coupling
    (clustered : (CouplingGraph.relationCounts separator calls).cluster? = some exact)
    {id left right : Nat} {coupling : Rat} {joined : NameSet}
    (stored : exact.nodes[id]? = some (.merged left right coupling joined))
    {first second : Nat} (firstActive : exact.ActiveBefore id first)
    (secondActive : exact.ActiveBefore id second) (smaller : exact.Smaller first second) :
    exact.couplingOf (Affinity.ofGraph (CouplingGraph.relationCounts separator calls)) first second =
      exact.relationsOf separator calls first second :=
  (counts_exactly _).between (active_disjoint clustered stored firstActive secondActive smaller)

theorem exact_greedy
    (clustered : (CouplingGraph.relationCounts separator calls).cluster? = some exact)
    {id left right : Nat} {coupling : Rat} {joined : NameSet}
    (stored : exact.nodes[id]? = some (.merged left right coupling joined)) :
    exact.Greedy (Affinity.ofGraph (CouplingGraph.relationCounts separator calls)) id left right
      (exact.relationsOf separator calls left right) := by
  have greedy := merged_greedy clustered stored (exact_numeric _ id (Arena.lt_of_stored stored))
  have counted := exact_coupling clustered stored greedy.left_active greedy.right_active
    greedy.ordered
  rwa [← counted, ← greedy.coupling_eq]

/-- Over the counts themselves, a merge takes a pair with the most relations, and the first such pair
in the order of names. -/
theorem exact_choices
    (clustered : (CouplingGraph.relationCounts separator calls).cluster? = some exact) :
    exact.EachChoice fun left right first second =>
      exact.relationsOf separator calls first second ≤
          exact.relationsOf separator calls left right ∧
        (exact.relationsOf separator calls first second =
            exact.relationsOf separator calls left right →
          PairBefore exact.Smaller (left, right) (first, second)) := by
  intro id left right coupling joined stored first second otherPair
  obtain ⟨firstActive, secondActive, smaller, differs⟩ := otherPair
  have greedy := exact_greedy clustered stored
  have strongest := greedy.strongest first second firstActive secondActive smaller
  have first_of_equals := greedy.first_of_equals first second firstActive secondActive smaller
  rw [exact_coupling clustered stored firstActive secondActive smaller] at strongest first_of_equals
  constructor
  · exact Nat.cast_le.mp (not_lt.mp (of_decide_eq_false strongest))
  · intro tied
    rw [tied] at first_of_equals
    exact (first_of_equals (decide_eq_false (lt_irrefl _))).resolve_left differs

/-- Weights that keep every choice by counts lead to the same merges. -/
theorem same_merges [Weight W] {weigh : Nat → W} {tracks : Nat → W → Prop}
    (through : CountsThrough weigh (calls.crossingRelations separator).card tracks)
    (clustered : (CouplingGraph.relationCounts separator calls).cluster? = some exact)
    (compares : exact.EachChoice fun left right first second => ∀ strong weak,
      tracks (exact.relationsOf separator calls left right) strong →
      tracks (exact.relationsOf separator calls first second) weak →
      (exact.relationsOf separator calls first second <
        exact.relationsOf separator calls left right → Weight.exceeds strong weak = true) ∧
      Weight.exceeds weak strong = false)
    {other : Dendrogram W}
    (otherClustered : (CouplingGraph.weighed weigh separator calls).cluster? = some other) :
    other.mergeSequence = exact.mergeSequence := by
  have kept : exact.KeepsChoices
      (Affinity.ofGraph (CouplingGraph.relationCounts separator calls))
      (Affinity.ofGraph (CouplingGraph.weighed weigh separator calls)) := by
    intro id left right coupling joined stored first second otherPair
    have ⟨firstActive, secondActive, smaller, _⟩ := otherPair
    have greedy := exact_greedy clustered stored
    have chosenApart := active_disjoint clustered stored greedy.left_active greedy.right_active
      greedy.ordered
    have apart := active_disjoint clustered stored firstActive secondActive smaller
    obtain ⟨above, notBelow⟩ := compares id left right coupling joined stored first second otherPair
      _ _ (through.between chosenApart) (through.between apart)
    constructor
    · intro exceeds
      rw [← greedy.coupling_eq, exact_coupling clustered stored firstActive secondActive smaller]
        at exceeds
      exact above (Nat.cast_lt.mp (of_decide_eq_true exceeds))
    · intro _
      exact notBelow
  obtain ⟨found, foundClustered, same, _⟩ := cluster_in_step (classes_of_weighed _ weigh) clustered
    (exact_numeric _) kept
  rw [otherClustered] at foundClustered
  cases foundClustered
  exact same.merge_sequence.symm

/-- With few relations, counts that are not tied with the joined pair's are far enough below it. -/
theorem choices_apart
    (clustered : (CouplingGraph.relationCounts separator calls).cluster? = some exact)
    (few : (calls.crossingRelations separator).card ≤ 2 ^ 25)
    (differ : exact.EachChoice fun left right first second =>
      exact.relationsOf separator calls first second ≠
        exact.relationsOf separator calls left right) :
    exact.EachChoice fun left right first second =>
      RoundsApart (exact.relationsOf separator calls left right)
        (exact.relationsOf separator calls first second) := by
  intro id left right coupling joined stored first second otherPair
  have chosenFew := (CallGraph.relations_joining_le calls separator
    (exact.classesAt left) (exact.classesAt right)).trans few
  have atMost := (exact_choices clustered id left right coupling joined stored first second
    otherPair).1
  have differs := differ id left right coupling joined stored first second otherPair
  exact rounds_apart_of_lt chosenFew (lt_of_le_of_ne atMost differs)

theorem merges_of_choices_apart (crossing : 0 < (calls.crossingRelations separator).card)
    (bounded : (calls.crossingRelations separator).card < 2 ^ 53)
    (exactClustered : (CouplingGraph.relationCounts separator calls).cluster? = some exact)
    {rounded : Dendrogram Float}
    (clustered : (CouplingGraph.ofCalls separator calls).cluster? = some rounded)
    (apart : exact.EachChoice fun left right first second =>
      RoundsApart (exact.relationsOf separator calls left right)
        (exact.relationsOf separator calls first second)) :
    rounded.mergeSequence = exact.mergeSequence := by
  rw [CouplingGraph.of_calls_eq_weighed] at clustered
  apply same_merges (shares_rounded crossing bounded) exactClustered _ clustered
  intro id left right coupling joined stored first second otherPair strong weak isStrong isWeak
  have above := RoundedShare.exceeds isStrong isWeak
    (apart id left right coupling joined stored first second otherPair)
  exact ⟨fun _ => above, OrderedWeight.exceeds_asymm above⟩

theorem merges_of_even_shares {places : Nat}
    (power : (calls.crossingRelations separator).card = 2 ^ places)
    (bounded : (calls.crossingRelations separator).card < 2 ^ 53)
    (exactClustered : (CouplingGraph.relationCounts separator calls).cluster? = some exact)
    {rounded : Dendrogram Float}
    (clustered : (CouplingGraph.ofCalls separator calls).cluster? = some rounded) :
    rounded.mergeSequence = exact.mergeSequence := by
  have crossing : 0 < (calls.crossingRelations separator).card := by
    rw [power]
    exact Nat.two_pow_pos places
  rw [CouplingGraph.of_calls_eq_weighed] at clustered
  apply same_merges (shares_exactly power bounded) exactClustered _ clustered
  intro id left right coupling joined stored first second otherPair strong weak isStrong isWeak
  have atMost := (exact_choices exactClustered id left right coupling joined stored first second
    otherPair).1
  have chosenFew := (CallGraph.relations_joining_le calls separator
    (exact.classesAt left) (exact.classesAt right)).trans_lt bounded
  rw [isStrong.exceeds_iff crossing isWeak chosenFew (atMost.trans_lt chosenFew),
    isWeak.exceeds_iff crossing isStrong (atMost.trans_lt chosenFew) chosenFew]
  exact ⟨decide_eq_true, decide_eq_false (not_lt.mpr atMost)⟩

end Exact

section Rounded

variable {rounded : Dendrogram Float}

/-- No merge passes over a pair that has more relations than the joined one by a margin that rounding
cannot make up for. -/
theorem rounded_choices (crossing : 0 < (calls.crossingRelations separator).card)
    (bounded : (calls.crossingRelations separator).card < 2 ^ 53)
    (clustered : (CouplingGraph.ofCalls separator calls).cluster? = some rounded) :
    rounded.EachChoice fun left right first second =>
      ¬RoundsApart (rounded.relationsOf separator calls first second)
        (rounded.relationsOf separator calls left right) := by
  intro id left right coupling joined stored first second otherPair apart
  obtain ⟨firstActive, secondActive, smaller, _⟩ := otherPair
  have numeric : rounded.NumericAt (Affinity.ofGraph (CouplingGraph.ofCalls separator calls)) id := by
    intro one other _ _ _
    apply UnsignedDouble.is_number
    apply CouplingGraph.unsigned_between_of_calls
    rw [CallGraph.length_crossings]
    omega
  have greedy := merged_greedy clustered stored numeric
  have notAbove := greedy.strongest first second firstActive secondActive smaller
  have disjoint := active_disjoint clustered stored firstActive secondActive smaller
  have chosenDisjoint := active_disjoint clustered stored greedy.left_active greedy.right_active
    greedy.ordered
  rw [greedy.coupling_eq, Arena.couplingOf, Arena.couplingOf, CouplingGraph.of_calls_eq_weighed]
    at notAbove
  have through := shares_rounded crossing bounded
  have above := RoundedShare.exceeds (through.between disjoint) (through.between chosenDisjoint) apart
  rw [above] at notAbove
  contradiction

theorem most_relations_of_few (few : (calls.crossingRelations separator).card ≤ 2 ^ 25)
    (within : rounded.EachChoice fun left right first second =>
      ¬RoundsApart (rounded.relationsOf separator calls first second)
        (rounded.relationsOf separator calls left right)) :
    rounded.EachChoice fun left right first second =>
      rounded.relationsOf separator calls first second ≤
        rounded.relationsOf separator calls left right := by
  intro id left right coupling joined stored first second otherPair
  by_contra more
  have moreFew := (CallGraph.relations_joining_le calls separator
    (rounded.classesAt first) (rounded.classesAt second)).trans few
  exact within id left right coupling joined stored first second otherPair
    (rounds_apart_of_lt moreFew (not_le.mp more))

end Rounded

/-- How far a clustering by rounded shares follows the one by relation counts. -/
structure FollowsCounts (separator : Separator) (calls : CallGraph) (exact : Dendrogram Rat)
    (rounded : Dendrogram Float) : Prop where
  by_count : exact.EachChoice fun left right first second =>
    exact.relationsOf separator calls first second ≤ exact.relationsOf separator calls left right ∧
      (exact.relationsOf separator calls first second =
          exact.relationsOf separator calls left right →
        PairBefore exact.Smaller (left, right) (first, second))
  within_margin : rounded.EachChoice fun left right first second =>
    ¬RoundsApart (rounded.relationsOf separator calls first second)
      (rounded.relationsOf separator calls left right)
  most_relations : (calls.crossingRelations separator).card ≤ 2 ^ 25 →
    rounded.EachChoice fun left right first second =>
      rounded.relationsOf separator calls first second ≤
        rounded.relationsOf separator calls left right
  clear_choices : (exact.EachChoice fun left right first second =>
      RoundsApart (exact.relationsOf separator calls left right)
        (exact.relationsOf separator calls first second)) →
    rounded.mergeSequence = exact.mergeSequence
  no_ties : (calls.crossingRelations separator).card ≤ 2 ^ 25 →
    (exact.EachChoice fun left right first second =>
      exact.relationsOf separator calls first second ≠
        exact.relationsOf separator calls left right) →
    rounded.mergeSequence = exact.mergeSequence
  even_shares : (∃ places, (calls.crossingRelations separator).card = 2 ^ places) →
    rounded.mergeSequence = exact.mergeSequence

end Choices

/-- Rounding changes merges only among pairs whose relation counts are too near to each other. With
at most `2 ^ 25` crossing relations these are pairs with the same count; the merges are those by
exact counts when no such pair competes, and also when the shares come out even. -/
theorem rounded_merges_follow_counts (separator : Separator) (calls : CallGraph)
    (crossing : 0 < (calls.crossingRelations separator).card)
    (bounded : (calls.crossingRelations separator).card < 2 ^ 53) :
    ∃ exact rounded, (CouplingGraph.relationCounts separator calls).cluster? = some exact ∧
      (CouplingGraph.ofCalls separator calls).cluster? = some rounded ∧
      FollowsCounts separator calls exact rounded := by
  obtain ⟨exact, exactClustered⟩ :=
    CouplingGraph.weighed_clusters (fun count => (count : Rat)) crossing
  obtain ⟨rounded, roundedClustered⟩ := CouplingGraph.weighed_clusters (W := Float)
    (Weight.share (calls.crossingRelations separator).card) crossing
  have clustered : (CouplingGraph.ofCalls separator calls).cluster? = some rounded := by
    rwa [CouplingGraph.of_calls_eq_weighed]
  have within := rounded_choices crossing bounded clustered
  have of_apart := merges_of_choices_apart crossing bounded exactClustered clustered
  refine ⟨exact, rounded, exactClustered, clustered, ?_⟩
  constructor
  case by_count => exact exact_choices exactClustered
  case within_margin => exact within
  case most_relations =>
    intro few
    exact most_relations_of_few few within
  case clear_choices => exact of_apart
  case no_ties =>
    intro few differ
    exact of_apart (choices_apart exactClustered few differ)
  case even_shares =>
    intro ⟨places, power⟩
    exact merges_of_even_shares power bounded exactClustered clustered

def clearChain : CallGraph := .ofPairs
  [("a.f", "b.f"), ("a.f", "b.g"), ("a.f", "b.h"), ("a.g", "b.f"), ("a.g", "b.g"),
    ("b.f", "c.f"), ("b.f", "c.g"), ("c.f", "d.f"), ("c.f", "d.g"), ("d.f", "c.h")]

theorem clear_chain_by_counts : ∃ exact rounded,
    (CouplingGraph.ofCalls .standard clearChain).cluster? = some rounded ∧
    FollowsCounts .standard clearChain exact rounded ∧
    rounded.mergeSequence = exact.mergeSequence ∧ exact.mergeSequence =
      [(.ofList ["a"], .ofList ["b"]), (.ofList ["c"], .ofList ["d"]),
        (.ofList ["a", "b"], .ofList ["c", "d"])] := by
  obtain ⟨exact, rounded, exactClustered, clustered, follows⟩ :=
    rounded_merges_follow_counts .standard clearChain (by decide +kernel) (by decide +kernel)
  have computed : (CouplingGraph.relationCounts .standard clearChain).cluster?.all (fun exact =>
      decide ((exact.EachChoice fun left right first second =>
          exact.relationsOf .standard clearChain first second ≠
            exact.relationsOf .standard clearChain left right) ∧
        exact.mergeSequence = [(.ofList ["a"], .ofList ["b"]), (.ofList ["c"], .ofList ["d"]),
          (.ofList ["a", "b"], .ofList ["c", "d"])])) = true := by
    decide +kernel
  rw [exactClustered] at computed
  obtain ⟨untied, sequence⟩ := of_decide_eq_true computed
  exact ⟨exact, rounded, clustered, follows, follows.no_ties (by decide +kernel) untied, sequence⟩

/-- Three of ten relations lead from `A` to `B`, and three go between `B` and `C`, one of them in the
one direction and two in the other. -/
def splitTie : CallGraph := .ofPairs
  [("A.a", "B.x"), ("A.a", "B.y"), ("A.a", "B.z"), ("B.b", "C.x"), ("C.c", "B.x"), ("C.c", "B.y"),
    ("D.d", "E.w"), ("D.d", "E.x"), ("D.d", "E.y"), ("D.d", "E.z")]

/-- The sum of one tenth and two tenths is rounded up to more than three tenths, so the later one of
two pairs with three relations each is joined first. -/
theorem rounding_decides_split_tie :
    (splitTie.crossingRelations .standard).card = 10 ∧
    (splitTie.relationsJoining .standard (.ofList ["A"]) (.ofList ["B"])).card = 3 ∧
    (splitTie.relationsJoining .standard (.ofList ["B"]) (.ofList ["C"])).card = 3 ∧
    (CouplingGraph.relationCounts .standard splitTie).cluster?.map Dendrogram.mergeSequence = some
      [(.ofList ["D"], .ofList ["E"]), (.ofList ["A"], .ofList ["B"]),
        (.ofList ["A", "B"], .ofList ["C"]), (.ofList ["A", "B", "C"], .ofList ["D", "E"])] ∧
    (CouplingGraph.ofCalls .standard splitTie : CouplingGraph Float).cluster?.map
        Dendrogram.mergeSequence = some
      [(.ofList ["D"], .ofList ["E"]), (.ofList ["B"], .ofList ["C"]),
        (.ofList ["A"], .ofList ["B", "C"]), (.ofList ["A", "B", "C"], .ofList ["D", "E"])] := by
  decide +kernel

end Cohesion
