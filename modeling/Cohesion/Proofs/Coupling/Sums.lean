import Mathlib.Algebra.BigOperators.Group.Finset.Basic
import Mathlib.Algebra.Order.Field.Rat
import Mathlib.Data.Nat.Choose.Cast
import Mathlib.Tactic.Abel
import Mathlib.Tactic.Linarith
import Cohesion.Proofs.Coupling.Edges
import Cohesion.Proofs.Names.Numbering

/-!
# Exact sums of affinities

With exact weights the order of additions is of no account. The affinities inside a set of classes
are those inside two parts of it and those across the parts, and inside all classes of a graph they
are the weights of the edges that are not loops.
-/

namespace Cohesion

section Pairs

variable {Item Amount : Type} [AddCommMonoid Amount] (amount : Item → Item → Amount)

/-- What all pairs of a list amount to together. -/
def pairSum (items : List Item) : Amount := ((pairs items).map fun pair => amount pair.1 pair.2).sum

/-- What the pairs across two lists amount to together, row by row. -/
def crossSum (rows columns : List Item) : Amount :=
  (rows.map fun row => (columns.map (amount row)).sum).sum

theorem length_pairs (items : List Item) : (pairs items).length = items.length.choose 2 := by
  induction items with
  | nil => rfl
  | cons head rest induction =>
      simp [pairs, induction, Nat.choose_succ_succ]

theorem pair_sum_cons (head : Item) (rest : List Item) :
    pairSum amount (head :: rest) = (rest.map (amount head)).sum + pairSum amount rest := by
  simp [pairSum, pairs, Function.comp_def]

theorem pair_sum_append (front back : List Item) :
    pairSum amount (front ++ back) =
      pairSum amount front + pairSum amount back + crossSum amount front back := by
  induction front with
  | nil => simp [pairSum, pairs, crossSum]
  | cons head rest induction =>
      simp only [List.cons_append, pair_sum_cons, induction, List.map_append, List.sum_append,
        crossSum, List.map_cons, List.sum_cons]
      abel

theorem pair_sum_perm (symmetric : ∀ first second, amount first second = amount second first)
    {items others : List Item} (same : items.Perm others) :
    pairSum amount items = pairSum amount others := by
  induction same with
  | nil => rfl
  | cons head rest induction => rw [pair_sum_cons, pair_sum_cons, induction, (rest.map _).sum_eq]
  | swap first second rest =>
      simp only [pair_sum_cons, List.map_cons, List.sum_cons, symmetric second first]
      abel
  | trans _ _ firstSame secondSame => exact firstSame.trans secondSame

end Pairs

namespace Affinity

theorem accumulate_eq_sum (weights : List Rat) : Weight.accumulate weights = weights.sum :=
  List.sum_eq_foldl.symm

def inner (affinity : Affinity Rat) (classes : NameSet) : Rat :=
  pairSum affinity.weight classes.toList

theorem between_eq_cross_sum (affinity : Affinity Rat) (rows columns : NameSet) :
    affinity.between rows columns = crossSum affinity.weight rows.toList columns.toList := by
  rw [between, accumulate_eq_sum, List.flatMap_def, List.sum_flatten, List.map_map]
  rfl

/-- The mean affinity of a set is what it has inside, divided by the number of its pairs. -/
theorem average_eq (affinity : Affinity Rat) {classes : NameSet} (several : 2 ≤ classes.size) :
    affinity.average? classes =
      some (affinity.inner classes / (classes.size * (classes.size - 1) / 2)) := by
  have notFew : ¬classes.size ≤ 1 := by omega
  have count : ((pairs classes.toList).length : Rat) = classes.size * (classes.size - 1) / 2 := by
    rw [length_pairs, Nat.cast_choose_two]
    rfl
  rw [average?, if_neg notFew, ← count, inner, pairSum, ← accumulate_eq_sum]
  rfl

theorem one_le_pair_count {classes : NameSet} (several : 2 ≤ classes.size) :
    (1 : Rat) ≤ classes.size * (classes.size - 1) / 2 := by
  have size : (2 : Rat) ≤ classes.size := by exact_mod_cast several
  nlinarith

/-- Joined sets have inside what each of them had, and their coupling. -/
theorem inner_of_parts (graph : CouplingGraph Rat) {whole left right : NameSet}
    (parts : whole.names.Perm (left.names ++ right.names)) :
    (ofGraph graph).inner whole = (ofGraph graph).inner left + (ofGraph graph).inner right +
      (ofGraph graph).between left right := by
  have same := pair_sum_perm _ (weight_symm graph) parts
  rw [between_eq_cross_sum, inner, NameSet.toList, same, pair_sum_append]
  rfl

end Affinity

namespace CouplingGraph

def properEdges {W : Type} (graph : CouplingGraph W) : List (Edge W) :=
  graph.edges.filter fun edge => edge.source != edge.target

theorem ends_mem_classes {W : Type} {graph : CouplingGraph W} {edge : Edge W}
    (member : edge ∈ graph.edges) : edge.source ∈ graph.classes ∧ edge.target ∈ graph.classes := by
  rw [mem_edges_iff, weight?, NameTable.get?, Option.bind_eq_some_iff] at member
  rcases member with ⟨values, row, cell⟩
  have listed : (edge.source, values) ∈ graph.table.rows.entries :=
    (NameMap.mem_entries_iff _).mpr row
  have target : edge.target ∈ values.keys := (NameMap.mem_keys_iff _).mpr ⟨edge.weight, cell⟩
  rw [mem_classes_iff, mem_classes_iff]
  exact ⟨⟨_, listed, .inl rfl⟩, ⟨_, listed, .inr target⟩⟩

theorem not_joining_of_loop {first second : String} {edge : Edge Rat} (less : first < second)
    (isLoop : edge.source = edge.target) : ¬Affinity.Joining first second edge := by
  intro joins
  rcases joins with ⟨source, target⟩ | ⟨source, target⟩
  · rw [← source, ← target, isLoop] at less
    exact String.lt_irrefl _ less
  · rw [← source, ← target, isLoop] at less
    exact String.lt_irrefl _ less

/-- An edge joins no more than one pair in the order of names. -/
theorem joining_unique {pair other : String × String} {edge : Edge Rat} (less : pair.1 < pair.2)
    (otherLess : other.1 < other.2) (joins : Affinity.Joining pair.1 pair.2 edge)
    (otherJoins : Affinity.Joining other.1 other.2 edge) : other = pair := by
  rcases joins with ⟨source, target⟩ | ⟨source, target⟩
  · rcases otherJoins with ⟨otherSource, otherTarget⟩ | ⟨otherSource, otherTarget⟩
    · exact Prod.ext (otherSource.symm.trans source) (otherTarget.symm.trans target)
    · rw [← source, ← target, otherSource, otherTarget] at less
      exact absurd less (String.lt_asymm otherLess)
  · rcases otherJoins with ⟨otherSource, otherTarget⟩ | ⟨otherSource, otherTarget⟩
    · rw [← source, ← target, otherSource, otherTarget] at less
      exact absurd less (String.lt_asymm otherLess)
    · exact Prod.ext (otherTarget.symm.trans target) (otherSource.symm.trans source)

/-- Of the pairs of ascending names, one is joined by an edge between two of them and none by a
loop. -/
theorem sum_of_joined_pair {names : List String} (ascending : names.Pairwise (· < ·))
    {edge : Edge Rat} (sourceListed : edge.source ∈ names) (targetListed : edge.target ∈ names) :
    ((pairs names).map fun pair =>
      if Affinity.Joining pair.1 pair.2 edge then edge.weight else 0).sum =
      if edge.source ≠ edge.target then edge.weight else 0 := by
  have ordered : ∀ pair ∈ pairs names, pair.1 < pair.2 :=
    fun pair member => related_of_mem_pairs ascending member
  by_cases isLoop : edge.source = edge.target
  · rw [if_neg (not_not.mpr isLoop)]
    apply List.sum_eq_zero
    intro value member
    rw [List.mem_map] at member
    rcases member with ⟨pair, listed, rfl⟩
    exact if_neg (not_joining_of_loop (ordered pair listed) isLoop)
  · have distinct : (pairs names).Nodup := (pairs_ordered ascending).nodup
    have joined : ∃ pair ∈ pairs names, Affinity.Joining pair.1 pair.2 edge := by
      rcases mem_pairs_or_swap sourceListed targetListed isLoop with forward | backward
      · exact ⟨_, forward, .inl ⟨rfl, rfl⟩⟩
      · exact ⟨_, backward, .inr ⟨rfl, rfl⟩⟩
    rcases joined with ⟨pair, listed, joins⟩
    rw [if_pos isLoop, ← List.sum_toFinset _ distinct, Finset.sum_eq_single pair]
    · rw [if_pos joins]
    · intro other member differs
      apply if_neg
      intro otherJoins
      apply differs
      exact joining_unique (ordered pair listed) (ordered other (List.mem_toFinset.mp member))
        joins otherJoins
    · intro absent
      exact absurd (List.mem_toFinset.mpr listed) absent

/-- All pairs of classes have together what the edges between different classes weigh. -/
theorem inner_classes (graph : CouplingGraph Rat) :
    (Affinity.ofGraph graph).inner graph.classes = (graph.properEdges.map Edge.weight).sum := by
  have counted : ∀ edges : List (Edge Rat),
      (∀ edge ∈ edges, edge.source ∈ graph.classes ∧ edge.target ∈ graph.classes) →
      ((pairs graph.classes.names).map fun pair =>
        ((edges.filter fun edge => decide (Affinity.Joining pair.1 pair.2 edge)).map
          Edge.weight).sum).sum =
        ((edges.filter fun edge => edge.source != edge.target).map Edge.weight).sum := by
    intro edges
    induction edges with
    | nil => simp
    | cons edge rest induction =>
        intro inside
        rw [List.forall_mem_cons] at inside
        have split : ∀ chosen : Edge Rat → Bool,
            (((edge :: rest).filter chosen).map Edge.weight).sum =
              (if chosen edge then edge.weight else 0) +
                ((rest.filter chosen).map Edge.weight).sum := by
          intro chosen
          by_cases isChosen : chosen edge
          · simp [isChosen]
          · simp [isChosen]
        simp only [split, decide_eq_true_eq, List.sum_map_add, induction inside.2,
          sum_of_joined_pair graph.classes.ascending inside.1.1 inside.1.2, bne_iff_ne]
  rw [Affinity.inner, pairSum, properEdges, ← counted graph.edges fun _ => ends_mem_classes]
  simp only [Affinity.weight_of_graph, Affinity.accumulate_eq_sum, NameSet.toList]

end CouplingGraph

end Cohesion
