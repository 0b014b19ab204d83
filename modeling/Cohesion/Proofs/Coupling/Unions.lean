import Cohesion.Proofs.Clustering.Conservation

/-!
# Affinities of unions

With exact weights the coupling of two sets does not depend on which comes first, and the coupling
of a union of disjoint sets with any other set is what the parts have with it. What a set has inside
comes apart in the same way, so both can be computed from those of the parts.
-/

namespace Cohesion

section Sums

variable {Item Amount : Type} [AddCommMonoid Amount] (amount : Item → Item → Amount)

theorem cross_sum_append (front back columns : List Item) :
    crossSum amount (front ++ back) columns =
      crossSum amount front columns + crossSum amount back columns := by
  simp [crossSum]

theorem cross_sum_perm {rows others : List Item} (same : rows.Perm others) (columns : List Item) :
    crossSum amount rows columns = crossSum amount others columns :=
  (same.map _).sum_eq

theorem cross_sum_comm (symmetric : ∀ first second, amount first second = amount second first)
    (rows columns : List Item) : crossSum amount rows columns = crossSum amount columns rows := by
  induction rows with
  | nil => simp [crossSum]
  | cons row rest induction =>
      have byColumn : ∀ column, ((row :: rest).map (amount column)).sum =
          amount row column + (rest.map (amount column)).sum := by
        intro column
        simp [symmetric column row]
      calc crossSum amount (row :: rest) columns
          = (columns.map (amount row)).sum + crossSum amount rest columns := by simp [crossSum]
        _ = (columns.map (amount row)).sum + crossSum amount columns rest := by rw [induction]
        _ = crossSum amount columns (row :: rest) := by
            simp only [crossSum, byColumn, List.sum_map_add]

end Sums

namespace Affinity

section AnyWeights

variable {W : Type} [Weight W]

/-- An average divides by the number of unordered pairs of the set, and that is not zero. -/
theorem average_divides (affinity : Affinity W) {classes : NameSet} (several : 2 ≤ classes.size) :
    0 < classes.size.choose 2 ∧ affinity.average? classes = some (Weight.divCount
      (Weight.accumulate ((pairs classes.toList).map fun pair => affinity.weight pair.1 pair.2))
      (classes.size.choose 2)) := by
  have notFew : ¬classes.size ≤ 1 := by omega
  have count : (pairs classes.toList).length = classes.size.choose 2 := length_pairs _
  refine ⟨Nat.choose_pos several, ?_⟩
  rw [average?, if_neg notFew]
  simp only [count]

theorem average_of_few (affinity : Affinity W) {classes : NameSet} (few : classes.size ≤ 1) :
    affinity.average? classes = none := if_pos few

end AnyWeights

/-- The average of a set times the number of its pairs, or nothing for a set without a pair. -/
def pairTotal (affinity : Affinity Rat) (classes : NameSet) : Rat :=
  if 2 ≤ classes.size then
    (affinity.average? classes).getD 0 * (classes.size * (classes.size - 1) / 2)
  else 0

theorem pair_total_eq_inner (affinity : Affinity Rat) (classes : NameSet) :
    affinity.pairTotal classes = affinity.inner classes := by
  rw [pairTotal]
  split
  · next several =>
      have some_pair := zero_lt_one.trans_le (one_le_pair_count several)
      rw [average_eq affinity several, Option.getD_some, div_mul_cancel₀ _ some_pair.ne']
  · next few =>
      have noPairs : pairs classes.toList = [] := by
        rw [← List.length_eq_zero_iff, length_pairs]
        exact Nat.choose_eq_zero_of_lt (Nat.lt_of_not_le few)
      rw [inner, pairSum, noPairs]
      rfl

section Laws

variable (graph : CouplingGraph Rat)

theorem between_symm (first second : NameSet) :
    (ofGraph graph).between first second = (ofGraph graph).between second first := by
  rw [between_eq_cross_sum, between_eq_cross_sum]
  exact cross_sum_comm _ (weight_symm graph) _ _

theorem between_union (affinity : Affinity Rat) {first second : NameSet}
    (disjoint : ∀ name ∈ first, name ∉ second) (other : NameSet) :
    affinity.between (first.union second) other =
      affinity.between first other + affinity.between second other := by
  have parts := NameSet.union_names_perm disjoint
  simp only [between_eq_cross_sum, NameSet.toList]
  rw [cross_sum_perm _ parts, cross_sum_append]

theorem pair_total_union {first second : NameSet} (disjoint : ∀ name ∈ first, name ∉ second) :
    (ofGraph graph).pairTotal (first.union second) =
      (ofGraph graph).pairTotal first + (ofGraph graph).pairTotal second +
        (ofGraph graph).between first second := by
  simp only [pair_total_eq_inner]
  exact inner_of_parts graph (NameSet.union_names_perm disjoint)

end Laws

structure SplitsAt (affinity : Affinity Rat) (first second : NameSet) : Prop where
  symmetric : affinity.between first second = affinity.between second first
  additive (other : NameSet) : affinity.between (first.union second) other =
    affinity.between first other + affinity.between second other
  inside : affinity.pairTotal (first.union second) =
    affinity.pairTotal first + affinity.pairTotal second + affinity.between first second
  average (classes : NameSet) :
    classes.size ≤ 1 ∧ affinity.average? classes = none ∨
      0 < classes.size.choose 2 ∧ affinity.average? classes = some
        (((pairs classes.toList).map fun pair => affinity.weight pair.1 pair.2).sum /
          (classes.size.choose 2 : Nat))

end Affinity

/-- Coupling is symmetric and additive over disjoint sets, and what is inside a union is what is
inside its parts with the coupling between them. -/
theorem couplings_split_at_unions (graph : CouplingGraph Rat) {first second : NameSet}
    (disjoint : ∀ name ∈ first, name ∉ second) :
    (Affinity.ofGraph graph).SplitsAt first second where
  symmetric := Affinity.between_symm graph first second
  additive := Affinity.between_union _ disjoint
  inside := Affinity.pair_total_union graph disjoint
  average classes := by
    rcases Nat.lt_or_ge 1 classes.size with several | few
    · have divides := (Affinity.ofGraph graph).average_divides several
      rw [Affinity.accumulate_eq_sum] at divides
      exact .inr divides
    · exact .inl ⟨few, Affinity.average_of_few _ few⟩

/-- Two sets without a common name, one of them with a name that is no class. -/
theorem signed_ring_splits :
    (∀ name ∈ NameSet.ofList ["a", "x"], name ∉ NameSet.ofList ["b", "c"]) ∧
      (Affinity.ofGraph signedRing).SplitsAt (.ofList ["a", "x"]) (.ofList ["b", "c"]) ∧
      (Affinity.ofGraph signedRing).between (.ofList ["a", "x"]) (.ofList ["b", "c"]) = 7 / 12 := by
  have disjoint : ∀ name ∈ NameSet.ofList ["a", "x"], name ∉ NameSet.ofList ["b", "c"] := by
    simp only [NameSet.mem_of_list]
    decide
  have coupled : (Affinity.ofGraph signedRing).between (.ofList ["a", "x"]) (.ofList ["b", "c"]) =
      7 / 12 := by
    decide +kernel
  exact ⟨disjoint, couplings_split_at_unions signedRing disjoint, coupled⟩

end Cohesion
