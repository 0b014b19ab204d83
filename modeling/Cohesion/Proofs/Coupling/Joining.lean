import Cohesion.Proofs.Coupling.Counts
import Cohesion.Proofs.Names.Numbering
import Cohesion.Proofs.Weight.Counted

/-!
# Couplings stand for relations

The coupling of two sets of classes adds up the weights of all edges between them. When weights stand
for counts in a way that goes through additions, the coupling stands for the number of relations that
lead from one set to the other, in either direction.
-/

namespace Cohesion

namespace CallGraph

def relationsJoining (calls : CallGraph) (separator : Separator) (rows columns : NameSet) :
    Finset (String × String) :=
  (calls.crossingRelations separator).filter fun relation =>
    separator.classOf relation.1 ∈ rows ∧ separator.classOf relation.2 ∈ columns ∨
      separator.classOf relation.1 ∈ columns ∧ separator.classOf relation.2 ∈ rows

theorem relations_joining_le (calls : CallGraph) (separator : Separator) (rows columns : NameSet) :
    (calls.relationsJoining separator rows columns).card ≤
      (calls.crossingRelations separator).card :=
  Finset.card_le_card (Finset.filter_subset _ _)

def joinedPair (separator : Separator) (rows : NameSet) (relation : String × String) :
    String × String :=
  if separator.classOf relation.1 ∈ rows then separator.classPair relation
  else (separator.classPair relation).swap

variable {calls : CallGraph} {separator : Separator} {rows columns : NameSet}

theorem joined_pair_mem (disjoint : ∀ name ∈ rows, name ∉ columns) {relation : String × String}
    (member : relation ∈ calls.relationsJoining separator rows columns) :
    (joinedPair separator rows relation).1 ∈ rows ∧
      (joinedPair separator rows relation).2 ∈ columns := by
  obtain ⟨_, ends⟩ := Finset.mem_filter.mp member
  rw [joinedPair]
  split
  · next inRows =>
      rcases ends with forward | backward
      · exact forward
      · exact absurd backward.1 (disjoint _ inRows)
  · next notInRows =>
      rcases ends with forward | backward
      · exact absurd forward.1 notInRows
      · exact ⟨backward.2, backward.1⟩

/-- Two classes from the two sets are joined by the relations that are sorted to them. -/
theorem mem_joining_pair (disjoint : ∀ name ∈ rows, name ∉ columns) {first second : String}
    (inRows : first ∈ rows) (inColumns : second ∈ columns) {relation : String × String} :
    relation ∈ calls.relationsJoining separator rows columns ∧
        joinedPair separator rows relation = (first, second) ↔
      relation ∈ calls.crossingRelations separator ∧
        ((separator.classPair relation).1 = first ∧ (separator.classPair relation).2 = second ∨
          (separator.classPair relation).1 = second ∧
            (separator.classPair relation).2 = first) := by
  rw [relationsJoining, Finset.mem_filter, and_assoc]
  apply and_congr_right
  intro _
  rw [joinedPair]
  constructor
  · rintro ⟨_, sorted⟩
    split at sorted
    · exact .inl (Prod.mk.inj sorted)
    · exact .inr (Prod.mk.inj sorted).symm
  · rintro (⟨rfl, rfl⟩ | ⟨rfl, rfl⟩)
    · exact ⟨.inl ⟨inRows, inColumns⟩, if_pos inRows⟩
    · exact ⟨.inr ⟨inColumns, inRows⟩, if_neg fun both => disjoint _ both inColumns⟩

theorem sum_of_pairs (disjoint : ∀ name ∈ rows, name ∉ columns) :
    ((rows.toList ×ˢ columns.toList).map fun pair =>
      ((calls.crossingRelations separator).filter fun relation =>
        (separator.classPair relation).1 = pair.1 ∧ (separator.classPair relation).2 = pair.2 ∨
          (separator.classPair relation).1 = pair.2 ∧
            (separator.classPair relation).2 = pair.1).card).sum =
      (calls.relationsJoining separator rows columns).card := by
  have sorted : ∀ relation ∈ calls.relationsJoining separator rows columns,
      joinedPair separator rows relation ∈ (rows.toList ×ˢ columns.toList).toFinset := by
    intro relation member
    rw [List.mem_toFinset]
    exact List.mem_product.mpr (joined_pair_mem disjoint member)
  have distinct : (rows.toList ×ˢ columns.toList).Nodup :=
    rows.names_nodup.product columns.names_nodup
  rw [Finset.card_eq_sum_card_fiberwise sorted, List.sum_toFinset _ distinct]
  apply congrArg
  apply List.map_congr_left
  intro ⟨first, second⟩ member
  obtain ⟨inRows, inColumns⟩ := List.mem_product.mp member
  apply congrArg
  ext relation
  rw [Finset.mem_filter, Finset.mem_filter]
  exact (mem_joining_pair disjoint inRows inColumns).symm

end CallGraph

/-- Weights for counts up to a total that stand for them in a way that goes through additions. -/
structure CountsThrough {W : Type} [Weight W] (weigh : Nat → W) (total : Nat)
    (tracks : Nat → W → Prop) : Prop where
  additive : Additive tracks
  weighs : ∀ count, 0 < count → count ≤ total → tracks count (weigh count)

namespace CountsThrough

variable {W : Type} [Weight W] {tracks : Nat → W → Prop} {weigh : Nat → W} {calls : CallGraph}
  {separator : Separator}
  (through : CountsThrough weigh (calls.crossingRelations separator).card tracks)

include through

theorem affinity (first second : String) :
    tracks ((calls.crossingRelations separator).filter fun relation =>
        (separator.classPair relation).1 = first ∧ (separator.classPair relation).2 = second ∨
          (separator.classPair relation).1 = second ∧
            (separator.classPair relation).2 = first).card
      ((Affinity.ofGraph (CouplingGraph.weighed weigh separator calls)).weight first second) := by
  have counted := CouplingGraph.sum_of_chosen weigh separator calls fun pair =>
    pair.1 = first ∧ pair.2 = second ∨ pair.1 = second ∧ pair.2 = first
  rw [Affinity.weight_of_graph, ← counted]
  apply through.additive.accumulate
  intro edge member
  obtain ⟨positive, weight⟩ :=
    (CouplingGraph.mem_edges_weighed weigh).mp (List.mem_of_mem_filter member)
  rw [weight]
  exact through.weighs _ positive CallGraph.relations_between_le

/-- The coupling of two sets of classes stands for the number of relations that join them. -/
theorem between {rows columns : NameSet} (disjoint : ∀ name ∈ rows, name ∉ columns) :
    tracks (calls.relationsJoining separator rows columns).card
      ((Affinity.ofGraph (CouplingGraph.weighed weigh separator calls)).between rows columns) := by
  have terms : (rows.toList.flatMap fun row => columns.toList.map
      ((Affinity.ofGraph (CouplingGraph.weighed weigh separator calls)).weight row)) =
      (rows.toList ×ˢ columns.toList).map fun pair =>
        (Affinity.ofGraph (CouplingGraph.weighed weigh separator calls)).weight pair.1 pair.2 := by
    simp only [SProd.sprod, List.product, List.map_flatMap, List.map_map, Function.comp_def]
  rw [Affinity.between, terms, ← CallGraph.sum_of_pairs disjoint]
  apply through.additive.accumulate
  intro pair _
  exact through.affinity pair.1 pair.2

end CountsThrough

section Shares

variable {total : Nat}

theorem counts_exactly (total : Nat) :
    CountsThrough (fun count => (count : Rat)) total IsCount :=
  ⟨is_count_additive, fun _ _ _ => rfl⟩

theorem shares_rounded (positive : 0 < total) (bounded : total < 2 ^ 53) :
    CountsThrough (Weight.share total) total (RoundedShare total) :=
  ⟨rounded_share_additive positive bounded, fun _ counted within =>
    share_rounded counted within bounded⟩

theorem shares_exactly {places : Nat} (power : total = 2 ^ places) (bounded : total < 2 ^ 53) :
    CountsThrough (Weight.share total) total (ExactShare total) :=
  ⟨exact_share_additive power bounded, fun _ counted within =>
    share_exact power counted within bounded⟩

end Shares

end Cohesion
