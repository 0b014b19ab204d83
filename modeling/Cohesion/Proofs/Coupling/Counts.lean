import Mathlib.Algebra.BigOperators.Ring.Finset
import Mathlib.Algebra.Order.Field.Rat
import Cohesion.Proofs.Coupling.Edges
import Cohesion.Proofs.Coupling.Relations
import Cohesion.Proofs.Coupling.Tally

/-!
# Coupling weights count relations

The coupling graph of a call graph has one edge for each ordered pair of classes that some crossing
relation joins. Its weight is the number of these relations as a share of all crossing relations, so
exact weights are positive and add up to one.
-/

namespace Cohesion

namespace CallGraph

variable {calls : CallGraph} {separator : Separator} {source target : String}

theorem mem_relations_between {relation : String × String} :
    relation ∈ calls.relationsBetween separator source target ↔
      relation ∈ calls.crossingRelations separator ∧
        separator.classPair relation = (source, target) :=
  Finset.mem_filter

theorem relations_between_pos :
    0 < (calls.relationsBetween separator source target).card ↔
      ∃ relation ∈ calls.crossingRelations separator,
        separator.classPair relation = (source, target) := by
  rw [Finset.card_pos]
  constructor
  · rintro ⟨relation, member⟩
    exact ⟨relation, mem_relations_between.mp member⟩
  · rintro ⟨relation, member⟩
    exact ⟨relation, mem_relations_between.mpr member⟩

theorem relations_between_le :
    (calls.relationsBetween separator source target).card ≤
      (calls.crossingRelations separator).card :=
  Finset.card_le_card (Finset.filter_subset _ _)

theorem ends_differ {relation : String × String}
    (member : relation ∈ calls.crossingRelations separator) :
    separator.classOf relation.1 ≠ separator.classOf relation.2 :=
  (mem_crossing_relations.mp member).2

end CallGraph

namespace CouplingGraph

section Weighed

variable {W : Type}

/-- The graph in which each edge has a weight for the number of relations that it stands for. -/
def weighed (weigh : Nat → W) (separator : Separator) (calls : CallGraph) : CouplingGraph W :=
  ⟨(tally (calls.crossings separator)).table.mapValues weigh⟩

theorem of_calls_eq_weighed [Weight W] (separator : Separator) (calls : CallGraph) :
    (ofCalls separator calls : CouplingGraph W) =
      weighed (Weight.share (calls.crossingRelations separator).card) separator calls := by
  rw [← CallGraph.length_crossings]
  rfl

variable (weigh : Nat → W) {separator : Separator} {calls : CallGraph}

variable (separator calls) in
theorem weight?_weighed (source target : String) :
    (weighed weigh separator calls).weight? source target =
      if (calls.relationsBetween separator source target).card = 0 then none
      else some (weigh (calls.relationsBetween separator source target).card) := by
  rw [weight?, weighed, NameTable.get?_map_values, get?_tally, CallGraph.count_crossings]
  split
  · rfl
  · rfl

theorem mem_edges_weighed {edge : Edge W} :
    edge ∈ (weighed weigh separator calls).edges ↔
      0 < (calls.relationsBetween separator edge.source edge.target).card ∧
        edge.weight = weigh (calls.relationsBetween separator edge.source edge.target).card := by
  rw [mem_edges_iff, weight?_weighed, Option.ite_none_left_eq_some, Option.some.injEq,
    Nat.pos_iff_ne_zero, eq_comm (a := edge.weight)]

theorem edge_of_relation {relation : String × String}
    (member : relation ∈ calls.crossingRelations separator) :
    ∃ edge ∈ (weighed weigh separator calls).edges,
      (edge.source, edge.target) = separator.classPair relation := by
  have joined := CallGraph.relations_between_pos.mpr ⟨relation, member, rfl⟩
  have found := weight?_weighed weigh separator calls (separator.classOf relation.1)
    (separator.classOf relation.2)
  rw [if_neg (Nat.ne_of_gt joined)] at found
  exact ⟨⟨_, _, _⟩, (mem_edges_iff _).mpr found, rfl⟩

theorem relation_of_edge {edge : Edge W} (member : edge ∈ (weighed weigh separator calls).edges) :
    ∃ relation ∈ calls.crossingRelations separator,
      separator.classPair relation = (edge.source, edge.target) :=
  CallGraph.relations_between_pos.mp ((mem_edges_weighed weigh).mp member).1

theorem mem_classes_weighed {name : String} :
    name ∈ (weighed weigh separator calls).classes ↔
      ∃ relation ∈ calls.crossingRelations separator,
        name = separator.classOf relation.1 ∨ name = separator.classOf relation.2 := by
  have filled : (weighed weigh separator calls).table.RowsFilled :=
    NameTable.rows_filled_map_values (rows_filled_tally _) _
  rw [classes, filled.mem_names]
  constructor
  · rintro ⟨source, target, weight, found, isEnd⟩
    have edge : ⟨source, target, weight⟩ ∈ (weighed weigh separator calls).edges :=
      (mem_edges_iff _).mpr found
    obtain ⟨relation, member, pair⟩ := relation_of_edge weigh edge
    cases pair
    exact ⟨relation, member, isEnd⟩
  · rintro ⟨relation, member, isEnd⟩
    obtain ⟨⟨source, target, weight⟩, edge, pair⟩ := edge_of_relation weigh member
    cases pair
    exact ⟨_, _, weight, (mem_edges_iff _).mp edge, isEnd⟩

theorem edges_weighed_eq_nil : (weighed weigh separator calls).edges = [] ↔
    (calls.crossingRelations separator).card = 0 := by
  rw [List.eq_nil_iff_forall_not_mem, Finset.card_eq_zero, Finset.eq_empty_iff_forall_notMem]
  constructor
  · intro noEdge relation member
    obtain ⟨edge, edgeMember, _⟩ := edge_of_relation weigh member
    exact noEdge edge edgeMember
  · intro noRelation edge edgeMember
    obtain ⟨relation, member, _⟩ := relation_of_edge weigh edgeMember
    exact noRelation relation member

theorem classes_weighed_eq_empty : (weighed weigh separator calls).classes = ∅ ↔
    (calls.crossingRelations separator).card = 0 := by
  rw [Finset.card_eq_zero, Finset.eq_empty_iff_forall_notMem]
  constructor
  · intro noClass relation member
    have inside := (mem_classes_weighed weigh).mpr ⟨relation, member, .inl rfl⟩
    rw [noClass] at inside
    exact NameSet.not_mem_empty inside
  · intro noRelation
    ext name
    apply iff_of_false _ NameSet.not_mem_empty
    intro inside
    obtain ⟨relation, member, _⟩ := (mem_classes_weighed weigh).mp inside
    exact noRelation relation member

variable (separator calls) in
/-- The edges between chosen pairs of classes count the crossing relations between these. -/
theorem sum_of_chosen (chosen : String × String → Prop) [DecidablePred chosen] :
    (((weighed weigh separator calls).edges.filter fun edge =>
      decide (chosen (edge.source, edge.target))).map fun edge =>
        (calls.relationsBetween separator edge.source edge.target).card).sum =
      ((calls.crossingRelations separator).filter fun relation =>
        chosen (separator.classPair relation)).card := by
  have onto : ∀ relation ∈ (calls.crossingRelations separator).filter fun relation =>
      chosen (separator.classPair relation), separator.classPair relation ∈
        (((weighed weigh separator calls).edges.filter fun edge =>
          decide (chosen (edge.source, edge.target))).map fun edge =>
            (edge.source, edge.target)).toFinset := by
    intro relation member
    obtain ⟨crossing, isChosen⟩ := Finset.mem_filter.mp member
    obtain ⟨edge, edgeMember, pair⟩ := edge_of_relation weigh crossing
    rw [← pair] at isChosen ⊢
    exact List.mem_toFinset.mpr (List.mem_map_of_mem
      (List.mem_filter.mpr ⟨edgeMember, decide_eq_true isChosen⟩))
  have distinct := (edge_pairs_nodup (weighed weigh separator calls)).sublist
    (List.Sublist.map _ (List.filter_sublist (p := fun edge =>
      decide (chosen (edge.source, edge.target)))))
  rw [Finset.card_eq_sum_card_fiberwise onto, List.sum_toFinset _ distinct, List.map_map]
  apply congrArg
  apply List.map_congr_left
  intro edge member
  have isChosen := of_decide_eq_true (List.mem_filter.mp member).2
  apply congrArg
  ext relation
  simp only [CallGraph.mem_relations_between, Finset.mem_filter]
  constructor
  · rintro ⟨crossing, pair⟩
    exact ⟨⟨crossing, pair ▸ isChosen⟩, pair⟩
  · rintro ⟨⟨crossing, _⟩, pair⟩
    exact ⟨crossing, pair⟩

end Weighed

section AnyWeights

variable {W : Type} [Weight W] {separator : Separator} {calls : CallGraph}

theorem mem_edges_of_calls {edge : Edge W} :
    edge ∈ (ofCalls separator calls).edges ↔
      0 < (calls.relationsBetween separator edge.source edge.target).card ∧
        edge.weight = Weight.share (calls.crossingRelations separator).card
          (calls.relationsBetween separator edge.source edge.target).card := by
  rw [of_calls_eq_weighed, mem_edges_weighed]

/-- Call graphs with the same crossing relations have the same coupling. -/
theorem of_calls_congr {other : CallGraph}
    (same : other.crossingRelations separator = calls.crossingRelations separator) :
    (ofCalls separator other : CouplingGraph W) = ofCalls separator calls := by
  rw [ofCalls, ofCalls, CallGraph.crossings_eq_of_relations same]

/-- What a coupling graph tells about the crossing relations, whatever its weights are. -/
structure CountsRelations (W : Type) [Weight W] (separator : Separator) (calls : CallGraph) :
    Prop where
  crossing_iff (caller callee : String) :
    (caller, callee) ∈ calls.crossingRelations separator ↔
      (∃ callees, calls.callees? caller = some callees ∧ callee ∈ callees) ∧
        separator.classOf caller ≠ separator.classOf callee
  edge_iff (edge : Edge W) : edge ∈ (ofCalls separator calls).edges ↔
    (∃ relation ∈ calls.crossingRelations separator,
      separator.classPair relation = (edge.source, edge.target)) ∧
    edge.weight = Weight.share (calls.crossingRelations separator).card
      (calls.relationsBetween separator edge.source edge.target).card
  pairs_distinct : ((ofCalls separator calls : CouplingGraph W).edges.map fun edge =>
    (edge.source, edge.target)).Nodup
  no_loop : ∀ edge ∈ (ofCalls separator calls : CouplingGraph W).edges, edge.source ≠ edge.target
  class_iff (name : String) : name ∈ (ofCalls separator calls : CouplingGraph W).classes ↔
    ∃ relation ∈ calls.crossingRelations separator,
      name = separator.classOf relation.1 ∨ name = separator.classOf relation.2
  no_edge_iff : (ofCalls separator calls : CouplingGraph W).edges = [] ↔
    (calls.crossingRelations separator).card = 0
  no_class_iff : (ofCalls separator calls : CouplingGraph W).classes = ∅ ↔
    (calls.crossingRelations separator).card = 0
  determined (other : CallGraph) :
    other.crossingRelations separator = calls.crossingRelations separator →
    ofCalls separator other = (ofCalls separator calls : CouplingGraph W)
  idle_caller (caller : String) : ofCalls separator (calls.addCaller caller) =
    (ofCalls separator calls : CouplingGraph W)
  inner_call (caller callee : String) : separator.classOf caller = separator.classOf callee →
    ofCalls separator (calls.addCall caller callee) =
      (ofCalls separator calls : CouplingGraph W)

theorem counts_relations : CountsRelations W separator calls where
  crossing_iff _ _ := CallGraph.mem_crossing_relations
  edge_iff _ := by rw [mem_edges_of_calls, CallGraph.relations_between_pos]
  pairs_distinct := edge_pairs_nodup _
  no_loop edge member := by
    obtain ⟨relation, crossing, pair⟩ :=
      CallGraph.relations_between_pos.mp (mem_edges_of_calls.mp member).1
    obtain ⟨source, target⟩ := Prod.mk.inj pair
    rw [← source, ← target]
    exact CallGraph.ends_differ crossing
  class_iff _ := by rw [of_calls_eq_weighed, mem_classes_weighed]
  no_edge_iff := by rw [of_calls_eq_weighed, edges_weighed_eq_nil]
  no_class_iff := by rw [of_calls_eq_weighed, classes_weighed_eq_empty]
  determined _ same := of_calls_congr same
  idle_caller caller := of_calls_congr (CallGraph.crossing_relations_add_caller caller)
  inner_call _ _ inner := of_calls_congr (CallGraph.crossing_relations_add_inner_call inner)

end AnyWeights

section ExactWeights

variable {separator : Separator} {calls : CallGraph}

/-- Exact weights: the relations between two classes as a fraction of all crossing relations. -/
structure ExactShares (separator : Separator) (calls : CallGraph) : Prop where
  weight_mul : ∀ edge ∈ (ofCalls separator calls : CouplingGraph Rat).edges,
    edge.weight * (calls.crossingRelations separator).card =
      (calls.relationsBetween separator edge.source edge.target).card
  weight_pos : ∀ edge ∈ (ofCalls separator calls : CouplingGraph Rat).edges, 0 < edge.weight
  weight_le_one : ∀ edge ∈ (ofCalls separator calls : CouplingGraph Rat).edges, edge.weight ≤ 1
  total_weight : 0 < (calls.crossingRelations separator).card →
    (ofCalls separator calls : CouplingGraph Rat).totalWeight = 1

theorem weight_sum_eq (weights : List Rat) : Weight.sum weights = weights.sum :=
  List.sum_eq_foldl.symm

variable (separator calls) in
theorem sum_relations_between :
    ((ofCalls separator calls : CouplingGraph Rat).edges.map fun edge =>
      (calls.relationsBetween separator edge.source edge.target).card).sum =
      (calls.crossingRelations separator).card := by
  have counted := sum_of_chosen (Weight.share (W := Rat) (calls.crossingRelations separator).card)
    separator calls fun _ => True
  rw [← of_calls_eq_weighed] at counted
  simpa using counted

theorem exact_shares : ExactShares separator calls where
  weight_mul edge member := by
    obtain ⟨positive, weight⟩ := mem_edges_of_calls.mp member
    have total := positive.trans_le CallGraph.relations_between_le
    rw [weight]
    exact div_mul_cancel₀ _ (Nat.cast_ne_zero.mpr total.ne')
  weight_pos edge member := by
    obtain ⟨positive, weight⟩ := mem_edges_of_calls.mp member
    have total := positive.trans_le CallGraph.relations_between_le
    rw [weight]
    exact div_pos (Nat.cast_pos.mpr positive) (Nat.cast_pos.mpr total)
  weight_le_one edge member := by
    obtain ⟨positive, weight⟩ := mem_edges_of_calls.mp member
    rw [weight]
    exact div_le_one_of_le₀ (Nat.cast_le.mpr CallGraph.relations_between_le) (Nat.cast_nonneg _)
  total_weight nonempty := by
    have shares : (ofCalls separator calls : CouplingGraph Rat).edges.map Edge.weight =
        (ofCalls separator calls : CouplingGraph Rat).edges.map fun edge =>
          ((calls.relationsBetween separator edge.source edge.target).card : Rat) *
            ((calls.crossingRelations separator).card : Rat)⁻¹ := by
      apply List.map_congr_left
      intro edge member
      rw [(mem_edges_of_calls.mp member).2, ← div_eq_mul_inv]
      rfl
    have counted := congrArg (Nat.cast : Nat → Rat) (sum_relations_between separator calls)
    rw [Nat.cast_list_sum, List.map_map] at counted
    calc (ofCalls separator calls : CouplingGraph Rat).totalWeight
        = (((ofCalls separator calls : CouplingGraph Rat).edges.map fun edge =>
            ((calls.relationsBetween separator edge.source edge.target).card : Rat)).sum) *
              ((calls.crossingRelations separator).card : Rat)⁻¹ := by
          rw [totalWeight, weight_sum_eq, shares, List.sum_map_mul_right]
      _ = (calls.crossingRelations separator).card *
            ((calls.crossingRelations separator).card : Rat)⁻¹ :=
          congrArg (· * _) counted
      _ = 1 := mul_inv_cancel₀ (Nat.cast_ne_zero.mpr nonempty.ne')

end ExactWeights

end CouplingGraph

/-- The coupling graph of a call graph is the normalised count of the relations that cross a class
boundary. -/
theorem coupling_counts_relations (W : Type) [Weight W] (separator : Separator)
    (calls : CallGraph) :
    CouplingGraph.CountsRelations W separator calls ∧ CouplingGraph.ExactShares separator calls :=
  ⟨CouplingGraph.counts_relations, CouplingGraph.exact_shares⟩

end Cohesion
