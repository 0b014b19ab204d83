import Mathlib.Data.Finset.Card
import Mathlib.Data.List.Induction
import Cohesion.Clustering.Forest
import Cohesion.Proofs.Coupling.Insertion
import Cohesion.Proofs.Coupling.Tally
import Cohesion.Proofs.Names.ByteOrder

/-!
# The last weight of each pair

A coupling graph that comes into being by inserting edges one after the other has for each ordered
pair the weight that was inserted last. Everything else that was inserted for the pair is forgotten,
so edges, counts, classes and sums all follow from these last weights.
-/

namespace Cohesion

variable {W : Type}

namespace NameTable

/-- A filled row is a row of every table with the same cells. -/
theorem RowsFilled.row_of_lookups {left right : NameTable W} (filled : left.RowsFilled)
    (same : ∀ row column, left.get? row column = right.get? row column) {row : String}
    {values : NameMap W} (found : left.row? row = some values) :
    right.row? row = some values := by
  rcases filled row values found with ⟨column, value, held⟩
  have cells : ∀ other, right.get? row other = values.get? other := by
    intro other
    rw [← same, get?, found, Option.bind_some]
  cases otherFound : right.row? row with
  | none =>
      have absent := cells column
      rw [get?, otherFound, held] at absent
      cases absent
  | some others =>
      rw [Option.some.injEq]
      ext name : 1
      rw [← cells, get?, otherFound, Option.bind_some]

theorem eq_of_rows_filled {left right : NameTable W} (leftFilled : left.RowsFilled)
    (rightFilled : right.RowsFilled)
    (same : ∀ row column, left.get? row column = right.get? row column) : left = right := by
  have rows : left.rows = right.rows := by
    ext row values
    exact ⟨leftFilled.row_of_lookups same,
      rightFilled.row_of_lookups fun row column => (same row column).symm⟩
  cases left
  cases right
  cases rows
  rfl

end NameTable

def Edge.ends (edge : Edge W) : String × String := (edge.source, edge.target)

def lastWeight? (edges : List (Edge W)) (source target : String) : Option W :=
  (edges.filter fun edge => edge.ends = (source, target)).getLast?.map Edge.weight

theorem last_weight_append (edges : List (Edge W)) (edge : Edge W) (source target : String) :
    lastWeight? (edges ++ [edge]) source target =
      if source = edge.source ∧ target = edge.target then some edge.weight
      else lastWeight? edges source target := by
  have same : edge.ends = (source, target) ↔ source = edge.source ∧ target = edge.target := by
    rw [Edge.ends, Prod.mk.injEq, eq_comm, eq_comm (a := edge.target)]
  rw [lastWeight?, List.filter_append]
  by_cases joins : edge.ends = (source, target)
  · rw [if_pos (same.mp joins)]
    simp [joins]
  · rw [if_neg fun both => joins (same.mpr both)]
    simp [joins, lastWeight?]

theorem last_weight_some_iff (edges : List (Edge W)) (source target : String) :
    (∃ weight, lastWeight? edges source target = some weight) ↔
      (source, target) ∈ edges.map Edge.ends := by
  have listed : (source, target) ∈ edges.map Edge.ends ↔
      (edges.filter fun edge => edge.ends = (source, target)) ≠ [] := by
    simp [List.filter_eq_nil_iff]
  rw [listed, ← List.getLast?_isSome, ← Option.isSome_map (f := Edge.weight),
    Option.isSome_iff_exists]
  rfl

namespace CouplingGraph

variable (inserted : List (Edge W))

theorem of_edges_append (edge : Edge W) : ofEdges (inserted ++ [edge]) =
    (ofEdges inserted).insert edge.source edge.target edge.weight :=
  List.foldl_concat ..

theorem weight?_of_edges (source target : String) :
    (ofEdges inserted).weight? source target = lastWeight? inserted source target := by
  induction inserted using List.reverseRecOn with
  | nil => rfl
  | append_singleton earlier edge induction =>
      rw [of_edges_append, weight?_insert, last_weight_append, induction]

theorem mem_classes_of_edges {name : String} : name ∈ (ofEdges inserted).classes ↔
    ∃ edge ∈ inserted, name = edge.source ∨ name = edge.target := by
  induction inserted using List.reverseRecOn with
  | nil =>
      have absent : ¬name ∈ (ofEdges ([] : List (Edge W))).classes := NameSet.not_mem_empty
      simp [absent]
  | append_singleton earlier edge induction =>
      rw [of_edges_append, mem_classes_insert, induction]
      simp only [List.mem_append, List.mem_singleton, or_and_right, exists_or, exists_eq_left]
      rw [← or_assoc, or_comm]

theorem rows_filled_of_edges : (ofEdges inserted).table.RowsFilled := by
  induction inserted using List.reverseRecOn with
  | nil =>
      intro row values found
      cases found
  | append_singleton earlier edge induction =>
      rw [of_edges_append]
      exact NameTable.rows_filled_adjust induction _ _ _

theorem mem_edges_of_edges {edge : Edge W} : edge ∈ (ofEdges inserted).edges ↔
    lastWeight? inserted edge.source edge.target = some edge.weight := by
  rw [mem_edges_iff, weight?_of_edges]

theorem mem_ends_of_edges {pair : String × String} :
    pair ∈ (ofEdges inserted).edges.map Edge.ends ↔ pair ∈ inserted.map Edge.ends := by
  refine Iff.trans ?_ (last_weight_some_iff inserted pair.1 pair.2)
  rw [List.mem_map]
  constructor
  · rintro ⟨edge, member, rfl⟩
    exact ⟨edge.weight, (mem_edges_of_edges inserted).mp member⟩
  · rintro ⟨weight, last⟩
    exact ⟨⟨pair.1, pair.2, weight⟩, (mem_edges_of_edges inserted).mpr last, rfl⟩

theorem edge_count_of_edges :
    (ofEdges inserted).edgeCount = (inserted.map Edge.ends).toFinset.card := by
  have sets : (inserted.map Edge.ends).toFinset =
      ((ofEdges inserted).edges.map Edge.ends).toFinset := by
    ext pair
    rw [List.mem_toFinset, List.mem_toFinset, mem_ends_of_edges]
  have distinct : ((ofEdges inserted).edges.map Edge.ends).Nodup := edge_pairs_nodup _
  rw [sets, List.toFinset_card_of_nodup distinct, List.length_map, edge_count_eq]

theorem is_empty_of_edges : (ofEdges inserted).isEmpty = true ↔ inserted = [] := by
  rw [isEmpty, beq_iff_eq, edge_count_of_edges, Finset.card_eq_zero, List.toFinset_eq_empty_iff,
    List.map_eq_nil_iff]

theorem classes_of_edges_eq_empty : (ofEdges inserted).classes = ∅ ↔ inserted = [] := by
  constructor
  · intro noClass
    rw [List.eq_nil_iff_forall_not_mem]
    intro edge member
    have isClass := (mem_classes_of_edges inserted).mpr ⟨edge, member, .inl rfl⟩
    rw [noClass] at isClass
    exact NameSet.not_mem_empty isClass
  · rintro rfl
    rfl

/-- Rows come into being with a cell, so the last weights are all that a graph of inserted edges
consists of. -/
theorem of_edges_eq_iff (others : List (Edge W)) : ofEdges inserted = ofEdges others ↔
    ∀ source target, lastWeight? inserted source target = lastWeight? others source target := by
  constructor
  · intro same source target
    rw [← weight?_of_edges, same, weight?_of_edges]
  · intro same
    have tables : (ofEdges inserted).table = (ofEdges others).table := by
      apply NameTable.eq_of_rows_filled (rows_filled_of_edges _) (rows_filled_of_edges _)
      intro source target
      have lookups := same source target
      rwa [← weight?_of_edges, ← weight?_of_edges] at lookups
    exact congrArg mk tables

/-- What a graph tells after some insertions: for each pair the last weight, the pairs in byte order
with these weights, how many there are, their classes and the sum of the weights in this order. -/
structure KeepsLast [Weight W] (inserted : List (Edge W)) (graph : CouplingGraph W) : Prop where
  weight : ∀ source target, graph.weight? source target = lastWeight? inserted source target
  edges_ascend : (graph.edges.map Edge.ends).Pairwise <|
    PairBefore fun first second => nameBytes first < nameBytes second
  pairs_listed : ∀ pair, pair ∈ graph.edges.map Edge.ends ↔ pair ∈ inserted.map Edge.ends
  weights_listed : ∀ edge ∈ graph.edges,
    lastWeight? inserted edge.source edge.target = some edge.weight
  edge_count : graph.edgeCount = (inserted.map Edge.ends).toFinset.card
  classes : ∀ name, name ∈ graph.classes ↔
    ∃ edge ∈ inserted, name = edge.source ∨ name = edge.target
  is_empty : graph.isEmpty = true ↔ inserted = []
  no_class : graph.classes = ∅ ↔ inserted = []
  total : graph.totalWeight =
    (graph.edges.map Edge.weight).foldl Weight.add Weight.emptySum

theorem keeps_last [Weight W] : KeepsLast inserted (ofEdges inserted) where
  weight := weight?_of_edges inserted
  edges_ascend := by
    rw [List.pairwise_map]
    apply (edges_ordered _).imp
    intro edge other before
    exact before.imp lt_iff_name_bytes.mp (And.imp_right lt_iff_name_bytes.mp)
  pairs_listed _ := mem_ends_of_edges inserted
  weights_listed _ := (mem_edges_of_edges inserted).mp
  edge_count := edge_count_of_edges inserted
  classes _ := mem_classes_of_edges inserted
  is_empty := is_empty_of_edges inserted
  no_class := classes_of_edges_eq_empty inserted
  total := rfl

end CouplingGraph

/-- After any insertions the graph has the last weight of each pair and nothing else. So insertions
give the same graph exactly if they agree on the last weight of every pair, and then also the same
summary and the same dendrogram. -/
theorem last_weights_make_graph [Weight W] :
    (∀ inserted : List (Edge W),
      CouplingGraph.KeepsLast inserted (CouplingGraph.ofEdges inserted)) ∧
    ∀ inserted others : List (Edge W),
      (CouplingGraph.ofEdges inserted = CouplingGraph.ofEdges others ↔ ∀ source target,
        lastWeight? inserted source target = lastWeight? others source target) ∧
      ((∀ source target,
          lastWeight? inserted source target = lastWeight? others source target) →
        (CouplingGraph.ofEdges inserted).summary = (CouplingGraph.ofEdges others).summary ∧
          (CouplingGraph.ofEdges inserted).cluster? = (CouplingGraph.ofEdges others).cluster?) := by
  refine ⟨fun inserted => CouplingGraph.keeps_last inserted, fun inserted others => ?_⟩
  have decided := CouplingGraph.of_edges_eq_iff inserted others
  refine ⟨decided, fun same => ?_⟩
  rw [decided.mpr same]
  exact ⟨rfl, rfl⟩

/-- The first weight of the pair is replaced, and its place is that of the pair. -/
example : (CouplingGraph.ofEdges [⟨"b", "a", 0.5⟩, ⟨"a", "b", 0.25⟩, ⟨"b", "a", -1.0⟩] :
    CouplingGraph Float).edges = [⟨"a", "b", 0.25⟩, ⟨"b", "a", -1.0⟩] := by decide +kernel

end Cohesion
