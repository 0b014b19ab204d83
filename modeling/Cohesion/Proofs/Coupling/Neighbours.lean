import Cohesion.Proofs.Coupling.Directions
import Cohesion.Proofs.Names.ByteOrder

/-!
# Neighbours and both directions of an affinity

Counting an edge fills the cell for its ends and the one for its ends the other way round, and no
other cell. So a table of affinities has a cell for two classes exactly if an edge joins them, and
what it lists next to a class are the classes that it shares an edge with.
-/

namespace Cohesion

variable {W : Type}

def CouplingGraph.Joined (graph : CouplingGraph W) (first second : String) : Prop :=
  (graph.weight? first second).isSome = true ∨ (graph.weight? second first).isSome = true

theorem CouplingGraph.joined_comm {graph : CouplingGraph W} {first second : String} :
    graph.Joined first second ↔ graph.Joined second first := or_comm

theorem CouplingGraph.joined_iff {graph : CouplingGraph W} {first second : String} :
    graph.Joined first second ↔ ∃ edge ∈ graph.edges, Affinity.Joining first second edge := by
  constructor
  · intro joined
    rcases joined with forward | backward
    · rcases Option.isSome_iff_exists.mp forward with ⟨weight, held⟩
      exact ⟨⟨first, second, weight⟩, graph.mem_edges_iff.mpr held, .inl ⟨rfl, rfl⟩⟩
    · rcases Option.isSome_iff_exists.mp backward with ⟨weight, held⟩
      exact ⟨⟨second, first, weight⟩, graph.mem_edges_iff.mpr held, .inr ⟨rfl, rfl⟩⟩
  · intro some_edge
    rcases some_edge with ⟨edge, member, joins⟩
    have held := graph.mem_edges_iff.mp member
    rcases joins with ⟨source, target⟩ | ⟨source, target⟩
    · rw [source, target] at held
      exact .inl (by simp [held])
    · rw [source, target] at held
      exact .inr (by simp [held])

namespace Affinity

variable [Weight W]

def HasCell (affinity : Affinity W) (first second : String) : Prop :=
  (affinity.table.get? first second).isSome = true

theorem has_cell_accrue (affinity : Affinity W) (row column first second : String) (added : W) :
    (affinity.accrue row column added).HasCell first second ↔
      first = row ∧ second = column ∨ affinity.HasCell first second := by
  by_cases same : first = row ∧ second = column
  · rcases same with ⟨rfl, rfl⟩
    simp [HasCell, accrue]
  · have unchanged := NameTable.get?_adjust_of_ne affinity.table (not_and_or.mp same)
      (fun old => Weight.add (old.getD Weight.zero) added)
    simp [HasCell, accrue, unchanged, same]

theorem has_cell_add_edge (affinity : Affinity W) (edge : Edge W) (first second : String) :
    (affinity.addEdge edge).HasCell first second ↔
      Joining first second edge ∨ affinity.HasCell first second := by
  have forward := has_cell_accrue affinity edge.source edge.target first second edge.weight
  have backward := has_cell_accrue (affinity.accrue edge.source edge.target edge.weight)
    edge.target edge.source first second edge.weight
  simp only [addEdge, Joining]
  split
  · next isLoop =>
      rw [forward, isLoop]
      grind
  · rw [backward, forward]
    grind

theorem has_cell_add_edges (affinity : Affinity W) (edges : List (Edge W))
    (first second : String) :
    (edges.foldl addEdge affinity).HasCell first second ↔
      (∃ edge ∈ edges, Joining first second edge) ∨ affinity.HasCell first second := by
  induction edges generalizing affinity with
  | nil => simp
  | cons edge rest induction =>
      rw [List.foldl_cons, induction, has_cell_add_edge]
      simp only [List.mem_cons, exists_eq_or_imp]
      grind

theorem has_cell_of_graph (graph : CouplingGraph W) (first second : String) :
    (ofGraph graph).HasCell first second ↔ graph.Joined first second := by
  have empty : ¬HasCell (W := W) ⟨∅⟩ first second := Bool.false_ne_true
  rw [ofGraph, has_cell_add_edges, CouplingGraph.joined_iff, or_iff_left empty]

omit [Weight W] in
theorem mem_neighbours_iff_cell {affinity : Affinity W} {name other : String} {weight : W} :
    (other, weight) ∈ affinity.neighbours name ↔ affinity.table.get? name other = some weight := by
  rw [neighbours, NameMap.toList, NameMap.mem_entries_iff, NameTable.get?]
  cases affinity.table.row? name with
  | none => exact Iff.rfl
  | some values => exact Iff.rfl

/-- The neighbours of a class are the classes joined with it, each with its affinity. -/
theorem mem_neighbours_iff (graph : CouplingGraph W) {name other : String} {weight : W} :
    (other, weight) ∈ (ofGraph graph).neighbours name ↔
      graph.Joined name other ∧ weight = (ofGraph graph).weight name other := by
  rw [mem_neighbours_iff_cell, ← has_cell_of_graph, HasCell, Affinity.weight]
  cases (ofGraph graph).table.get? name other with
  | none => simp
  | some held => simp [eq_comm]

omit [Weight W] in
theorem neighbours_ascending (affinity : Affinity W) (name : String) :
    ((affinity.neighbours name).map Prod.fst).Pairwise (· < ·) :=
  ((affinity.table.row? name).getD ∅).ascending

def including (total : W) (weight : Option W) : W := weight.elim total (Weight.add total)

theorem accumulate_pair (forward backward : Option W) :
    Weight.accumulate (forward.toList ++ backward.toList) =
      including (including Weight.zero forward) backward := by
  cases forward <;> cases backward <;> rfl

end Affinity

namespace CouplingGraph

variable [Weight W]

omit [Weight W] in
/-- A class is joined with itself by its loop alone. -/
theorem loop_edges (graph : CouplingGraph W) (name : String) :
    (graph.edges.filter fun edge => decide (Affinity.Joining name name edge)) =
      (graph.weight? name name).toList.map (Edge.mk name name) := by
  apply ((edges_ordered graph).sublist List.filter_sublist).eq_of_mem_iff
  · cases graph.weight? name name <;> simp
  · intro edge
    rcases edge with ⟨source, target, weight⟩
    simp only [List.mem_filter, mem_edges_iff, decide_eq_true_eq, Affinity.Joining, or_self,
      List.mem_map, Option.mem_toList, Edge.mk.injEq]
    constructor
    · intro found
      rcases found with ⟨held, rfl, rfl⟩
      exact ⟨weight, held, rfl, rfl, rfl⟩
    · intro found
      rcases found with ⟨_, held, rfl, rfl, rfl⟩
      exact ⟨held, rfl, rfl⟩

theorem affinity_of_loop (graph : CouplingGraph W) (name : String) :
    (Affinity.ofGraph graph).weight name name =
      Affinity.including Weight.zero (graph.weight? name name) := by
  rw [Affinity.weight_of_graph, loop_edges]
  cases graph.weight? name name <;> rfl

theorem affinity_of_unjoined {graph : CouplingGraph W} {first second : String}
    (unjoined : ¬graph.Joined first second) :
    (Affinity.ofGraph graph).weight first second = Weight.zero := by
  rw [← Affinity.has_cell_of_graph, Affinity.HasCell, Option.isSome_iff_ne_none, not_not]
    at unjoined
  rw [Affinity.weight, unjoined, Option.getD_none]

/-- The affinities of a graph are symmetric, each sums up the directions that have an edge, and the
neighbours of a class are what it is joined with. -/
structure SumsDirections (graph : CouplingGraph W) : Prop where
  symmetric (first second : String) :
    (Affinity.ofGraph graph).weight first second = (Affinity.ofGraph graph).weight second first
  both_directions (smaller larger : String) : nameBytes smaller < nameBytes larger →
    (Affinity.ofGraph graph).weight smaller larger = Affinity.including
      (Affinity.including Weight.zero (graph.weight? smaller larger)) (graph.weight? larger smaller)
  loop_once (name : String) : (Affinity.ofGraph graph).weight name name =
    Affinity.including Weight.zero (graph.weight? name name)
  unjoined (first second : String) : ¬graph.Joined first second →
    (Affinity.ofGraph graph).weight first second = Weight.zero
  byte_order (name : String) : (((Affinity.ofGraph graph).neighbours name).map Prod.fst).Pairwise
    fun one other => nameBytes one < nameBytes other
  neighbour_iff (name other : String) (weight : W) :
    (other, weight) ∈ (Affinity.ofGraph graph).neighbours name ↔
      graph.Joined name other ∧ weight = (Affinity.ofGraph graph).weight name other
  mutual_neighbours (name other : String) :
    other ∈ ((Affinity.ofGraph graph).neighbours name).map Prod.fst ↔
      name ∈ ((Affinity.ofGraph graph).neighbours other).map Prod.fst

theorem neighbour_names (graph : CouplingGraph W) {name other : String} :
    other ∈ ((Affinity.ofGraph graph).neighbours name).map Prod.fst ↔ graph.Joined name other := by
  simp only [List.mem_map, Prod.exists, Affinity.mem_neighbours_iff]
  constructor
  · intro listed
    rcases listed with ⟨_, _, ⟨joined, _⟩, rfl⟩
    exact joined
  · intro joined
    exact ⟨other, _, ⟨joined, rfl⟩, rfl⟩

end CouplingGraph

/-- Affinities are symmetric down to the last bit and count every edge once, whatever its weight. -/
theorem affinity_sums_directions [Weight W] (graph : CouplingGraph W) : graph.SumsDirections where
  symmetric := Affinity.weight_symm graph
  both_directions smaller larger less := by
    rw [graph.affinity_of_pair (lt_iff_name_bytes.mpr less), Affinity.accumulate_pair]
  loop_once := graph.affinity_of_loop
  unjoined _ _ := CouplingGraph.affinity_of_unjoined
  byte_order name :=
    (Affinity.neighbours_ascending _ name).imp fun less => lt_iff_name_bytes.mp less
  neighbour_iff _ _ _ := Affinity.mem_neighbours_iff graph
  mutual_neighbours _ _ := by
    rw [graph.neighbour_names, graph.neighbour_names, CouplingGraph.joined_comm]

end Cohesion
