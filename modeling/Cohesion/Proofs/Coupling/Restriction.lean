import Cohesion.Proofs.Coupling.Edges
import Cohesion.Proofs.Names.Numbering

/-!
# Coupling graphs cut down to some classes

The restriction has exactly the kept classes as sources, also those without a target, and the edges
with both ends among them. Affinities, couplings and averages of kept classes are the same, bit for
bit, since they come from the same additions.
-/

namespace Cohesion

variable {W : Type}

namespace CouplingGraph

/-- The kept classes, all of them sources, with the edges among them. -/
def restrict (graph : CouplingGraph W) (kept : NameSet) : CouplingGraph W :=
  ⟨⟨NameMap.ofSet kept fun source => ((graph.targets? source).getD ∅).restrict kept⟩⟩

theorem targets_restrict (graph : CouplingGraph W) (kept : NameSet) (source : String) :
    (graph.restrict kept).targets? source =
      if source ∈ kept then some (((graph.targets? source).getD ∅).restrict kept) else none :=
  NameMap.get?_of_set kept _ source

theorem weight_restrict (graph : CouplingGraph W) (kept : NameSet) (source target : String) :
    (graph.restrict kept).weight? source target =
      if source ∈ kept ∧ target ∈ kept then graph.weight? source target else none := by
  have row := targets_restrict graph kept source
  rw [weight?, NameTable.get?, ← targets?, row]
  by_cases sourceKept : source ∈ kept
  · rw [if_pos sourceKept, Option.bind_some, NameMap.get?_restrict]
    by_cases targetKept : target ∈ kept
    · rw [if_pos targetKept, if_pos ⟨sourceKept, targetKept⟩, weight?, NameTable.get?, ← targets?]
      cases graph.targets? source with
      | none => rfl
      | some values => rfl
    · rw [if_neg targetKept, if_neg fun both => targetKept both.2]
  · rw [if_neg sourceKept, if_neg fun both => sourceKept both.1]
    rfl

theorem classes_restrict (graph : CouplingGraph W) (kept : NameSet) :
    (graph.restrict kept).classes = kept := by
  ext name
  rw [mem_classes_iff]
  simp only [restrict, NameMap.ofSet, List.mem_map, exists_exists_and_eq_and,
    NameMap.mem_keys_restrict]
  constructor
  · rintro ⟨row, member, rfl | ⟨inside, _⟩⟩
    · exact member
    · exact inside
  · intro member
    exact ⟨name, member, .inl rfl⟩

theorem joining_edges_restrict (graph : CouplingGraph W) {kept : NameSet} {first second : String}
    (firstKept : first ∈ kept) (secondKept : second ∈ kept) :
    ((graph.restrict kept).edges.filter fun edge => decide (Affinity.Joining first second edge)) =
      graph.edges.filter fun edge => decide (Affinity.Joining first second edge) := by
  apply ((edges_ordered _).sublist List.filter_sublist).eq_of_mem_iff
    ((edges_ordered _).sublist List.filter_sublist)
  intro edge
  simp only [List.mem_filter, decide_eq_true_eq, mem_edges_iff, weight_restrict]
  apply and_congr_left
  intro joins
  have bothKept : edge.source ∈ kept ∧ edge.target ∈ kept := by
    rcases joins with ⟨sourceEq, targetEq⟩ | ⟨sourceEq, targetEq⟩
    · rw [sourceEq, targetEq]
      exact ⟨firstKept, secondKept⟩
    · rw [sourceEq, targetEq]
      exact ⟨secondKept, firstKept⟩
  rw [if_pos bothKept]

end CouplingGraph

namespace Affinity

variable [Weight W]

def AgreeOn (one other : Affinity W) (kept : NameSet) : Prop :=
  ∀ first ∈ kept, ∀ second ∈ kept, one.weight first second = other.weight first second

theorem agree_on_restrict (graph : CouplingGraph W) (kept : NameSet) :
    (ofGraph (graph.restrict kept)).AgreeOn (ofGraph graph) kept := by
  intro first firstKept second secondKept
  rw [weight_of_graph, weight_of_graph, graph.joining_edges_restrict firstKept secondKept]

theorem AgreeOn.between {one other : Affinity W} {kept rows columns : NameSet}
    (agree : one.AgreeOn other kept) (rowsKept : ∀ name ∈ rows, name ∈ kept)
    (columnsKept : ∀ name ∈ columns, name ∈ kept) :
    one.between rows columns = other.between rows columns := by
  rw [Affinity.between, Affinity.between, List.flatMap_def, List.flatMap_def]
  refine congrArg (Weight.accumulate ∘ List.flatten) (List.map_congr_left fun row rowMember => ?_)
  apply List.map_congr_left
  intro column columnMember
  exact agree row (rowsKept row rowMember) column (columnsKept column columnMember)

theorem AgreeOn.average {one other : Affinity W} {kept classes : NameSet}
    (agree : one.AgreeOn other kept) (inside : ∀ name ∈ classes, name ∈ kept) :
    one.average? classes = other.average? classes := by
  have same : (pairs classes.toList).map (fun pair => one.weight pair.1 pair.2) =
      (pairs classes.toList).map fun pair => other.weight pair.1 pair.2 := by
    apply List.map_congr_left
    intro pair member
    have both := mem_of_mem_pairs member
    exact agree _ (inside _ both.1) _ (inside _ both.2)
  rw [average?, average?]
  simp only [same]

end Affinity

end Cohesion
