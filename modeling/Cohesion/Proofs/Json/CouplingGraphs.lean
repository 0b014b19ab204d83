import Cohesion.Json.Graph
import Cohesion.Proofs.Coupling.Edges
import Cohesion.Proofs.Json.CallGraphs
import Cohesion.Proofs.Json.ReadBack
import Cohesion.Proofs.Partition.Scaling

/-!
# Coupling graphs are read back up to the last places of their weights

Names, sources and targets come back as they were written. The shortest digits of a weight would tell
it apart from every other one, but they are read with more than one rounding, so what comes back of a
weight may be a double next to it.
-/

namespace Cohesion

theorem NameMap.map_values_eq_self {Value : Type} {transform : Value → Value} {map : NameMap Value}
    (fixed : ∀ entry ∈ map.toList, transform entry.2 = entry.2) : map.mapValues transform = map := by
  have entries : map.entries.map (fun entry => (entry.1, transform entry.2)) = map.entries := by
    calc map.entries.map (fun entry => (entry.1, transform entry.2)) = map.entries.map id :=
          List.map_congr_left fun entry member => Prod.ext rfl (fixed entry member)
      _ = map.entries := List.map_id _
  obtain ⟨_, _⟩ := map
  simp only [mapValues, NameMap.mk.injEq]
  exact entries

namespace CouplingGraph

open Json

def targetsRow (targets : NameMap Float) : List Token :=
  .openObject ::
    (partedRows true (targets.toList.map fun member =>
        memberRow member.1 [.number (.ok (readBack member.2))]) ++ [.closeObject])

def row (graph : CouplingGraph Float) : List Token :=
  .openObject ::
    (partedRows true (graph.table.rows.toList.map fun member =>
        memberRow member.1 (targetsRow member.2)) ++ [.closeObject])

def FiniteWeights (graph : CouplingGraph Float) : Prop :=
  ∀ edge ∈ graph.edges, edge.weight.isFinite = true

theorem mem_edges_of_cell {graph : CouplingGraph Float} {member : String × NameMap Float}
    (isRow : member ∈ graph.table.rows.toList) {cell : String × Float}
    (isCell : cell ∈ member.2.toList) : ⟨member.1, cell.1, cell.2⟩ ∈ graph.edges := by
  have isEdge : graph.weight? member.1 cell.1 = some cell.2 := by
    rw [weight?, NameTable.get?, NameTable.row?, (NameMap.mem_entries_iff _).mp isRow]
    exact (NameMap.mem_entries_iff _).mp isCell
  exact graph.mem_edges_iff.mpr isEdge

theorem targets_spelled {targets : NameMap Float}
    (finite : ∀ cell ∈ targets.toList, cell.2.isFinite = true) :
    Spells (Json.object (targets.toList.map fun cell => (cell.1, .number cell.2))).compact
      (targetsRow targets) := by
  apply object_spelled
  intro cell member
  exact number_spelled (finite cell member)

theorem compact_spelled {graph : CouplingGraph Float} (finite : graph.FiniteWeights) :
    Spells graph.toJson.compact graph.row := by
  apply object_spelled
  intro member isRow
  apply targets_spelled
  intro cell isCell
  exact finite ⟨member.1, cell.1, cell.2⟩ (mem_edges_of_cell isRow isCell)

theorem targets_read (targets : NameMap Float) :
    (Reader.tableOf .number).Reads (targetsRow targets)
      (targets.toList.map fun cell => (cell.1, readBack cell.2)) := by
  apply Reader.table_reads
  intro cell _
  exact .start (.done _)

theorem members_read (graph : CouplingGraph Float) :
    (Reader.tableOf (.tableOf .number)).Reads graph.row
      (graph.table.rows.toList.map fun member =>
        (member.1, member.2.toList.map fun cell => (cell.1, readBack cell.2))) := by
  apply Reader.table_reads
  intro member _
  exact targets_read member.2

theorem of_json_compact {graph : CouplingGraph Float} (finite : graph.FiniteWeights) :
    ofJson graph.toJson.compact = .ok (graph.mapWeights readBack) := by
  have read := graph.members_read.read (compact_spelled finite)
  have targets : ∀ map : NameMap Float,
      NameMap.ofMembers (map.toList.map fun cell => (cell.1, readBack cell.2)) =
        map.mapValues readBack := fun map => (map.mapValues readBack).of_members_to_list
  have rows : NameMap.ofMembers (graph.table.rows.toList.map fun member =>
      (member.1, member.2.mapValues readBack)) =
        graph.table.rows.mapValues (NameMap.mapValues readBack) :=
    (graph.table.rows.mapValues (NameMap.mapValues readBack)).of_members_to_list
  rw [ofJson, read, mapWeights, NameTable.mapValues, ← rows]
  simp only [Except.map, List.map_map, Function.comp_def, targets]

theorem map_weights_eq_self_iff (graph : CouplingGraph Float) (transform : Float → Float) :
    graph.mapWeights transform = graph ↔
      ∀ edge ∈ graph.edges, transform edge.weight = edge.weight := by
  constructor
  · intro same edge member
    have edges := edges_map_weights transform graph
    rw [same] at edges
    have kept := List.map_eq_map_iff.mp (edges.symm.trans (List.map_id _).symm) edge member
    exact congrArg Edge.weight kept
  · intro fixed
    have rows : graph.table.rows.mapValues (NameMap.mapValues transform) = graph.table.rows :=
      NameMap.map_values_eq_self fun member isRow => NameMap.map_values_eq_self fun cell isCell =>
        fixed _ (mem_edges_of_cell isRow isCell)
    rw [mapWeights, NameTable.mapValues, rows]

/-- What is read back of the text of a graph. Names and places are kept, also of sources without
targets. Each weight comes back as one computed from its digits, which is a finite double within a few
of the last places, and the same double if its digits need no rounding. -/
structure ReadsAs (graph reread : CouplingGraph Float) : Prop where
  classes : reread.classes = graph.classes
  sources (source : String) :
    reread.targets? source = (graph.targets? source).map (NameMap.mapValues readBack)
  edges : reread.edges =
    graph.edges.map fun edge => ⟨edge.source, edge.target, readBack edge.weight⟩
  finite : reread.FiniteWeights
  near : ∀ edge ∈ graph.edges,
    |(Decimal.Binary.ofFloat (readBack edge.weight)).number -
        (Decimal.Binary.ofFloat edge.weight).number| ≤
      |(Decimal.Binary.ofFloat edge.weight).number| / 2 ^ 50 + 2 ^ (-1073 : Int)
  exactly : ∀ edge ∈ graph.edges, ExactDigits edge.weight → readBack edge.weight = edge.weight
  same : reread = graph ↔ ∀ edge ∈ graph.edges, readBack edge.weight = edge.weight

theorem reads_as_map_weights {graph : CouplingGraph Float} (finite : graph.FiniteWeights) :
    graph.ReadsAs (graph.mapWeights readBack) where
  classes := NameTable.names_map_values readBack graph.table
  sources source := NameMap.get?_map_values _ _ source
  edges := edges_map_weights readBack graph
  finite := by
    intro edge member
    rw [edges_map_weights, List.mem_map] at member
    obtain ⟨written, isWritten, rfl⟩ := member
    exact read_back_finite (finite written isWritten)
  near edge member := read_back_near (finite edge member)
  exactly edge member exactly := read_back_exactly (finite edge member) exactly
  same := map_weights_eq_self_iff graph readBack

end CouplingGraph

/-- The JSON text of a coupling graph with finite weights is always read again, and gives the same
graph but for the last places of some weights. -/
theorem coupling_graph_read_back (graph : CouplingGraph Float) (finite : graph.FiniteWeights) :
    ∃ reread, CouplingGraph.ofJson graph.toJson.compact = .ok reread ∧ graph.ReadsAs reread :=
  ⟨graph.mapWeights readBack, CouplingGraph.of_json_compact finite,
    CouplingGraph.reads_as_map_weights finite⟩

/-- A class that shares one of eleven relations with another one, and a class without any target. -/
def eleventhShare : CouplingGraph Float :=
  ⟨⟨NameMap.ofMembers [("A", NameMap.ofMembers [("B", 1.0 / 11.0)]), ("C", ∅)]⟩⟩

theorem eleventh_share_read_back : eleventhShare.FiniteWeights ∧
    ∃ reread, CouplingGraph.ofJson eleventhShare.toJson.compact = .ok reread ∧
      eleventhShare.ReadsAs reread := by
  have finite : eleventhShare.FiniteWeights := by
    rw [CouplingGraph.FiniteWeights]
    decide +kernel
  exact ⟨finite, coupling_graph_read_back eleventhShare finite⟩

/-- One eleventh comes back as a greater double, so the graph that is read is another one. -/
theorem eleventh_share_changed : eleventhShare.FiniteWeights ∧
    ∃ reread, CouplingGraph.ofJson eleventhShare.toJson.compact = .ok reread ∧
      reread ≠ eleventhShare ∧
      eleventhShare.edges.map (fun edge => edge.weight.toBits) = [0x3FB745D1745D1746] ∧
      reread.edges.map (fun edge => edge.weight.toBits) = [0x3FB745D1745D1747] := by
  have finite : eleventhShare.FiniteWeights := by
    rw [CouplingGraph.FiniteWeights]
    decide +kernel
  have before : eleventhShare.edges.map (fun edge => edge.weight.toBits) = [0x3FB745D1745D1746] := by
    decide +kernel
  have after : (eleventhShare.mapWeights readBack).edges.map (fun edge => edge.weight.toBits) =
      [0x3FB745D1745D1747] := by
    decide +kernel
  refine ⟨finite, _, CouplingGraph.of_json_compact finite, ?_, before, after⟩
  intro same
  rw [same, before] at after
  cases after

end Cohesion
