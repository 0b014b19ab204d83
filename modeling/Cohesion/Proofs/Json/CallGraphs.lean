import Cohesion.Json.Graph
import Cohesion.Proofs.Json.Reading
import Cohesion.Proofs.Names.Renaming

/-!
# Call graphs are read back

The members of a call graph are written in the order of their names, once each. Reading them puts
each behind the ones before it, so the map and its sets come out as they were.
-/

namespace Cohesion

@[simp] theorem NameSet.of_list_to_list (set : NameSet) : NameSet.ofList set.toList = set := by
  ext name
  simp

@[simp] theorem NameMap.of_members_to_list {Value : Type} (map : NameMap Value) :
    NameMap.ofMembers map.toList = map := by
  have members := entries_of_ascending map.ascending
  ext name : 1
  rw [get?, get?, ofMembers, toList, members]

namespace CallGraph

open Json

def calleesRow (callees : NameSet) : List Token :=
  .openArray ::
    (partedRows true (callees.toList.map fun callee => [.text (.ok callee)]) ++ [.closeArray])

def row (graph : CallGraph) : List Token :=
  .openObject ::
    (partedRows true (graph.toList.map fun member => memberRow member.1 (calleesRow member.2)) ++
      [.closeObject])

theorem callees_spelled (callees : NameSet) :
    Spells (Json.array (callees.toList.map .text)).compact (calleesRow callees) := by
  apply array_spelled
  intro callee _
  exact text_spelled callee

theorem compact_spelled (graph : CallGraph) : Spells graph.toJson.compact graph.row := by
  apply object_spelled
  intro member _
  exact callees_spelled member.2

theorem callees_read (callees : NameSet) :
    (Reader.listOf .text).Reads (calleesRow callees) callees.toList := by
  have read : ∀ callee ∈ callees.toList, Reader.text.Reads [.text (.ok callee)] callee := by
    intro callee _
    exact Reader.text_reads callee
  simpa [calleesRow] using Reader.list_reads read rfl

theorem members_read (graph : CallGraph) :
    (Reader.tableOf (.listOf .text)).Reads graph.row
      (graph.toList.map fun member => (member.1, member.2.toList)) := by
  apply Reader.table_reads
  intro member _
  exact callees_read member.2

theorem of_bytes_compact (graph : CallGraph) :
    ofBytes (bytesOf graph.toJson.compact) = .ok graph := by
  have read := graph.members_read.read graph.compact_spelled
  rw [ofBytes, read]
  simp [Except.map, Function.comp_def, toList]

end CallGraph

/-- The JSON text of a call graph is read back as that graph, from the text and from its bytes. So
graphs with the same text are the same. -/
theorem call_graph_read_back (graph : CallGraph) :
    CallGraph.ofJson graph.toJson.compact = .ok graph ∧
    CallGraph.ofBytes (Json.bytesOf graph.toJson.compact) = .ok graph ∧
    ∀ other : CallGraph, graph.toJson.compact = other.toJson.compact ↔ graph = other := by
  have whole := graph.of_bytes_compact
  refine ⟨whole, whole, fun other => ⟨fun same => ?_, fun same => ?_⟩⟩
  · rw [same, other.of_bytes_compact] at whole
    exact (Except.ok.inj whole).symm
  · rw [same]

/-- Escapes, a text of more than one byte for a character, and a caller that calls nothing. -/
example : ((CallGraph.ofPairs [("a\t", "\x01é")]).addCaller "").toJson.compact =
    "\x7b\"\":[],\"a\\t\":[\"\\u0001é\"]\x7d" := by decide

end Cohesion
