import Cohesion.CallGraph
import Cohesion.Coupling.Graph
import Cohesion.Json.Reader
import Cohesion.Json.Value

/-!
Graphs as JSON. A call graph is an object from callers to arrays of callees, a coupling graph an
object from source classes to objects from target classes to weights. When a name comes more than
once in an object, its last value holds.
-/

namespace Cohesion

/-- The map of a list of members, in which later members replace earlier ones. -/
def NameMap.ofMembers {Value : Type} (members : List (String × Value)) : NameMap Value :=
  members.foldl (fun map (name, value) => map.insert name value) ∅

namespace CallGraph

def toJson (graph : CallGraph) : Json :=
  .object <| graph.toList.map fun (caller, callees) =>
    (caller, .array (callees.toList.map Json.text))

def ofBytes (bytes : List UInt8) : Except Json.Defect CallGraph :=
  ((Json.Reader.tableOf (.listOf .text)).read bytes).map fun members =>
    ⟨NameMap.ofMembers (members.map fun (caller, callees) => (caller, NameSet.ofList callees))⟩

def ofJson (text : String) : Except Json.Defect CallGraph := ofBytes (Json.bytesOf text)

end CallGraph

namespace CouplingGraph

def toJson (graph : CouplingGraph Float) : Json :=
  .object <| graph.table.rows.toList.map fun (source, targets) =>
    (source, .object (targets.toList.map fun (target, weight) => (target, .number weight)))

def ofJson (text : String) : Except Json.Defect (CouplingGraph Float) :=
  ((Json.Reader.tableOf (.tableOf .number)).read (Json.bytesOf text)).map fun members =>
    ⟨⟨NameMap.ofMembers (members.map fun (source, targets) =>
      (source, NameMap.ofMembers targets))⟩⟩

end CouplingGraph

end Cohesion
