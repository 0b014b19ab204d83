import Cohesion.Names.Map

/-!
Call graphs: each caller with the set of identifiers that it calls. A pair of caller and callee
counts once however often it is recorded, and a caller may call nothing.
-/

namespace Cohesion

structure CallGraph where
  calls : NameMap NameSet
  deriving DecidableEq

namespace CallGraph

def empty : CallGraph := ⟨∅⟩

instance : EmptyCollection CallGraph := ⟨empty⟩

instance : Inhabited CallGraph := ⟨empty⟩

def addCall (graph : CallGraph) (caller callee : String) : CallGraph :=
  ⟨graph.calls.adjust caller fun callees => (callees.getD ∅).insert callee⟩

/-- Make a caller known even if it calls nothing. -/
def addCaller (graph : CallGraph) (caller : String) : CallGraph :=
  ⟨graph.calls.adjust caller fun callees => callees.getD ∅⟩

def ofPairs (pairs : List (String × String)) : CallGraph :=
  pairs.foldl (fun graph (caller, callee) => graph.addCall caller callee) empty

def callees? (graph : CallGraph) (caller : String) : Option NameSet := graph.calls.get? caller

def toList (graph : CallGraph) : List (String × NameSet) := graph.calls.toList

def relations (graph : CallGraph) : List (String × String) :=
  graph.toList.flatMap fun (caller, callees) => callees.toList.map (caller, ·)

def callerCount (graph : CallGraph) : Nat := graph.calls.size

def relationCount (graph : CallGraph) : Nat :=
  graph.calls.values.foldr (fun callees total => callees.size + total) 0

def isEmpty (graph : CallGraph) : Bool := graph.calls.isEmpty

def outline (graph : CallGraph) : String :=
  String.join <| graph.toList.map fun (caller, callees) =>
    caller ++ " calls: [" ++ String.intercalate ", " callees.toList ++ "]\n"

end CallGraph

end Cohesion
