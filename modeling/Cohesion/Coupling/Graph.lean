import Cohesion.Names.Table
import Cohesion.Weight

/-!
Directed coupling between classes: at most one weight for each ordered pair of classes. A class
may be a source without any target; it still counts as a class.
-/

namespace Cohesion

structure Edge (W : Type) where
  source : String
  target : String
  weight : W
  deriving DecidableEq

structure CouplingSummary (W : Type) where
  classCount : Nat
  edgeCount : Nat
  totalWeight : W
  deriving DecidableEq

structure CouplingGraph (W : Type) where
  table : NameTable W
  deriving DecidableEq

namespace CouplingGraph

variable {W : Type}

def empty : CouplingGraph W := ⟨∅⟩

instance : EmptyCollection (CouplingGraph W) := ⟨empty⟩

/-- Set the weight of an ordered pair; an earlier weight of the pair is replaced. -/
def insert (graph : CouplingGraph W) (source target : String) (weight : W) : CouplingGraph W :=
  ⟨graph.table.insert source target weight⟩

def ofEdges (edges : List (Edge W)) : CouplingGraph W :=
  edges.foldl (fun graph edge => graph.insert edge.source edge.target edge.weight) empty

def weight? (graph : CouplingGraph W) (source target : String) : Option W :=
  graph.table.get? source target

def targets? (graph : CouplingGraph W) (source : String) : Option (NameMap W) :=
  graph.table.row? source

def edges (graph : CouplingGraph W) : List (Edge W) :=
  graph.table.cells.map fun (source, target, weight) => ⟨source, target, weight⟩

def edgeCount (graph : CouplingGraph W) : Nat := graph.table.size

def isEmpty (graph : CouplingGraph W) : Bool := graph.edgeCount == 0

def classes (graph : CouplingGraph W) : NameSet := graph.table.names

variable [Weight W]

/-- The weights of all edges, added in edge order. -/
def totalWeight (graph : CouplingGraph W) : W := Weight.sum (graph.edges.map Edge.weight)

def summary (graph : CouplingGraph W) : CouplingSummary W :=
  ⟨graph.classes.size, graph.edgeCount, graph.totalWeight⟩

end CouplingGraph

end Cohesion
