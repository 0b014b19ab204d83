import Cohesion.Names.Set

/-!
Dendrograms: binary trees of classes, kept as a list of nodes in the order of their creation. A
node names its children by their places in the list, and children stand before their parents.
-/

namespace Cohesion

/-- A single class, or two earlier nodes joined at a coupling with all classes below them. -/
inductive Node (W : Type) where
  | leaf (name : String)
  | merged (left right : Nat) (coupling : W) (classes : NameSet)
  deriving DecidableEq

namespace Node

variable {W : Type}

def classes : Node W → NameSet
  | leaf name => NameSet.singleton name
  | merged _ _ _ classes => classes

def size (node : Node W) : Nat := node.classes.size

def children : Node W → List Nat
  | leaf _ => []
  | merged left right _ _ => [left, right]

def isLeaf : Node W → Bool
  | leaf _ => true
  | merged .. => false

end Node

/-- Nodes in creation order; the children of a node stand before it. -/
structure Arena (W : Type) where
  nodes : Array (Node W)
  children_lt : ∀ (id : Nat) (node : Node W), nodes[id]? = some node →
    ∀ child ∈ node.children, child < id
  deriving DecidableEq

namespace Arena

variable {W : Type}

def empty : Arena W := ⟨#[], by simp⟩

def push (arena : Arena W) (node : Node W)
    (known : ∀ child ∈ node.children, child < arena.nodes.size) : Arena W where
  nodes := arena.nodes.push node
  children_lt id found lookup := by
    rw [Array.getElem?_push] at lookup
    split at lookup
    · next last =>
        subst last
        exact Option.some.inj lookup ▸ known
    · exact arena.children_lt id found lookup

@[simp] theorem nodes_push (arena : Arena W) (node : Node W)
    (known : ∀ child ∈ node.children, child < arena.nodes.size) :
    (arena.push node known).nodes = arena.nodes.push node := rfl

/-- A bound on the number of steps that a walk down from some nodes can take. -/
def reach : List Nat → Nat
  | [] => 0
  | id :: others => Nat.pow 3 id + reach others

@[simp] theorem reach_nil : reach [] = 0 := rfl

@[simp] theorem reach_cons (id : Nat) (others : List Nat) :
    reach (id :: others) = Nat.pow 3 id + reach others := rfl

@[simp] theorem reach_append (first second : List Nat) :
    reach (first ++ second) = reach first + reach second := by
  induction first with
  | nil => simp
  | cons id others induction => simp only [List.cons_append, reach_cons, induction, Nat.add_assoc]

theorem reach_pos (id : Nat) (others : List Nat) : reach others < reach (id :: others) := by
  have positive : 0 < Nat.pow 3 id := Nat.pow_pos (by decide)
  rw [reach_cons]
  omega

/-- Going from a node to its children shortens a walk. -/
theorem reach_children_lt (arena : Arena W) {id : Nat} {node : Node W}
    (stored : arena.nodes[id]? = some node) : reach node.children < Nat.pow 3 id := by
  have below := arena.children_lt id node stored
  cases node with
  | leaf name => exact Nat.pow_pos (by decide)
  | merged left right coupling classes =>
      simp only [Node.children, List.mem_cons, List.not_mem_nil, or_false, forall_eq_or_imp,
        forall_eq] at below
      obtain ⟨leftBelow, rightBelow⟩ := below
      obtain ⟨previous, rfl⟩ : ∃ previous, id = previous + 1 := ⟨id - 1, by omega⟩
      have leftBound : Nat.pow 3 left ≤ Nat.pow 3 previous :=
        Nat.pow_le_pow_right (by decide) (by omega)
      have rightBound : Nat.pow 3 right ≤ Nat.pow 3 previous :=
        Nat.pow_le_pow_right (by decide) (by omega)
      have positive : 0 < Nat.pow 3 previous := Nat.pow_pos (by decide)
      have unfolded : Nat.pow 3 (previous + 1) = Nat.pow 3 previous * 3 := rfl
      rw [unfolded]
      simp only [Node.children, reach_cons, reach_nil]
      omega

end Arena

structure Dendrogram (W : Type) extends Arena W where
  root : Nat
  root_lt : root < nodes.size
  deriving DecidableEq

namespace Dendrogram

variable {W : Type}

def rootNode (dendrogram : Dendrogram W) : Node W :=
  have bound := dendrogram.root_lt
  dendrogram.nodes[dendrogram.root]

def classes (dendrogram : Dendrogram W) : NameSet := dendrogram.rootNode.classes

def size (dendrogram : Dendrogram W) : Nat := dendrogram.rootNode.size

def nodeCount (dendrogram : Dendrogram W) : Nat := dendrogram.nodes.size

def merges (dendrogram : Dendrogram W) : List Nat :=
  (dendrogram.nodes.toList.zipIdx.filter fun (node, _) => !node.isLeaf).map Prod.snd

end Dendrogram

end Cohesion
