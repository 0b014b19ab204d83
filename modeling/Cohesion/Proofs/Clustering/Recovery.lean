import Cohesion.Proofs.Clustering.Image
import Cohesion.Proofs.Clustering.Shape

/-!
# The classes below a node follow from the list of nodes

A node that joins two others has their classes together, and both stand before it in the list. So two
dendrograms of clusterings have the same nodes as soon as these agree apart from the classes kept with
them.
-/

namespace Cohesion

variable {W : Type}

/-- The node without the classes kept with it, except for the name of a leaf. -/
def Node.bare : Node W → Node W
  | .leaf name => .leaf name
  | .merged left right coupling _ => .merged left right coupling ∅

namespace Dendrogram.Grown

variable {classes otherClasses : NameSet} {dendrogram other : Dendrogram W}

theorem same_nodes (grown : dendrogram.Grown classes) (otherGrown : other.Grown otherClasses)
    (bare : dendrogram.nodes.map Node.bare = other.nodes.map Node.bare) (id : Nat) :
    dendrogram.nodes[id]? = other.nodes[id]? := by
  induction id using Nat.strong_induction_on with
  | h id induction =>
      have same : dendrogram.nodes[id]?.map Node.bare = other.nodes[id]?.map Node.bare := by
        rw [← Array.getElem?_map, bare, Array.getElem?_map]
      rcases Nat.lt_or_ge id dendrogram.nodes.size with bound | beyond
      · have otherBound : id < other.nodes.size := by
          have sizes := congrArg Array.size bare
          simp only [Array.size_map] at sizes
          omega
        rcases grown.node_cases bound with ⟨_, leaf⟩ | ⟨left, right, coupling, joint⟩ <;>
          rcases otherGrown.node_cases otherBound with
            ⟨_, otherLeaf⟩ | ⟨otherLeft, otherRight, otherCoupling, otherJoint⟩
        · rw [leaf, otherLeaf] at same ⊢
          exact same
        · rw [leaf, otherJoint.stored] at same
          simp [Node.bare] at same
        · rw [joint.stored, otherLeaf] at same
          simp [Node.bare] at same
        · rw [joint.stored, otherJoint.stored] at same
          simp only [Option.map_some, Node.bare, Option.some.injEq, Node.merged.injEq] at same
          obtain ⟨rfl, rfl, rfl, _⟩ := same
          have leftSame := induction left joint.left_active.1
          have rightSame := induction right joint.right_active.1
          rw [joint.stored, otherJoint.stored, Arena.classesAt, Arena.classesAt, leftSame, rightSame]
          rfl
      · rw [Array.getElem?_eq_none beyond] at same ⊢
        simpa using same.symm

/-- The list of nodes without the classes below the merged nodes determines the list with them. -/
theorem nodes_eq_of_bare (grown : dendrogram.Grown classes) (otherGrown : other.Grown otherClasses)
    (bare : dendrogram.nodes.map Node.bare = other.nodes.map Node.bare) :
    dendrogram.nodes = other.nodes := by
  apply Array.ext_getElem?
  exact grown.same_nodes otherGrown bare

end Dendrogram.Grown

end Cohesion
