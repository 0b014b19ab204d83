import Cohesion.Clustering.Matrix
import Cohesion.Dendrogram.Basic

/-!
Greedy clustering. Every class starts as a cluster of its own; each round joins the two clusters
with the greatest coupling until one is left. Clusters are kept in the order of their member
lists and pairs are scanned in that order, so a tie goes to the first pair, and the first cluster
of the pair becomes the left child.
-/

namespace Cohesion

/-- A cluster that is not yet part of a larger one: its node and its class numbers, ascending. -/
structure Cluster where
  node : Nat
  members : List Nat
  deriving DecidableEq

def insertNumber (number : Nat) : List Nat → List Nat
  | [] => [number]
  | head :: rest =>
      if head < number then head :: insertNumber number rest else number :: head :: rest

namespace Cluster

def joinedMembers (left right : Cluster) : List Nat :=
  right.members.foldr insertNumber left.members

/-- Put a cluster before the first one whose member list is not smaller. -/
def place (cluster : Cluster) : List Cluster → List Cluster
  | [] => [cluster]
  | head :: rest =>
      if head.members < cluster.members then head :: place cluster rest
      else cluster :: head :: rest

theorem mem_place {cluster other : Cluster} {clusters : List Cluster} :
    other ∈ cluster.place clusters ↔ other = cluster ∨ other ∈ clusters := by
  induction clusters with
  | nil => simp [place]
  | cons head rest induction =>
      unfold place
      split
      · simp [induction, or_left_comm]
      · simp

end Cluster

/-- The nodes made so far, with the clusters that no merge has taken yet. -/
structure Forest (W : Type) extends Arena W where
  active : List Cluster
  node_lt : ∀ cluster ∈ active, cluster.node < nodes.size

namespace Forest

variable {W : Type}

def ofClasses (classes : NameSet) : Forest W where
  nodes := (classes.toList.map Node.leaf).toArray
  children_lt id node stored child member := by
    have leaf : node ∈ classes.toList.map Node.leaf := by
      rw [List.getElem?_toArray] at stored
      exact List.mem_of_getElem? stored
    obtain ⟨name, _, rfl⟩ := List.mem_map.mp leaf
    simp [Node.children] at member
  active := (List.range classes.size).map fun number => ⟨number, [number]⟩
  node_lt cluster member := by
    obtain ⟨number, bound, rfl⟩ := List.mem_map.mp member
    simpa [NameSet.size, NameSet.toList] using bound

def classesOf (forest : Forest W) (cluster : Cluster) (member : cluster ∈ forest.active) :
    NameSet :=
  have bound := forest.node_lt cluster member
  forest.nodes[cluster.node].classes

def join (forest : Forest W) (left right : Cluster) (leftPosition rightPosition : Nat)
    (coupling : W) (leftActive : left ∈ forest.active) (rightActive : right ∈ forest.active) :
    Forest W :=
  let node := Node.merged left.node right.node coupling
    ((forest.classesOf left leftActive).union (forest.classesOf right rightActive))
  have known : ∀ child ∈ node.children, child < forest.nodes.size := by
    have leftBound := forest.node_lt left leftActive
    have rightBound := forest.node_lt right rightActive
    simp [node, Node.children, leftBound, rightBound]
  let merged : Cluster := ⟨forest.nodes.size, left.joinedMembers right⟩
  { forest.push node known with
    active := merged.place ((forest.active.eraseIdx rightPosition).eraseIdx leftPosition)
    node_lt := by
      intro cluster member
      simp only [Arena.nodes_push, Array.size_push]
      rcases Cluster.mem_place.mp member with same | kept
      · subst same
        exact Nat.lt_succ_self _
      · have before := List.mem_of_mem_eraseIdx (List.mem_of_mem_eraseIdx kept)
        exact Nat.lt_succ_of_lt (forest.node_lt cluster before) }

variable [Weight W]

def strongestPair (matrix : AffinityMatrix W) (active : List Cluster) :
    Option (((Cluster × Nat) × (Cluster × Nat)) × W) :=
  firstStrongest (fun (left, right) => matrix.between left.1.members right.1.members)
    (pairs active.zipIdx)

theorem strongest_pair_active {matrix : AffinityMatrix W} {active : List Cluster}
    {left right : Cluster × Nat} {coupling : W}
    (found : strongestPair matrix active = some ((left, right), coupling)) :
    left.1 ∈ active ∧ right.1 ∈ active := by
  have both := mem_of_mem_pairs (first_strongest_mem found)
  exact ⟨List.fst_mem_of_mem_zipIdx both.1, List.fst_mem_of_mem_zipIdx both.2⟩

def mergeStrongest (matrix : AffinityMatrix W) (forest : Forest W) : Forest W :=
  match found : strongestPair matrix forest.active with
  | none => forest
  | some ((left, right), coupling) =>
      have both := strongest_pair_active found
      forest.join left.1 right.1 left.2 right.2 coupling both.1 both.2

def mergeRounds (matrix : AffinityMatrix W) : Nat → Forest W → Forest W
  | 0, forest => forest
  | rounds + 1, forest => mergeRounds matrix rounds (forest.mergeStrongest matrix)

omit [Weight W] in
def tree? (forest : Forest W) : Option (Dendrogram W) :=
  match found : forest.active.getLast? with
  | none => none
  | some cluster => some
      { forest.toArena with
        root := cluster.node
        root_lt := forest.node_lt cluster (List.mem_of_getLast? found) }

end Forest

/-- The dendrogram of the classes of a coupling graph. There is none only for a graph without
classes; otherwise all but one of the clusters are merged away, one in each round. -/
def CouplingGraph.cluster? {W : Type} [Weight W] (graph : CouplingGraph W) :
    Option (Dendrogram W) :=
  let classes := graph.classes
  let matrix := AffinityMatrix.ofAffinity (Affinity.ofGraph graph) classes
  (Forest.mergeRounds matrix (classes.size - 1) (Forest.ofClasses classes)).tree?

end Cohesion
