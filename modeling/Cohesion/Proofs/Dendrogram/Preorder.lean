import Cohesion.Dendrogram.Outline
import Cohesion.Proofs.Clustering.Merges

/-!
# Outlines in pre-order

The outline of a dendrogram comes from a walk that keeps the nodes still to be printed in a row, with
those of the left child in front. It prints the tree below the root in pre-order, one line for each
node. The lines below a node are those that follow its own line and are indented further.
-/

namespace Cohesion

/-- A tree of merges, each node with its place in a list of nodes. -/
inductive MergeTree (W : Type) where
  | leaf (place : Nat) (name : String)
  | joined (place : Nat) (coupling : W) (left right : MergeTree W)

def indentation : Nat → String
  | 0 => ""
  | depth + 1 => "  " ++ indentation depth

theorem indentation_eq (depth : Nat) :
    String.ofList (List.replicate (2 * depth) ' ') = indentation depth := by
  induction depth with
  | zero => rfl
  | succ depth induction =>
      rw [indentation, ← induction, Nat.mul_succ, Nat.add_comm, ← List.replicate_append_replicate,
        String.ofList_append]
      rfl

namespace MergeTree

variable {W : Type}

def place : MergeTree W → Nat
  | leaf place _ => place
  | joined place _ _ _ => place

def isLeaf : MergeTree W → Bool
  | leaf _ _ => true
  | joined _ _ _ _ => false

def leafCount : MergeTree W → Nat
  | leaf _ _ => 1
  | joined _ _ left right => left.leafCount + right.leafCount

def nodeCount : MergeTree W → Nat
  | leaf _ _ => 1
  | joined _ _ left right => left.nodeCount + right.nodeCount + 1

def label : MergeTree Float → String
  | leaf _ name => name
  | joined _ coupling left right => "merge " ++ Decimal.fixed coupling ++ " (" ++
      toString (left.leafCount + right.leafCount) ++ " classes)"

def line (tree : MergeTree Float) (depth : Nat) : String :=
  indentation depth ++ tree.label ++ "\n"

/-- The line of the tree, then its left and its right part one step deeper. -/
def printed : MergeTree Float → Nat → String
  | leaf place name, depth => (leaf place name).line depth
  | joined place coupling left right, depth => (joined place coupling left right).line depth ++
      left.printed (depth + 1) ++ right.printed (depth + 1)

/-- The parts of a tree that are printed below its own line, each with its depth. -/
def lower : MergeTree W → Nat → List (Nat × MergeTree W)
  | leaf _ _, _ => []
  | joined _ _ left right, depth => ((depth + 1, left) :: left.lower (depth + 1)) ++
      ((depth + 1, right) :: right.lower (depth + 1))

/-- All parts of a tree in pre-order, each with its depth. -/
def entries (tree : MergeTree W) (depth : Nat) : List (Nat × MergeTree W) :=
  (depth, tree) :: tree.lower depth

theorem lower_joined (place : Nat) (coupling : W) (left right : MergeTree W) (depth : Nat) :
    (joined place coupling left right).lower depth =
      left.entries (depth + 1) ++ right.entries (depth + 1) := rfl

theorem entries_joined (place : Nat) (coupling : W) (left right : MergeTree W) (depth : Nat) :
    (joined place coupling left right).entries depth = (depth, joined place coupling left right) ::
      (left.entries (depth + 1) ++ right.entries (depth + 1)) := rfl

theorem printed_eq_join (tree : MergeTree Float) (depth : Nat) : tree.printed depth =
    String.join ((tree.entries depth).map fun entry => entry.2.line entry.1) := by
  induction tree generalizing depth with
  | leaf place name => simp [printed, entries, lower]
  | joined place coupling left right leftInduction rightInduction =>
      rw [printed, leftInduction, rightInduction, entries_joined, List.map_cons, String.join_cons,
        List.map_append, String.join_append, String.append_assoc]

theorem length_entries (tree : MergeTree W) (depth : Nat) :
    (tree.entries depth).length = tree.nodeCount := by
  induction tree generalizing depth with
  | leaf place name => rfl
  | joined place coupling left right leftInduction rightInduction =>
      rw [entries_joined, List.length_cons, List.length_append, leftInduction, rightInduction,
        nodeCount]

theorem leaf_entries (tree : MergeTree W) (depth : Nat) :
    ((tree.entries depth).filter fun entry => entry.2.isLeaf).length = tree.leafCount := by
  induction tree generalizing depth with
  | leaf place name => rfl
  | joined place coupling left right leftInduction rightInduction =>
      rw [entries_joined, List.filter_cons_of_neg (by simp [isLeaf]), List.filter_append,
        List.length_append, leftInduction, rightInduction, leafCount]

theorem lower_leaves (tree : MergeTree W) (joined : tree.isLeaf = false) (depth : Nat) :
    ((tree.lower depth).filter fun entry => entry.2.isLeaf).length = tree.leafCount := by
  have all := tree.leaf_entries depth
  rwa [entries, List.filter_cons_of_neg (by simp [joined])] at all

theorem depth_le_of_entry {tree : MergeTree W} {depth : Nat} {entry : Nat × MergeTree W}
    (member : entry ∈ tree.entries depth) : depth ≤ entry.1 := by
  induction tree generalizing depth with
  | leaf place name => rw [List.mem_singleton.mp member]
  | joined place coupling left right leftInduction rightInduction =>
      rw [entries_joined, List.mem_cons, List.mem_append] at member
      rcases member with same | inLeft | inRight
      · rw [same]
      · exact Nat.le_of_succ_le (leftInduction inLeft)
      · exact Nat.le_of_succ_le (rightInduction inRight)

theorem depth_lt_of_lower {tree : MergeTree W} {depth : Nat} {entry : Nat × MergeTree W}
    (member : entry ∈ tree.lower depth) : depth < entry.1 := by
  cases tree with
  | leaf place name => exact absurd member List.not_mem_nil
  | joined place coupling left right =>
      rw [lower_joined, List.mem_append] at member
      rcases member with inLeft | inRight
      · exact depth_le_of_entry inLeft
      · exact depth_le_of_entry inRight

/-- Behind an entry come the parts below it, and then nothing or an entry that is no deeper. -/
theorem behind_entry {tree part : MergeTree W} {start depth : Nat}
    {before after : List (Nat × MergeTree W)}
    (split : tree.entries start = before ++ (depth, part) :: after) :
    ∃ rest, after = part.lower depth ++ rest ∧ ∀ next ∈ rest.head?, next.1 ≤ depth := by
  induction tree generalizing start before after with
  | leaf place name =>
      cases before with
      | nil =>
          cases split
          exact ⟨[], rfl, by simp⟩
      | cons first before =>
          rw [entries, lower, List.cons_append, List.cons.injEq] at split
          exact absurd split.2.symm (by simp)
  | joined place coupling left right leftInduction rightInduction =>
      cases before with
      | nil =>
          cases split
          exact ⟨[], (List.append_nil _).symm, by simp⟩
      | cons first before =>
          rw [entries_joined, List.cons_append, List.cons.injEq] at split
          rcases List.append_eq_append_iff.mp split.2 with
            ⟨front, _, inRight⟩ | ⟨back, inLeft, behind⟩
          · exact rightInduction inRight
          · cases back with
            | nil =>
                have inRight : right.entries (start + 1) = [] ++ (depth, part) :: after :=
                  behind.symm
                exact rightInduction inRight
            | cons here back =>
                rw [List.cons_append, List.cons.injEq] at behind
                rcases behind with ⟨rfl, rfl⟩
                rcases leftInduction inLeft with ⟨rest, rfl, shallow⟩
                refine ⟨rest ++ right.entries (start + 1), List.append_assoc .., ?_⟩
                intro next isNext
                cases rest with
                | nil =>
                    -- The right part follows, and it is no deeper than any entry of the left one.
                    have member : (depth, part) ∈ left.entries (start + 1) := by simp [inLeft]
                    have deep : start + 1 ≤ depth := depth_le_of_entry member
                    cases isNext
                    exact deep
                | cons other rest => exact shallow next isNext

/-- The entries that follow an entry and are deeper are those of the parts below it. -/
theorem deeper_behind_entry {tree part : MergeTree W} {start depth : Nat}
    {before after : List (Nat × MergeTree W)}
    (split : tree.entries start = before ++ (depth, part) :: after) :
    after.takeWhile (fun later => depth < later.1) = part.lower depth := by
  rcases behind_entry split with ⟨rest, rfl, shallow⟩
  have deeper : ∀ entry ∈ part.lower depth, decide (depth < entry.1) = true := by
    intro entry member
    exact decide_eq_true (depth_lt_of_lower member)
  have ended : rest.takeWhile (fun later => depth < later.1) = [] := by
    cases rest with
    | nil => rfl
    | cons next rest =>
        have noDeeper : ¬depth < next.1 := Nat.not_lt.mpr (shallow next rfl)
        simp [noDeeper]
  rw [List.takeWhile_append_of_pos deeper, ended, List.append_nil]

end MergeTree

namespace Arena

variable {W : Type} {arena : Arena W}

def Bears (arena : Arena W) : MergeTree W → Prop
  | .leaf place name => arena.nodes[place]? = some (.leaf name)
  | .joined place coupling left right =>
      (∃ classes, arena.nodes[place]? = some (.merged left.place right.place coupling classes)) ∧
        arena.Bears left ∧ arena.Bears right

/-- Children stand before their parents, so there is a tree below every node. -/
theorem exists_tree (arena : Arena W) {id : Nat} (bound : id < arena.nodes.size) :
    ∃ tree, arena.Bears tree ∧ tree.place = id := by
  induction id using Nat.strongRecOn with
  | ind id induction =>
      rcases arena.stored_of_lt bound with ⟨node, stored⟩
      cases node with
      | leaf name => exact ⟨.leaf id name, stored, rfl⟩
      | merged left right coupling classes =>
          have leftChild := (is_child_merged stored).mpr (.inl rfl)
          have rightChild := (is_child_merged stored).mpr (.inr rfl)
          rcases induction left leftChild.lt (Nat.lt_trans leftChild.lt bound) with
            ⟨leftTree, leftBorne, rfl⟩
          rcases induction right rightChild.lt (Nat.lt_trans rightChild.lt bound) with
            ⟨rightTree, rightBorne, rfl⟩
          exact ⟨.joined id coupling leftTree rightTree, ⟨⟨classes, stored⟩, leftBorne, rightBorne⟩,
            rfl⟩

theorem mem_entries_iff_below {tree : MergeTree W} (borne : arena.Bears tree) (depth id : Nat) :
    id ∈ (tree.entries depth).map (fun entry => entry.2.place) ↔ arena.Below tree.place id := by
  induction tree generalizing depth with
  | leaf place name =>
      rw [MergeTree.place, below_leaf borne]
      exact List.mem_singleton
  | joined place coupling left right leftInduction rightInduction =>
      rcases borne with ⟨⟨classes, stored⟩, leftBorne, rightBorne⟩
      rw [MergeTree.place, below_merged stored, MergeTree.entries_joined,
        List.map_cons, List.mem_cons, List.map_append, List.mem_append, leftInduction leftBorne,
        rightInduction rightBorne]
      rfl

theorem mem_lower_entries_iff {tree : MergeTree W} (borne : arena.Bears tree) (depth id : Nat) :
    id ∈ (tree.lower depth).map (fun entry => entry.2.place) ↔
      arena.Below tree.place id ∧ id ≠ tree.place := by
  cases tree with
  | leaf place name =>
      rw [MergeTree.place, below_leaf borne]
      simp [MergeTree.lower]
  | joined place coupling left right =>
      rcases borne with ⟨⟨classes, stored⟩, leftBorne, rightBorne⟩
      have leftChild := (is_child_merged stored).mpr (.inl rfl)
      have rightChild := (is_child_merged stored).mpr (.inr rfl)
      rw [MergeTree.place, below_merged stored, MergeTree.lower_joined, List.map_append,
        List.mem_append, mem_entries_iff_below leftBorne, mem_entries_iff_below rightBorne]
      constructor
      · intro either
        refine ⟨.inr either, ?_⟩
        rcases either with inLeft | inRight
        · exact Nat.ne_of_lt (Nat.lt_of_le_of_lt inLeft.le leftChild.lt)
        · exact Nat.ne_of_lt (Nat.lt_of_le_of_lt inRight.le rightChild.lt)
      · rintro ⟨same | either, differs⟩
        · exact absurd same differs
        · exact either

theorem bears_of_entry {tree : MergeTree W} (borne : arena.Bears tree) {depth : Nat}
    {entry : Nat × MergeTree W} (member : entry ∈ tree.entries depth) : arena.Bears entry.2 := by
  induction tree generalizing depth with
  | leaf place name =>
      rw [List.mem_singleton.mp member]
      exact borne
  | joined place coupling left right leftInduction rightInduction =>
      rw [MergeTree.entries_joined, List.mem_cons, List.mem_append] at member
      rcases member with same | inLeft | inRight
      · rw [same]
        exact borne
      · exact leftInduction borne.2.1 inLeft
      · exact rightInduction borne.2.2 inRight

end Arena

namespace Dendrogram

section Grown

variable {W : Type} {classes : NameSet} {dendrogram : Dendrogram W}
  (grown : dendrogram.Grown classes)

include grown

theorem Grown.joint_of_borne {place : Nat} {coupling : W} {left right : MergeTree W}
    (borne : dendrogram.Bears (.joined place coupling left right)) :
    dendrogram.Joint place left.place right.place coupling := by
  rcases borne with ⟨⟨kept, stored⟩, _, _⟩
  exact grown.joint_of_stored stored

theorem Grown.size_at_tree {tree : MergeTree W} (borne : dendrogram.Bears tree) :
    (dendrogram.classesAt tree.place).size = tree.leafCount := by
  induction tree with
  | leaf place name =>
      rw [MergeTree.place, Arena.classes_at_stored borne]
      rfl
  | joined place coupling left right leftInduction rightInduction =>
      have joint := grown.joint_of_borne borne
      rw [MergeTree.place, joint.size_eq, leftInduction borne.2.1, rightInduction borne.2.2,
        MergeTree.leafCount]

theorem Grown.entries_nodup {tree : MergeTree W} (borne : dendrogram.Bears tree) (depth : Nat) :
    ((tree.entries depth).map fun entry => entry.2.place).Nodup := by
  induction tree generalizing depth with
  | leaf place name => exact List.nodup_singleton _
  | joined place coupling left right leftInduction rightInduction =>
      have joint := grown.joint_of_borne borne
      rw [MergeTree.entries, List.map_cons, List.nodup_cons, Arena.mem_lower_entries_iff borne]
      refine ⟨fun own => own.2 rfl, ?_⟩
      rw [MergeTree.lower_joined, List.map_append, List.nodup_append]
      refine ⟨leftInduction borne.2.1 _, rightInduction borne.2.2 _, ?_⟩
      rintro id inLeft _ inRight rfl
      rw [Arena.mem_entries_iff_below borne.2.1] at inLeft
      rw [Arena.mem_entries_iff_below borne.2.2] at inRight
      exact grown.not_below_right (Arena.lt_of_stored joint.stored) joint inLeft inRight

theorem Grown.entries_perm {tree : MergeTree W} (borne : dendrogram.Bears tree)
    (top : tree.place = dendrogram.root) (depth : Nat) :
    ((tree.entries depth).map fun entry => entry.2.place).Perm (List.range dendrogram.nodeCount) := by
  apply (List.perm_ext_iff_of_nodup (grown.entries_nodup borne depth) List.nodup_range).mpr
  intro id
  rw [Arena.mem_entries_iff_below borne, top, List.mem_range]
  constructor
  · intro below
    exact Nat.lt_of_le_of_lt below.le dendrogram.root_lt
  · exact grown.below_root

end Grown

section Outline

variable {classes : NameSet} {dendrogram : Dendrogram Float} (grown : dendrogram.Grown classes)

include grown

theorem Grown.line_eq {tree : MergeTree Float} (borne : dendrogram.Bears tree) {node : Node Float}
    (stored : dendrogram.nodes[tree.place]? = some node) (depth : Nat) :
    outlineLine depth node.label = tree.line depth := by
  have sized := grown.size_at_tree borne
  rw [Arena.classes_at_stored stored] at sized
  rw [outlineLine, MergeTree.line, indentation_eq]
  cases tree with
  | leaf place name =>
      rw [MergeTree.place, show dendrogram.nodes[place]? = _ from borne] at stored
      cases stored
      rfl
  | joined place coupling left right =>
      rcases borne with ⟨⟨kept, found⟩, _, _⟩
      rw [MergeTree.place, found] at stored
      cases stored
      rw [Node.label, MergeTree.label, show kept.size = _ from sized, MergeTree.leafCount]

/-- The walk prints the tree of the node in front, in as many steps as this has nodes, and is then
left with the other nodes that wait. -/
theorem Grown.outline_steps_tree {tree : MergeTree Float} (borne : dendrogram.Bears tree)
    (steps depth : Nat) (waiting : List (Nat × Nat)) :
    dendrogram.outlineSteps (tree.nodeCount + steps) ((tree.place, depth) :: waiting) =
      (tree.entries depth).map (fun entry => entry.2.line entry.1) ++
        dendrogram.outlineSteps steps waiting := by
  induction tree generalizing steps depth waiting with
  | leaf place name =>
      have stored : dendrogram.nodes[place]? = some (.leaf name) := borne
      have line := grown.line_eq borne stored depth
      rw [MergeTree.nodeCount, Nat.add_comm, MergeTree.place, Arena.outlineSteps]
      simp only [stored, line, Node.children]
      rfl
  | joined place coupling left right leftInduction rightInduction =>
      rcases borne.1 with ⟨kept, stored⟩
      have line := grown.line_eq borne stored depth
      have count : (MergeTree.joined place coupling left right).nodeCount + steps =
          left.nodeCount + (right.nodeCount + steps) + 1 := by
        rw [MergeTree.nodeCount]
        omega
      rw [count, MergeTree.place, Arena.outlineSteps]
      simp only [stored, line, Node.children, List.map_cons, List.map_nil, List.cons_append,
        List.nil_append]
      rw [leftInduction borne.2.1, rightInduction borne.2.2, MergeTree.entries_joined]
      simp

theorem Grown.outline_tree {tree : MergeTree Float} (borne : dendrogram.Bears tree)
    (top : tree.place = dendrogram.root) {steps : Nat} (enough : tree.nodeCount ≤ steps) :
    dendrogram.outlineSteps steps [(dendrogram.root, 0)] =
      (tree.entries 0).map fun entry => entry.2.line entry.1 := by
  rcases Nat.exists_eq_add_of_le enough with ⟨more, rfl⟩
  rw [← top, grown.outline_steps_tree borne]
  cases more <;> simp [Arena.outlineSteps]

end Outline

/-- The outline is what the tree below the root prints in pre-order: the walk ends after one step for
each node, every node has one line, the line of a merge tells how many classes are below it, and the
deeper lines behind that of a node are those of the other nodes below it, among them as many leaves as
the line of a merge says. -/
structure OutlinedBy (dendrogram : Dendrogram Float) (tree : MergeTree Float) : Prop where
  borne : dendrogram.Bears tree
  top : tree.place = dendrogram.root
  printed : dendrogram.outline = tree.printed 0
  ends : ∀ steps, dendrogram.nodeCount ≤ steps →
    dendrogram.outline = String.join (dendrogram.outlineSteps steps [(dendrogram.root, 0)])
  by_line : dendrogram.outline =
    String.join ((tree.entries 0).map fun entry => entry.2.line entry.1)
  each_once : ((tree.entries 0).map fun entry => entry.2.place).Perm
    (List.range dendrogram.nodeCount)
  counted : ∀ entry ∈ tree.entries 0,
    entry.2.leafCount = (dendrogram.classesAt entry.2.place).size
  deeper_lines : ∀ before depth part after, tree.entries 0 = before ++ (depth, part) :: after →
    ∀ id, id ∈ (after.takeWhile fun later => depth < later.1).map (fun later => later.2.place) ↔
      dendrogram.Below part.place id ∧ id ≠ part.place
  deeper_leaves : ∀ before depth part after, tree.entries 0 = before ++ (depth, part) :: after →
    part.isLeaf = false →
      ((after.takeWhile fun later => depth < later.1).filter fun later => later.2.isLeaf).length =
        part.leafCount

theorem Grown.outlined_by {classes : NameSet} {dendrogram : Dendrogram Float}
    (grown : dendrogram.Grown classes) {tree : MergeTree Float} (borne : dendrogram.Bears tree)
    (top : tree.place = dendrogram.root) : dendrogram.OutlinedBy tree := by
  have once := grown.entries_perm borne top 0
  have count : tree.nodeCount = dendrogram.nodeCount := by
    have lengths := once.length_eq
    rwa [List.length_map, MergeTree.length_entries, List.length_range] at lengths
  have lines : dendrogram.outlineLines [(dendrogram.root, 0)] =
      (tree.entries 0).map fun entry => entry.2.line entry.1 := by
    have more := Arena.outline_steps_eq dendrogram.toArena
      (Nat.le_refl (Arena.depthReach [(dendrogram.root, 0)])) (Nat.le_add_right _ tree.nodeCount)
    rw [Arena.outlineLines, more, grown.outline_tree borne top (Nat.le_add_left _ _)]
  constructor
  case borne => exact borne
  case top => exact top
  case printed => rw [outline, lines, MergeTree.printed_eq_join]
  case ends =>
    intro steps enough
    rw [outline, lines, grown.outline_tree borne top (count ▸ enough)]
  case by_line => rw [outline, lines]
  case each_once => exact once
  case counted =>
    intro entry member
    exact (grown.size_at_tree (Arena.bears_of_entry borne member)).symm
  case deeper_lines =>
    intro before depth part after split id
    have inside : (depth, part) ∈ tree.entries 0 := by simp [split]
    rw [MergeTree.deeper_behind_entry split]
    exact Arena.mem_lower_entries_iff (Arena.bears_of_entry borne inside) depth id
  case deeper_leaves =>
    intro before depth part after split joined
    rw [MergeTree.deeper_behind_entry split, part.lower_leaves joined]

end Dendrogram

/-- The outline of the dendrogram of a clustered graph is the pre-order listing of its tree. -/
theorem outline_in_preorder {graph : CouplingGraph Float} {dendrogram : Dendrogram Float}
    (clustered : graph.cluster? = some dendrogram) : ∃ tree, dendrogram.OutlinedBy tree := by
  rcases dendrogram.exists_tree dendrogram.root_lt with ⟨tree, borne, top⟩
  exact ⟨tree, (cluster_grown clustered).outlined_by borne top⟩

theorem partly_unknown_outlined : ∃ dendrogram,
    partlyUnknown.cluster? = some dendrogram ∧ ∃ tree, dendrogram.OutlinedBy tree := by
  have computed : partlyUnknown.cluster?.isSome = true := by decide +kernel
  rcases Option.isSome_iff_exists.mp computed with ⟨dendrogram, clustered⟩
  exact ⟨dendrogram, clustered, outline_in_preorder clustered⟩

/-- The inner merge and its two leaves are deeper than what follows. -/
example : (MergeTree.joined 4 0.2 (.joined 3 0.8 (.leaf 0 "A") (.leaf 1 "B")) (.leaf 2 "C")).printed
    0 = "merge 0.2000 (3 classes)\n  merge 0.8000 (2 classes)\n    A\n    B\n  C\n" := by
  decide +kernel

end Cohesion
