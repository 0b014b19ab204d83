import Cohesion.Decimal.Layout
import Cohesion.Dendrogram.Basic

/-!
Dendrograms as indented text. Each node has one line, indented by two blanks for each step below
the start; the lines below a node follow it, those of the left child first.
-/

namespace Cohesion

def Node.label : Node Float → String
  | .leaf name => name
  | .merged _ _ coupling classes =>
      "merge " ++ Decimal.fixed coupling ++ " (" ++ toString classes.size ++ " classes)"

def outlineLine (depth : Nat) (label : String) : String :=
  String.ofList (List.replicate (2 * depth) ' ') ++ label ++ "\n"

namespace Arena

/-- The lines of all waiting nodes and of what is below them, found in a bounded number of steps;
each node waits with its depth. The children of a node are put in front of the others that wait. -/
def outlineSteps (arena : Arena Float) : Nat → List (Nat × Nat) → List String
  | 0, _ => []
  | _, [] => []
  | steps + 1, (id, depth) :: waiting =>
      match arena.nodes[id]? with
      | none => arena.outlineSteps steps waiting
      | some node =>
          outlineLine depth node.label ::
            arena.outlineSteps steps (node.children.map (·, depth + 1) ++ waiting)

def depthReach (waiting : List (Nat × Nat)) : Nat := reach (waiting.map Prod.fst)

theorem depth_reach_cons (id depth : Nat) (waiting : List (Nat × Nat)) :
    depthReach ((id, depth) :: waiting) = Nat.pow 3 id + depthReach waiting := rfl

theorem depth_reach_children (node : Node Float) (depth : Nat) (waiting : List (Nat × Nat)) :
    depthReach (node.children.map (·, depth) ++ waiting) =
      reach node.children + depthReach waiting := by
  simp [depthReach, Function.comp_def]

/-- Steps beyond the reach of the waiting nodes change nothing. -/
theorem outline_steps_eq (arena : Arena Float) {steps more : Nat} {waiting : List (Nat × Nat)}
    (enough : depthReach waiting ≤ steps) (alsoEnough : depthReach waiting ≤ more) :
    arena.outlineSteps steps waiting = arena.outlineSteps more waiting := by
  induction steps generalizing more waiting with
  | zero =>
      cases waiting with
      | nil => cases more <;> rfl
      | cons head waiting =>
          have positive := reach_pos head.1 (waiting.map Prod.fst)
          simp only [depthReach, List.map_cons] at enough
          omega
  | succ steps induction =>
      cases waiting with
      | nil => cases more <;> rfl
      | cons head waiting =>
          obtain ⟨id, depth⟩ := head
          have positive : 0 < Nat.pow 3 id := Nat.pow_pos (by decide)
          rw [depth_reach_cons] at enough alsoEnough
          cases more with
          | zero => omega
          | succ more =>
              simp only [outlineSteps]
              split
              · exact induction (by omega) (by omega)
              · next node stored =>
                  have shorter := arena.reach_children_lt stored
                  have below := depth_reach_children node (depth + 1) waiting
                  exact congrArg _ (induction (by omega) (by omega))

def outlineLines (arena : Arena Float) (waiting : List (Nat × Nat)) : List String :=
  arena.outlineSteps (depthReach waiting) waiting

end Arena

def Dendrogram.outline (dendrogram : Dendrogram Float) : String :=
  String.join (dendrogram.outlineLines [(dendrogram.root, 0)])

end Cohesion
