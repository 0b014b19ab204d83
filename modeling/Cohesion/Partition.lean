import Cohesion.Analysis.Error
import Cohesion.Coupling.Affinity
import Cohesion.Dendrogram.Basic

/-!
Partitions into modules. A dendrogram is cut from a start node downwards: a node whose classes
hang together more than a threshold becomes one module, any other merged node is replaced by its
children, and a leaf is always a module.
-/

namespace Cohesion

/-- Classes accepted as one unit, with their mean affinity when it is a finite number. -/
structure Module (W : Type) where
  classes : NameSet
  cohesion : Option W
  deriving DecidableEq

inductive Diagnostic where
  | tooManyModules (moduleCount limit : Nat)
  deriving DecidableEq

def Diagnostic.text : Diagnostic → String
  | tooManyModules moduleCount limit =>
      "module count (" ++ toString moduleCount ++ ") exceeds half the class count (" ++
        toString limit ++ "); try a higher threshold"

structure Partition (W : Type) where
  threshold : W
  classCount : Nat
  modules : List (Module W)
  diagnostic : Option Diagnostic
  deriving DecidableEq

namespace Partition

variable {W : Type}

def moduleOf? (partition : Partition W) (name : String) : Option (Module W) :=
  partition.modules.find? fun module => name ∈ module.classes

def diagnose (classCount moduleCount : Nat) : Option Diagnostic :=
  let limit := classCount / 2
  if limit < moduleCount then some (.tooManyModules moduleCount limit) else none

end Partition

variable {W : Type} [Weight W]

/-- The module that a node makes, if it is accepted. A leaf always is; a merged node is when its
mean affinity exceeds the threshold or when it has no pair of classes at all. -/
def Node.module? (affinity : Affinity W) (threshold : W) : Node W → Option (Module W)
  | leaf name => some ⟨NameSet.singleton name, none⟩
  | merged _ _ _ classes =>
      match affinity.average? classes with
      | none => some ⟨classes, none⟩
      | some average =>
          if Weight.exceeds average threshold then
            some ⟨classes, if Weight.isFinite average then some average else none⟩
          else none

namespace Arena

variable (arena : Arena W) (affinity : Affinity W) (threshold : W)

/-- The modules below the waiting nodes, found in a bounded number of steps. The children of a node
that is not accepted wait behind all the others. -/
def cutSteps : Nat → List Nat → List (Module W)
  | 0, _ => []
  | _, [] => []
  | steps + 1, id :: waiting =>
      match arena.nodes[id]? with
      | none => cutSteps steps waiting
      | some node =>
          match node.module? affinity threshold with
          | some module => module :: cutSteps steps waiting
          | none => cutSteps steps (waiting ++ node.children)

/-- Steps beyond the reach of the waiting nodes change nothing. -/
theorem cut_steps_eq {steps more : Nat} {waiting : List Nat} (enough : reach waiting ≤ steps)
    (alsoEnough : reach waiting ≤ more) :
    cutSteps arena affinity threshold steps waiting =
      cutSteps arena affinity threshold more waiting := by
  induction steps generalizing more waiting with
  | zero =>
      cases waiting with
      | nil => cases more <;> rfl
      | cons id waiting =>
          have positive := reach_pos id waiting
          omega
  | succ steps induction =>
      cases waiting with
      | nil => cases more <;> rfl
      | cons id waiting =>
          have positive := reach_pos id waiting
          cases more with
          | zero => omega
          | succ more =>
              simp only [cutSteps]
              split
              · exact induction (by omega) (by omega)
              · next node stored =>
                  split
                  · exact congrArg _ (induction (by omega) (by omega))
                  · have shorter := arena.reach_children_lt stored
                    rw [reach_cons] at enough alsoEnough
                    exact induction (by rw [reach_append]; omega) (by rw [reach_append]; omega)

/-- The modules below the waiting nodes, from the front of the queue on. -/
def cut (waiting : List Nat) : List (Module W) :=
  cutSteps arena affinity threshold (reach waiting) waiting

@[simp] theorem cut_nil : arena.cut affinity threshold [] = [] := rfl

theorem cut_cons (id : Nat) (waiting : List Nat) :
    arena.cut affinity threshold (id :: waiting) =
      match arena.nodes[id]? with
      | none => arena.cut affinity threshold waiting
      | some node =>
          match node.module? affinity threshold with
          | some module => module :: arena.cut affinity threshold waiting
          | none => arena.cut affinity threshold (waiting ++ node.children) := by
  have positive := reach_pos id waiting
  obtain ⟨steps, counted⟩ : ∃ steps, reach (id :: waiting) = steps + 1 :=
    ⟨reach (id :: waiting) - 1, by omega⟩
  simp only [cut, counted, cutSteps]
  split
  · exact cut_steps_eq arena affinity threshold (by omega) (Nat.le_refl _)
  · next node stored =>
      split
      · exact congrArg _ (cut_steps_eq arena affinity threshold (by omega) (Nat.le_refl _))
      · have shorter := arena.reach_children_lt stored
        rw [reach_cons] at counted
        exact cut_steps_eq arena affinity threshold (by rw [reach_append]; omega) (Nat.le_refl _)

end Arena

/-- Accept thresholds only if all of them are finite; the first other one is the error. -/
def checkThresholds (thresholds : List W) : Except (AnalysisError W) Unit :=
  match thresholds.find? fun threshold => !Weight.isFinite threshold with
  | some value => .error (.invalidThreshold value)
  | none => .ok ()

namespace Dendrogram

def sizeAt (dendrogram : Dendrogram W) (id : Nat) : Nat :=
  (dendrogram.nodes[id]?.map Node.size).getD 0

/-- Cut the part of the tree below a start node at a finite threshold. -/
def partitionFrom (dendrogram : Dendrogram W) (affinity : Affinity W) (start : Nat)
    (threshold : W) : Except (AnalysisError W) (Partition W) :=
  if Weight.isFinite threshold then
    let modules := dendrogram.cut affinity threshold [start]
    let classCount := dendrogram.sizeAt start
    .ok ⟨threshold, classCount, modules, Partition.diagnose classCount modules.length⟩
  else .error (.invalidThreshold threshold)

def partition (dendrogram : Dendrogram W) (affinity : Affinity W) (threshold : W) :
    Except (AnalysisError W) (Partition W) :=
  dendrogram.partitionFrom affinity dendrogram.root threshold

def sweep (dendrogram : Dendrogram W) (affinity : Affinity W) (thresholds : List W) :
    Except (AnalysisError W) (List (Partition W)) := do
  checkThresholds thresholds
  thresholds.mapM (dendrogram.partition affinity)

end Dendrogram

end Cohesion
