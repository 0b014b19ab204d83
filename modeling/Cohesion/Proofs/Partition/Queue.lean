import Mathlib.Data.List.Basic
import Cohesion.Partition
import Cohesion.Proofs.Clustering.Subtree

/-!
# The queue of a cut

A cut works on a queue of nodes, one node a turn: a node that is accepted leaves a module behind,
any other one sends its children to the back. The modules found and those still to come from the
queue are the same after each turn, and on a dendrogram the queue runs empty.
-/

namespace Cohesion

variable {W : Type}

theorem Dendrogram.size_at_eq (dendrogram : Dendrogram W) (id : Nat) :
    dendrogram.sizeAt id = (dendrogram.classesAt id).size := by
  rw [sizeAt, Arena.classesAt]
  cases dendrogram.nodes[id]? <;> rfl

section Modules

variable [Weight W] {affinity : Affinity W} {threshold : W}

theorem Node.module_classes {node : Node W} {module : Module W}
    (accepted : node.module? affinity threshold = some module) :
    module.classes = node.classes := by
  cases node with
  | leaf name =>
      cases accepted
      rfl
  | merged left right coupling classes =>
      rw [Node.module?] at accepted
      split at accepted
      · cases accepted
        rfl
      · split at accepted
        · cases accepted
          rfl
        · cases accepted

end Modules

namespace Arena

/-- Induction along a queue: what holds of the rest of a queue, and of the rest with the children of
the first node behind it, has to hold of the queue. -/
theorem queue_induction (arena : Arena W) {motive : List Nat → Prop} (empty : motive [])
    (absent : ∀ id waiting, arena.nodes[id]? = none → motive waiting → motive (id :: waiting))
    (stored : ∀ id node waiting, arena.nodes[id]? = some node → motive waiting →
      motive (waiting ++ node.children) → motive (id :: waiting)) (waiting : List Nat) :
    motive waiting := by
  generalize bound : reach waiting = steps
  induction steps using Nat.strongRecOn generalizing waiting with
  | ind steps induction =>
      subst bound
      cases waiting with
      | nil => exact empty
      | cons id waiting =>
          have rest := induction _ (reach_pos id waiting) waiting rfl
          cases found : arena.nodes[id]? with
          | none => exact absent id waiting found rest
          | some node =>
              have shorter := arena.reach_children_lt found
              refine stored id node waiting found rest (induction _ ?_ _ rfl)
              rw [reach_cons, reach_append]
              omega

theorem known_queue_induction (arena : Arena W) {motive : List Nat → Prop} (empty : motive [])
    (stored : ∀ id node waiting, arena.nodes[id]? = some node → motive waiting →
      motive (waiting ++ node.children) → motive (id :: waiting)) {waiting : List Nat}
    (known : ∀ id ∈ waiting, id < arena.nodes.size) : motive waiting := by
  revert known
  induction waiting using arena.queue_induction with
  | empty => exact fun _ => empty
  | absent id waiting missing rest =>
      intro known
      obtain ⟨node, present⟩ := arena.stored_of_lt (known id List.mem_cons_self)
      rw [missing] at present
      cases present
  | stored id node waiting found rest children =>
      intro known
      obtain ⟨first, others⟩ := List.forall_mem_cons.mp known
      apply stored id node waiting found (rest others)
      apply children
      intro other member
      rcases List.mem_append.mp member with earlier | isChild
      · exact others other earlier
      · exact Nat.lt_trans (arena.children_lt id node found other isChild) first

/-- The nodes at or below the waiting ones, which is how many turns are left at most. -/
def turnsLeft (arena : Arena W) : List Nat → Nat
  | [] => 0
  | id :: waiting => 2 * (arena.classesAt id).size - 1 + turnsLeft arena waiting

@[simp] theorem turns_left_nil (arena : Arena W) : arena.turnsLeft [] = 0 := rfl

@[simp] theorem turns_left_cons (arena : Arena W) (id : Nat) (waiting : List Nat) :
    arena.turnsLeft (id :: waiting) =
      2 * (arena.classesAt id).size - 1 + arena.turnsLeft waiting := rfl

@[simp] theorem turns_left_append (arena : Arena W) (front back : List Nat) :
    arena.turnsLeft (front ++ back) = arena.turnsLeft front + arena.turnsLeft back := by
  induction front with
  | nil => simp
  | cons id front induction => simp [induction, Nat.add_assoc]

variable [Weight W] (arena : Arena W) (affinity : Affinity W) (threshold : W)

section First

variable {arena affinity threshold} {id : Nat} {node : Node W}

theorem cut_of_accepted (stored : arena.nodes[id]? = some node) {module : Module W}
    (accepted : node.module? affinity threshold = some module) (waiting : List Nat) :
    arena.cut affinity threshold (id :: waiting) =
      module :: arena.cut affinity threshold waiting := by
  rw [cut_cons, stored]
  simp only [accepted]

theorem cut_of_refused (stored : arena.nodes[id]? = some node)
    (refused : node.module? affinity threshold = none) (waiting : List Nat) :
    arena.cut affinity threshold (id :: waiting) =
      arena.cut affinity threshold (waiting ++ node.children) := by
  rw [cut_cons, stored]
  simp only [refused]

end First

structure CutState (W : Type) where
  waiting : List Nat
  modules : List (Module W)

def turn (state : CutState W) : CutState W :=
  match state.waiting with
  | [] => state
  | id :: waiting =>
      match arena.nodes[id]? with
      | none => { state with waiting := waiting }
      | some node =>
          match node.module? affinity threshold with
          | some module => ⟨waiting, state.modules ++ [module]⟩
          | none => { state with waiting := waiting ++ node.children }

/-- A turn changes nothing about the modules that come out in the end. -/
theorem turn_cut (state : CutState W) :
    (arena.turn affinity threshold state).modules ++
        arena.cut affinity threshold (arena.turn affinity threshold state).waiting =
      state.modules ++ arena.cut affinity threshold state.waiting := by
  obtain ⟨waiting, modules⟩ := state
  cases waiting with
  | nil => rfl
  | cons id waiting =>
      rw [cut_cons]
      cases found : arena.nodes[id]? with
      | none => simp only [turn, found]
      | some node =>
          cases decision : node.module? affinity threshold with
          | none => simp only [turn, found, decision]
          | some module =>
              simp only [turn, found, decision, List.append_assoc, List.singleton_append]

theorem turns_cut (count : Nat) (state : CutState W) :
    ((arena.turn affinity threshold)^[count] state).modules ++
        arena.cut affinity threshold ((arena.turn affinity threshold)^[count] state).waiting =
      state.modules ++ arena.cut affinity threshold state.waiting := by
  induction count generalizing state with
  | zero => rfl
  | succ count induction => rw [Function.iterate_succ_apply, induction, turn_cut]

end Arena

namespace Dendrogram.Grown

variable [Weight W] {classes : NameSet} {dendrogram : Dendrogram W} {affinity : Affinity W}
  {threshold : W}

theorem joint_of_refused (grown : dendrogram.Grown classes) {id : Nat} {node : Node W}
    (stored : dendrogram.nodes[id]? = some node)
    (refused : node.module? affinity threshold = none) :
    ∃ left right coupling, dendrogram.Joint id left right coupling ∧
      node.children = [left, right] := by
  rcases grown.node_cases (Arena.lt_of_stored stored) with
    ⟨_, leaf⟩ | ⟨left, right, coupling, joint⟩
  · rw [leaf] at stored
    cases stored
    cases refused
  · have found := joint.stored
    rw [stored, Option.some.injEq] at found
    exact ⟨left, right, coupling, joint, by rw [found]; rfl⟩

theorem turn_step (grown : dendrogram.Grown classes) (affinity : Affinity W) (threshold : W)
    {state : Arena.CutState W}
    (bounded : ∀ id ∈ state.waiting, id < dendrogram.nodes.size) (busy : state.waiting ≠ []) :
    (∀ id ∈ (dendrogram.turn affinity threshold state).waiting, id < dendrogram.nodes.size) ∧
      dendrogram.turnsLeft (dendrogram.turn affinity threshold state).waiting <
        dendrogram.turnsLeft state.waiting := by
  obtain ⟨waiting, modules⟩ := state
  cases waiting with
  | nil => exact absurd rfl busy
  | cons id waiting =>
      obtain ⟨first, rest⟩ := List.forall_mem_cons.mp bounded
      obtain ⟨node, stored⟩ := dendrogram.stored_of_lt first
      have positive := grown.size_pos first
      cases decision : node.module? affinity threshold with
      | some module =>
          simp only [Arena.turn, stored, decision, Arena.turns_left_cons]
          exact ⟨rest, by omega⟩
      | none =>
          obtain ⟨left, right, coupling, joint, children⟩ := grown.joint_of_refused stored decision
          have leftBound := Nat.lt_trans joint.left_active.1 first
          have rightBound := Nat.lt_trans joint.right_active.1 first
          have leftPositive := grown.size_pos leftBound
          have rightPositive := grown.size_pos rightBound
          have sizes := joint.size_eq
          simp only [Arena.turn, stored, decision, children, Arena.turns_left_append,
            Arena.turns_left_cons, Arena.turns_left_nil]
          constructor
          · intro other member
            rcases List.mem_append.mp member with earlier | isChild
            · exact rest other earlier
            · rcases List.mem_pair.mp isChild with rfl | rfl
              · exact leftBound
              · exact rightBound
          · omega

/-- As many turns as there are nodes left empty the queue. -/
theorem turns_finish (grown : dendrogram.Grown classes) {count : Nat}
    {state : Arena.CutState W} (bounded : ∀ id ∈ state.waiting, id < dendrogram.nodes.size)
    (enough : dendrogram.turnsLeft state.waiting ≤ count) :
    (dendrogram.turn affinity threshold)^[count] state =
      ⟨[], state.modules ++ dendrogram.cut affinity threshold state.waiting⟩ := by
  have emptied : ((dendrogram.turn affinity threshold)^[count] state).waiting = [] := by
    induction count generalizing state with
    | zero =>
        by_contra busy
        have fewer := (grown.turn_step affinity threshold bounded busy).2
        omega
    | succ count induction =>
        rw [Function.iterate_succ_apply]
        by_cases done : state.waiting = []
        · have idle : dendrogram.turn affinity threshold state = state := by
            simp only [Arena.turn, done]
          rw [idle]
          exact induction bounded (by rw [done]; exact Nat.zero_le _)
        · obtain ⟨kept, fewer⟩ :=
            grown.turn_step affinity threshold bounded done
          exact induction kept (by omega)
  have result := dendrogram.turns_cut affinity threshold count state
  rw [emptied, Arena.cut_nil, List.append_nil] at result
  rw [← result, ← emptied]

end Dendrogram.Grown

end Cohesion
