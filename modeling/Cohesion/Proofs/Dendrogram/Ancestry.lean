import Cohesion.Dendrogram.Basic

/-!
# Parents and children in a node list

A node is active before a place when it stands before that place and no node that also stands there
has it as a child. Nodes are only ever appended, so what holds before a place stays true of every
longer list.
-/

namespace Cohesion.Arena

variable {W : Type}

/-- The classes at or below a node, none where there is no node. -/
def classesAt (arena : Arena W) (id : Nat) : NameSet :=
  (arena.nodes[id]?.map Node.classes).getD ∅

def IsChild (arena : Arena W) (child parent : Nat) : Prop :=
  ∃ node, arena.nodes[parent]? = some node ∧ child ∈ node.children

def ActiveBefore (arena : Arena W) (place id : Nat) : Prop :=
  id < place ∧ ∀ parent < place, ¬arena.IsChild id parent

instance (arena : Arena W) (child parent : Nat) : Decidable (arena.IsChild child parent) :=
  inferInstanceAs (Decidable (∃ node ∈ arena.nodes[parent]?, child ∈ node.children))

instance (arena : Arena W) (place id : Nat) : Decidable (arena.ActiveBefore place id) :=
  inferInstanceAs (Decidable (_ ∧ _))

/-- A node and everything that is reached from it by going to children. -/
inductive Below (arena : Arena W) (top : Nat) : Nat → Prop
  | top : Below arena top top
  | child {parent child : Nat} : Below arena top parent → arena.IsChild child parent →
      Below arena top child

theorem classes_at_stored {arena : Arena W} {id : Nat} {node : Node W}
    (stored : arena.nodes[id]? = some node) : arena.classesAt id = node.classes := by
  rw [classesAt, stored]
  rfl

theorem stored_of_lt (arena : Arena W) {id : Nat} (bound : id < arena.nodes.size) :
    ∃ node, arena.nodes[id]? = some node :=
  ⟨arena.nodes[id], Array.getElem?_eq_getElem bound⟩

theorem lt_of_stored {arena : Arena W} {id : Nat} {node : Node W}
    (stored : arena.nodes[id]? = some node) : id < arena.nodes.size :=
  (Array.getElem?_eq_some_iff.mp stored).choose

theorem IsChild.parent_lt {arena : Arena W} {child parent : Nat}
    (isChild : arena.IsChild child parent) : parent < arena.nodes.size := by
  obtain ⟨node, stored, _⟩ := isChild
  exact lt_of_stored stored

theorem IsChild.lt {arena : Arena W} {child parent : Nat}
    (isChild : arena.IsChild child parent) : child < parent := by
  obtain ⟨node, stored, member⟩ := isChild
  exact arena.children_lt parent node stored child member

theorem is_child_merged {arena : Arena W} {id left right child : Nat} {coupling : W}
    {classes : NameSet} (stored : arena.nodes[id]? = some (.merged left right coupling classes)) :
    arena.IsChild child id ↔ child = left ∨ child = right := by
  constructor
  · rintro ⟨node, found, member⟩
    rw [stored] at found
    cases found
    simpa [Node.children] using member
  · intro either
    exact ⟨_, stored, by simpa [Node.children] using either⟩

theorem not_is_child_leaf {arena : Arena W} {id child : Nat} {name : String}
    (stored : arena.nodes[id]? = some (.leaf name)) : ¬arena.IsChild child id := by
  rintro ⟨node, found, member⟩
  rw [stored] at found
  cases found
  simp [Node.children] at member

theorem Below.le {arena : Arena W} {top id : Nat} (below : arena.Below top id) : id ≤ top := by
  induction below with
  | top => exact Nat.le_refl _
  | child _ isChild before => exact Nat.le_trans (Nat.le_of_lt isChild.lt) before

theorem Below.trans {arena : Arena W} {top middle id : Nat} (upper : arena.Below top middle)
    (lower : arena.Below middle id) : arena.Below top id := by
  induction lower with
  | top => exact upper
  | child _ isChild above => exact .child above isChild

theorem below_iff {arena : Arena W} {top id : Nat} :
    arena.Below top id ↔ id = top ∨ ∃ child, arena.IsChild child top ∧ arena.Below child id := by
  constructor
  · intro below
    induction below with
    | top => exact .inl rfl
    | @child parent child _ isChild reached =>
        rcases reached with rfl | ⟨first, firstChild, rest⟩
        · exact .inr ⟨child, isChild, .top⟩
        · exact .inr ⟨first, firstChild, .child rest isChild⟩
  · rintro (rfl | ⟨child, isChild, rest⟩)
    · exact .top
    · exact (Below.child .top isChild).trans rest

theorem below_leaf {arena : Arena W} {top id : Nat} {name : String}
    (stored : arena.nodes[top]? = some (.leaf name)) : arena.Below top id ↔ id = top := by
  rw [below_iff]
  constructor
  · rintro (same | ⟨child, isChild, _⟩)
    · exact same
    · exact absurd isChild (not_is_child_leaf stored)
  · exact .inl

theorem below_merged {arena : Arena W} {top left right id : Nat} {coupling : W}
    {classes : NameSet} (stored : arena.nodes[top]? = some (.merged left right coupling classes)) :
    arena.Below top id ↔ id = top ∨ arena.Below left id ∨ arena.Below right id := by
  rw [below_iff]
  simp only [is_child_merged stored, exists_eq_or_imp, exists_eq_left]

/-- Everything below a node but the node itself has a parent that is also below it. -/
theorem Below.parent {arena : Arena W} {top id : Nat} (below : arena.Below top id)
    (differs : id ≠ top) : ∃ parent, arena.Below top parent ∧ arena.IsChild id parent := by
  cases below with
  | top => exact absurd rfl differs
  | child above isChild => exact ⟨_, above, isChild⟩

def reachedIn (arena : Arena W) : Nat → Nat → List Nat
  | 0, top => [top]
  | steps + 1, top =>
      top :: ((arena.nodes[top]?.map Node.children).getD []).flatMap (arena.reachedIn steps)

theorem mem_children_iff (arena : Arena W) {parent child : Nat} :
    child ∈ (arena.nodes[parent]?.map Node.children).getD [] ↔ arena.IsChild child parent := by
  unfold IsChild
  cases arena.nodes[parent]? with
  | none => simp
  | some node => simp

/-- Children stand before their parents, so no way down is longer than the number of its start. -/
theorem mem_reached_in (arena : Arena W) {steps top id : Nat} (enough : top ≤ steps) :
    id ∈ arena.reachedIn steps top ↔ arena.Below top id := by
  induction steps generalizing top with
  | zero =>
      rw [below_iff, reachedIn, List.mem_singleton]
      constructor
      · exact .inl
      · intro either
        rcases either with same | ⟨child, isChild, _⟩
        · exact same
        · have earlier := isChild.lt
          omega
  | succ steps induction =>
      rw [below_iff, reachedIn, List.mem_cons, List.mem_flatMap]
      apply or_congr_right
      apply exists_congr
      intro child
      rw [mem_children_iff]
      apply and_congr_right
      intro isChild
      have earlier := isChild.lt
      exact induction (by omega)

instance (arena : Arena W) (top id : Nat) : Decidable (arena.Below top id) :=
  decidable_of_iff (id ∈ arena.reachedIn top top) (arena.mem_reached_in (Nat.le_refl top))

def Continues (longer shorter : Arena W) : Prop :=
  ∀ id < shorter.nodes.size, longer.nodes[id]? = shorter.nodes[id]?

theorem continues_push (arena : Arena W) (node : Node W)
    (known : ∀ child ∈ node.children, child < arena.nodes.size) :
    (arena.push node known).Continues arena := by
  intro id bound
  rw [nodes_push, Array.getElem?_push_lt bound, Array.getElem?_eq_getElem bound]

theorem Continues.trans {longest longer shorter : Arena W} (first : longest.Continues longer)
    (second : longer.Continues shorter) : longest.Continues shorter := by
  intro id bound
  have kept := second id bound
  have inLonger : id < longer.nodes.size := by
    rw [Array.getElem?_eq_getElem bound] at kept
    exact lt_of_stored kept
  rw [first id inLonger, kept]

section Prefix

variable {longer shorter : Arena W} (continues : longer.Continues shorter)

include continues

theorem Continues.classes_at {id : Nat} (bound : id < shorter.nodes.size) :
    longer.classesAt id = shorter.classesAt id := by
  rw [classesAt, continues id bound, classesAt]

theorem Continues.is_child {child parent : Nat} (bound : parent < shorter.nodes.size) :
    longer.IsChild child parent ↔ shorter.IsChild child parent := by
  simp only [IsChild, continues parent bound]

theorem Continues.active_before {place id : Nat} (bound : place ≤ shorter.nodes.size) :
    longer.ActiveBefore place id ↔ shorter.ActiveBefore place id := by
  refine and_congr_right fun _ => forall_congr' fun parent => ?_
  refine imp_congr_right fun before => not_congr ?_
  exact continues.is_child (Nat.lt_of_lt_of_le before bound)

end Prefix

/-- A new node that has active nodes as children takes their place among the active ones. -/
theorem active_before_push (arena : Arena W) (node : Node W)
    (known : ∀ child ∈ node.children, child < arena.nodes.size) (id : Nat) :
    (arena.push node known).ActiveBefore (arena.nodes.size + 1) id ↔
      id = arena.nodes.size ∨
        arena.ActiveBefore arena.nodes.size id ∧ id ∉ node.children := by
  have continues := arena.continues_push node known
  have newest : (arena.push node known).nodes[arena.nodes.size]? = some node := by
    rw [nodes_push, Array.getElem?_push_size]
  have childOfNewest : (arena.push node known).IsChild id arena.nodes.size ↔
      id ∈ node.children := by
    constructor
    · rintro ⟨found, stored, member⟩
      rw [newest] at stored
      cases stored
      exact member
    · intro member
      exact ⟨node, newest, member⟩
  constructor
  · rintro ⟨bound, orphan⟩
    rcases Nat.lt_succ_iff_lt_or_eq.mp bound with earlier | same
    · refine .inr ⟨⟨earlier, fun parent before isChild => ?_⟩, fun member => ?_⟩
      · exact orphan parent (Nat.lt_succ_of_lt before) ((continues.is_child before).mpr isChild)
      · exact orphan _ (Nat.lt_succ_self _) (childOfNewest.mpr member)
    · exact .inl same
  · rintro (same | ⟨⟨bound, orphan⟩, notChild⟩)
    · subst same
      refine ⟨Nat.lt_succ_self _, fun parent before isChild => ?_⟩
      have below := isChild.lt
      omega
    · refine ⟨Nat.lt_succ_of_lt bound, fun parent before isChild => ?_⟩
      rcases Nat.lt_succ_iff_lt_or_eq.mp before with earlier | same
      · exact orphan parent earlier ((continues.is_child earlier).mp isChild)
      · subst same
        exact notChild (childOfNewest.mp isChild)

end Cohesion.Arena
