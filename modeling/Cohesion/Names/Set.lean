/-!
Finite sets of names. The names stand in strictly ascending order, so two sets with the same
members are the same set and every listing is in name order.
-/

namespace Cohesion

/-- Put a name at its place in an ascending list; a name that is there already is not repeated. -/
def insertName (name : String) : List String → List String
  | [] => [name]
  | head :: rest =>
      if name < head then name :: head :: rest
      else if name = head then head :: rest
      else head :: insertName name rest

theorem mem_insert_name {name other : String} {names : List String} :
    other ∈ insertName name names ↔ other = name ∨ other ∈ names := by
  induction names with
  | nil => simp [insertName]
  | cons head rest induction =>
      unfold insertName
      split
      · simp
      · split
        · next equal => simp [equal]
        · simp [induction, or_left_comm]

theorem ascending_insert_name {name : String} {names : List String}
    (ascending : names.Pairwise (· < ·)) : (insertName name names).Pairwise (· < ·) := by
  induction names with
  | nil => simp [insertName]
  | cons head rest induction =>
      obtain ⟨below, tail⟩ := List.pairwise_cons.mp ascending
      unfold insertName
      split
      · next less =>
          refine List.pairwise_cons.mpr ⟨fun other member => ?_, ascending⟩
          rcases List.mem_cons.mp member with same | later
          · exact same ▸ less
          · exact String.lt_trans less (below other later)
      · split
        · exact ascending
        · next notLess notEqual =>
            refine List.pairwise_cons.mpr ⟨fun other member => ?_, induction tail⟩
            rcases mem_insert_name.mp member with same | later
            · subst same
              exact (Std.Trichotomous.rel_or_eq_or_rel_swap (r := (· < · : String → String → Prop))
                (a := head) (b := other)).resolve_right
                  (fun either => either.elim (fun equal => notEqual equal.symm) notLess)
            · exact below other later

theorem ascending_nil : ([] : List String).Pairwise (· < ·) := .nil

theorem eq_of_ascending {left right : List String} (leftAscending : left.Pairwise (· < ·))
    (rightAscending : right.Pairwise (· < ·)) (same : ∀ name, name ∈ left ↔ name ∈ right) :
    left = right := by
  induction left generalizing right with
  | nil =>
      cases right with
      | nil => rfl
      | cons head rest => exact absurd ((same head).mpr List.mem_cons_self) List.not_mem_nil
  | cons first left induction =>
      obtain ⟨leftBelow, leftTail⟩ := List.pairwise_cons.mp leftAscending
      cases right with
      | nil => exact absurd ((same first).mp List.mem_cons_self) List.not_mem_nil
      | cons head right =>
          obtain ⟨rightBelow, rightTail⟩ := List.pairwise_cons.mp rightAscending
          have heads : first = head := by
            rcases List.mem_cons.mp ((same first).mp List.mem_cons_self) with equal | later
            · exact equal
            · rcases List.mem_cons.mp ((same head).mpr List.mem_cons_self) with equal | earlier
              · exact equal.symm
              · exact absurd (String.lt_trans (leftBelow head earlier) (rightBelow first later))
                  (String.lt_irrefl first)
          subst heads
          refine congrArg _ (induction leftTail rightTail fun name => ⟨fun member => ?_,
            fun member => ?_⟩)
          · exact (List.mem_cons.mp ((same name).mp (List.mem_cons_of_mem _ member))).resolve_left
              fun equal => String.lt_irrefl name (equal ▸ leftBelow name member)
          · exact (List.mem_cons.mp ((same name).mpr (List.mem_cons_of_mem _ member))).resolve_left
              fun equal => String.lt_irrefl name (equal ▸ rightBelow name member)

/-- A finite set of names, listed in strictly ascending order. -/
structure NameSet where
  names : List String
  ascending : names.Pairwise (· < ·)
  deriving DecidableEq

namespace NameSet

instance : Membership String NameSet := ⟨fun set name => name ∈ set.names⟩

instance (name : String) (set : NameSet) : Decidable (name ∈ set) :=
  inferInstanceAs (Decidable (name ∈ set.names))

def empty : NameSet := ⟨[], ascending_nil⟩

instance : EmptyCollection NameSet := ⟨empty⟩

def singleton (name : String) : NameSet := ⟨[name], by simp⟩

def insert (set : NameSet) (name : String) : NameSet :=
  ⟨insertName name set.names, ascending_insert_name set.ascending⟩

def ofList (names : List String) : NameSet := names.foldl insert empty

def union (left right : NameSet) : NameSet := right.names.foldl insert left

def toList (set : NameSet) : List String := set.names

def size (set : NameSet) : Nat := set.names.length

def isEmpty (set : NameSet) : Bool := set.names.isEmpty

@[ext] theorem ext {left right : NameSet} (same : ∀ name, name ∈ left ↔ name ∈ right) :
    left = right := by
  cases left with
  | mk left leftAscending =>
      cases right with
      | mk right rightAscending =>
          cases eq_of_ascending leftAscending rightAscending same
          rfl

@[simp] theorem mem_insert {set : NameSet} {name other : String} :
    other ∈ set.insert name ↔ other = name ∨ other ∈ set := mem_insert_name

@[simp] theorem not_mem_empty {name : String} : ¬ name ∈ (∅ : NameSet) :=
  List.not_mem_nil

@[simp] theorem mem_singleton {name other : String} : other ∈ singleton name ↔ other = name :=
  List.mem_singleton

theorem mem_foldl_insert {names : List String} {set : NameSet} {name : String} :
    name ∈ names.foldl insert set ↔ name ∈ set ∨ name ∈ names := by
  induction names generalizing set with
  | nil => simp
  | cons head rest induction => simp [induction, or_left_comm, or_assoc]

@[simp] theorem mem_union {left right : NameSet} {name : String} :
    name ∈ left.union right ↔ name ∈ left ∨ name ∈ right := mem_foldl_insert

@[simp] theorem mem_of_list {names : List String} {name : String} :
    name ∈ ofList names ↔ name ∈ names := by
  simp only [ofList, mem_foldl_insert]
  exact or_iff_right not_mem_empty

@[simp] theorem mem_to_list {set : NameSet} {name : String} : name ∈ set.toList ↔ name ∈ set :=
  Iff.rfl

end NameSet

end Cohesion
