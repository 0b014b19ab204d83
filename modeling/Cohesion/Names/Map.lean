import Cohesion.Names.Set

/-!
Finite maps from names. Each name has one entry and entries stand in strictly ascending order of
their names, so maps with the same lookups are equal and every listing is in name order.
-/

namespace Cohesion

variable {Value Result : Type}

/-- Apply a change at one name, to the value there or to its absence, keeping the order. -/
def adjustEntry (name : String) (change : Option Value → Value) :
    List (String × Value) → List (String × Value)
  | [] => [(name, change none)]
  | (key, value) :: rest =>
      if name < key then (name, change none) :: (key, value) :: rest
      else if name = key then (key, change (some value)) :: rest
      else (key, value) :: adjustEntry name change rest

theorem mem_keys_adjust_entry {name other : String} {change : Option Value → Value}
    {entries : List (String × Value)} :
    other ∈ (adjustEntry name change entries).map Prod.fst ↔
      other = name ∨ other ∈ entries.map Prod.fst := by
  induction entries with
  | nil => simp [adjustEntry]
  | cons head rest induction =>
      obtain ⟨key, value⟩ := head
      unfold adjustEntry
      split
      · simp
      · split
        · next equal => simp [equal]
        · simp only [List.map_cons, List.mem_cons, induction, or_left_comm]

theorem ascending_adjust_entry {name : String} {change : Option Value → Value}
    {entries : List (String × Value)} (ascending : (entries.map Prod.fst).Pairwise (· < ·)) :
    ((adjustEntry name change entries).map Prod.fst).Pairwise (· < ·) := by
  induction entries with
  | nil => simp [adjustEntry]
  | cons head rest induction =>
      obtain ⟨key, value⟩ := head
      obtain ⟨below, tail⟩ := List.pairwise_cons.mp ascending
      unfold adjustEntry
      split
      · next less =>
          refine List.pairwise_cons.mpr ⟨fun other member => ?_, ascending⟩
          rcases List.mem_cons.mp member with same | later
          · exact same ▸ less
          · exact String.lt_trans less (below other later)
      · split
        · exact ascending
        · next notLess notEqual =>
            refine List.pairwise_cons.mpr ⟨fun other member => ?_, induction tail⟩
            rcases mem_keys_adjust_entry.mp member with same | later
            · subst same
              exact (Std.Trichotomous.rel_or_eq_or_rel_swap (r := (· < · : String → String → Prop))
                (a := key) (b := other)).resolve_right
                  (fun either => either.elim (fun equal => notEqual equal.symm) notLess)
            · exact below other later

/-- A finite map from names, its entries in strictly ascending order of their names. -/
structure NameMap (Value : Type) where
  entries : List (String × Value)
  ascending : (entries.map Prod.fst).Pairwise (· < ·)
  deriving DecidableEq

namespace NameMap

def empty : NameMap Value := ⟨[], ascending_nil⟩

instance : EmptyCollection (NameMap Value) := ⟨empty⟩

instance : Inhabited (NameMap Value) := ⟨empty⟩

def get? (map : NameMap Value) (name : String) : Option Value := map.entries.lookup name

def adjust (map : NameMap Value) (name : String) (change : Option Value → Value) :
    NameMap Value :=
  ⟨adjustEntry name change map.entries, ascending_adjust_entry map.ascending⟩

def insert (map : NameMap Value) (name : String) (value : Value) : NameMap Value :=
  map.adjust name fun _ => value

def toList (map : NameMap Value) : List (String × Value) := map.entries

def keys (map : NameMap Value) : NameSet := ⟨map.entries.map Prod.fst, map.ascending⟩

def values (map : NameMap Value) : List Value := map.entries.map Prod.snd

def size (map : NameMap Value) : Nat := map.entries.length

def isEmpty (map : NameMap Value) : Bool := map.entries.isEmpty

def mapValues (transform : Value → Result) (map : NameMap Value) : NameMap Result :=
  ⟨map.entries.map fun entry => (entry.1, transform entry.2), by
    simpa [Function.comp_def] using map.ascending⟩

theorem lookup_adjust_entry_self (name : String) (change : Option Value → Value)
    {entries : List (String × Value)} (ascending : (entries.map Prod.fst).Pairwise (· < ·)) :
    (adjustEntry name change entries).lookup name = some (change (entries.lookup name)) := by
  induction entries with
  | nil => simp [adjustEntry]
  | cons head rest induction =>
      obtain ⟨key, value⟩ := head
      obtain ⟨below, tail⟩ := List.pairwise_cons.mp ascending
      unfold adjustEntry
      split
      · next less =>
          have absent : List.lookup name ((key, value) :: rest) = none := by
            rw [List.lookup_eq_none_iff]
            intro entry member
            have above : name < entry.1 := by
              rcases List.mem_cons.mp member with same | later
              · exact same ▸ less
              · exact String.lt_trans less (below entry.1 (List.mem_map_of_mem later))
            simpa using fun equal : name = entry.1 => String.lt_irrefl name (equal ▸ above)
          rw [absent]
          simp
      · split
        · next equal => subst equal; simp
        · next notLess notEqual =>
            have differs : (name == key) = false := by simpa using notEqual
            simp only [List.lookup_cons, differs]
            exact induction tail

theorem lookup_adjust_entry_of_ne {name other : String} (differs : other ≠ name)
    (change : Option Value → Value) (entries : List (String × Value)) :
    (adjustEntry name change entries).lookup other = entries.lookup other := by
  have unequal : (other == name) = false := by simpa using differs
  induction entries with
  | nil => simp [adjustEntry, List.lookup_cons, unequal]
  | cons head rest induction =>
      obtain ⟨key, value⟩ := head
      unfold adjustEntry
      split
      · simp [List.lookup_cons, unequal]
      · split
        · next equal => subst equal; simp [List.lookup_cons, unequal]
        · simp [List.lookup_cons, induction]

@[simp] theorem get?_adjust_self (map : NameMap Value) (name : String)
    (change : Option Value → Value) :
    (map.adjust name change).get? name = some (change (map.get? name)) :=
  lookup_adjust_entry_self name change map.ascending

theorem get?_adjust_of_ne (map : NameMap Value) {name other : String} (differs : other ≠ name)
    (change : Option Value → Value) : (map.adjust name change).get? other = map.get? other :=
  lookup_adjust_entry_of_ne differs change map.entries

@[simp] theorem get?_empty (name : String) : (∅ : NameMap Value).get? name = none := rfl

@[simp] theorem mem_keys_adjust {map : NameMap Value} {name other : String}
    {change : Option Value → Value} :
    other ∈ (map.adjust name change).keys ↔ other = name ∨ other ∈ map.keys :=
  mem_keys_adjust_entry

theorem mem_keys_iff (map : NameMap Value) {name : String} :
    name ∈ map.keys ↔ ∃ value, map.get? name = some value := by
  obtain ⟨entries, ascending⟩ := map
  change name ∈ entries.map Prod.fst ↔ ∃ value, entries.lookup name = some value
  clear ascending
  induction entries with
  | nil => simp
  | cons head rest induction =>
      obtain ⟨key, value⟩ := head
      by_cases same : name = key
      · subst same; simp
      · have differs : (name == key) = false := by simpa using same
        simp only [List.map_cons, List.mem_cons, same, false_or, List.lookup_cons, differs]
        exact induction

theorem eq_of_lookup {left right : List (String × Value)}
    (leftAscending : (left.map Prod.fst).Pairwise (· < ·))
    (rightAscending : (right.map Prod.fst).Pairwise (· < ·))
    (same : ∀ name, left.lookup name = right.lookup name) : left = right := by
  have keysEqual : left.map Prod.fst = right.map Prod.fst :=
    eq_of_ascending leftAscending rightAscending fun name =>
      (mem_keys_iff ⟨left, leftAscending⟩).trans
        ((exists_congr fun value => by rw [get?, get?, same]).trans
          (mem_keys_iff ⟨right, rightAscending⟩).symm)
  induction left generalizing right with
  | nil => exact (List.map_eq_nil_iff.mp keysEqual.symm).symm
  | cons head left induction =>
      obtain ⟨key, value⟩ := head
      cases right with
      | nil => cases keysEqual
      | cons other right =>
          obtain ⟨otherKey, otherValue⟩ := other
          obtain ⟨keyEqual, restEqual⟩ := List.cons.inj keysEqual
          simp only at keyEqual
          subst keyEqual
          obtain ⟨leftBelow, leftTail⟩ := List.pairwise_cons.mp leftAscending
          obtain ⟨rightBelow, rightTail⟩ := List.pairwise_cons.mp rightAscending
          have valueEqual := same key
          simp only [List.lookup_cons, beq_self_eq_true, Option.some.injEq] at valueEqual
          subst valueEqual
          refine congrArg _ (induction leftTail rightTail (fun name => ?_) restEqual)
          by_cases present : name = key
          · subst present
            have absent {rest : List (String × Value)}
                (below : ∀ later ∈ rest.map Prod.fst, name < later) : rest.lookup name = none := by
              rw [List.lookup_eq_none_iff]
              intro entry member
              have above := below entry.1 (List.mem_map_of_mem member)
              simpa using fun equal : name = entry.1 => String.lt_irrefl name (equal ▸ above)
            rw [absent leftBelow, absent rightBelow]
          · have differs : (name == key) = false := by simpa using present
            simpa [List.lookup_cons, differs] using same name

@[ext] theorem ext {left right : NameMap Value}
    (same : ∀ name, left.get? name = right.get? name) : left = right := by
  cases left with
  | mk left leftAscending =>
      cases right with
      | mk right rightAscending =>
          cases eq_of_lookup leftAscending rightAscending same
          rfl

end NameMap

end Cohesion
