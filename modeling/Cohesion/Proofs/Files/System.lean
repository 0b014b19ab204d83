import Mathlib.Data.List.Basic
import Cohesion.Files.Tree

/-!
# File systems

What a program can rely on when it reads and writes files, whatever the file system is like: a path
that can be written leads to a place, writing puts a file there and leaves all other places as they
were, and the path reads as what has been written. File trees are a file system in this sense.
-/

namespace Cohesion

/-- A file system with its states and the places in it. Why a path cannot be read or written is up
to the file system. -/
structure FileSystem (State Place : Type) where
  read : State → String → Except FileError (List UInt8)
  isFile : State → String → Bool
  target : State → String → Except FileError Place
  node? : State → Place → Option FileNode
  put : State → Place → List UInt8 → State
  node_of_put : ∀ {state : State} {path : String} {place : Place} (content : List UInt8),
    target state path = .ok place → node? (put state place content) place = some (.file content)
  node_of_put_elsewhere : ∀ {state : State} {path : String} {place other : Place}
    (content : List UInt8), target state path = .ok place → other ≠ place →
      node? (put state place content) other = node? state other
  read_of_put : ∀ {state : State} {path : String} {place : Place} (content : List UInt8),
    target state path = .ok place → read (put state place content) path = .ok content

namespace FileSystem

variable {State Place : Type}

def access (system : FileSystem State Place) : FileAccess (StateM State) where
  read path := fun state => (system.read state path, state)
  isFile path := fun state => (system.isFile state path, state)
  write path content := fun state =>
    match (system.target state path).map fun place => system.put state place content with
    | .ok changed => (.ok (), changed)
    | .error error => (.error error, state)

theorem access_write (system : FileSystem State Place) (path : String) (content : List UInt8)
    (state : State) : system.access.write path content state =
      match system.target state path with
      | .ok place => (.ok (), system.put state place content)
      | .error error => (.error error, state) := by
  simp only [access]
  cases system.target state path <;> rfl

end FileSystem

namespace FileTree

/-- There is a file or a directory at a place, or something below it. -/
def Occupied (tree : FileTree) (place : List String) : Prop :=
  place = [] ∨ ∃ entry ∈ tree.entries, place <+: entry.1

section Lookup

variable {tree other : FileTree} {place : List String}

theorem occupied_iff : (place.isEmpty || tree.entries.any fun (key, _) => place.isPrefixOf key) ↔
    tree.Occupied place := by
  simp [Occupied]

theorem Occupied.above {above : List String} (occupied : tree.Occupied place)
    (isPrefix : above <+: place) : tree.Occupied above := by
  rcases occupied with rfl | ⟨entry, member, below⟩
  · exact .inl (List.prefix_nil.mp isPrefix)
  · exact .inr ⟨entry, member, isPrefix.trans below⟩

theorem exists_entry_of_lookup {kind : FileNode} (found : tree.entries.lookup place = some kind) :
    ∃ entry ∈ tree.entries, entry.1 = place := by
  obtain ⟨front, back, split, _⟩ := List.lookup_eq_some_iff.mp found
  exact ⟨(place, kind), split ▸ List.mem_append_right front List.mem_cons_self, rfl⟩

theorem occupied_of_get {kind : FileNode} (found : tree.get? place = some kind) :
    tree.Occupied place := by
  rw [get?] at found
  split at found
  · next kind looked =>
      obtain ⟨entry, member, same⟩ := exists_entry_of_lookup looked
      exact .inr ⟨entry, member, same ▸ List.prefix_rfl⟩
  · split at found
    · next occupied => exact occupied_iff.mp occupied
    · cases found

theorem get_congr (lookups : tree.entries.lookup place = other.entries.lookup place)
    (occupied : tree.Occupied place ↔ other.Occupied place) :
    tree.get? place = other.get? place := by
  rw [← occupied_iff, ← occupied_iff, ← Bool.eq_iff_iff] at occupied
  rw [get?, get?, lookups, occupied]

end Lookup

section Put

variable {tree : FileTree} {place other : List String} (kind : FileNode)

theorem get_put_self : (tree.put place kind).get? place = some kind := by
  simp [get?, put]

theorem lookup_put_of_ne (differs : other ≠ place) :
    (tree.put place kind).entries.lookup other = tree.entries.lookup other := by
  have unequal : (other == place) = false := by simpa using differs
  rw [put, List.lookup_cons, unequal]
  induction tree.entries with
  | nil => rfl
  | cons entry rest induction =>
      obtain ⟨key, value⟩ := entry
      by_cases same : key = place
      · subst same
        simpa [List.lookup_cons, unequal] using induction
      · simp [same, List.lookup_cons, induction]

theorem occupied_put_iff : (tree.put place kind).Occupied other ↔
    other <+: place ∨ tree.Occupied other := by
  constructor
  · rintro (root | ⟨entry, member, below⟩)
    · exact .inr (.inl root)
    · rcases List.mem_cons.mp member with rfl | kept
      · exact .inl below
      · exact .inr (.inr ⟨entry, List.mem_of_mem_filter kept, below⟩)
  · rintro (above | root | ⟨entry, member, below⟩)
    · exact .inr ⟨(place, kind), List.mem_cons_self, above⟩
    · exact .inl root
    · by_cases same : entry.1 = place
      · exact .inr ⟨(place, kind), List.mem_cons_self, same ▸ below⟩
      · exact .inr ⟨entry, List.mem_cons_of_mem _ (List.mem_filter.mpr ⟨member, by simpa using same⟩),
          below⟩

/-- Where all places above exist, putting an entry changes its own place only. -/
theorem get_put_of_ne (differs : other ≠ place)
    (above : ∀ parent, parent <+: place → parent ≠ place → tree.Occupied parent) :
    (tree.put place kind).get? other = tree.get? other := by
  apply get_congr (lookup_put_of_ne kind differs)
  rw [occupied_put_iff, or_iff_right_of_imp]
  intro isPrefix
  exact above other isPrefix differs

end Put

section Steps

variable {tree : FileTree} {here next : List String} {name : String}

theorem directory_of_step (found : tree.step here name = .ok next) :
    tree.get? here = some .directory := by
  unfold step at found
  split at found
  · next standing => exact standing
  · cases found
  · cases found

theorem step_empty (standing : tree.get? here = some .directory) : tree.step here "" = .ok here := by
  rw [step, standing]
  rfl

theorem step_name (standing : tree.get? here = some .directory) (empty : name ≠ "")
    (dot : name ≠ ".") (up : name ≠ "..") : tree.step here name =
      if 255 < name.utf8ByteSize then .error .nameTooLong
      else if (tree.get? (here ++ [name])).isSome then .ok (here ++ [name])
      else .error .notFound := by
  rw [step, standing]
  simp only [empty, dot, up, or_self, if_false]

/-- Steps lead to the same place where more is to be found. -/
theorem step_mono {other : FileTree} (same : other.get? here = tree.get? here)
    (more : ∀ place, (tree.get? place).isSome → (other.get? place).isSome)
    (found : tree.step here name = .ok next) : other.step here name = .ok next := by
  unfold step at found ⊢
  rw [same]
  split at found
  · split at found
    · next stays => rwa [if_pos stays]
    · next moves =>
        rw [if_neg moves]
        split at found
        · next up => rwa [if_pos up]
        · next down =>
            rw [if_neg down]
            split at found
            · cases found
            · next short =>
                rw [if_neg short]
                dsimp only at found ⊢
                split at found
                · next present => rwa [if_pos (more _ present)]
                · cases found
  · cases found
  · cases found

end Steps

theorem exists_of_bind_ok {Failure Value Result : Type} {first : Except Failure Value}
    {next : Value → Except Failure Result} {result : Result}
    (succeeds : first >>= next = .ok result) :
    ∃ value, first = .ok value ∧ next value = .ok result := by
  cases first with
  | error error => cases succeeds
  | ok value => exact ⟨value, rfl, succeeds⟩

/-- Names whose last one is not empty end with it when empty ones at the end are left out. -/
theorem names_without_end {names : List String} {name : String} (open_end : names.getLast? ≠ some "")
    (last : (names.reverse.dropWhile (· = "")).reverse.getLast? = some name) :
    (names.reverse.dropWhile (· = "")).reverse = names ∧ ∃ front, names = front ++ [name] := by
  rcases List.eq_nil_or_concat' names with rfl | ⟨front, final, rfl⟩
  · cases last
  · have some_name : final ≠ "" := by simpa using open_end
    have kept : ((front ++ [final]).reverse.dropWhile (· = "")).reverse = front ++ [final] := by
      simp [some_name]
    rw [kept, List.getLast?_concat, Option.some.injEq] at last
    exact ⟨kept, front, by rw [last]⟩

/-- A path that can be written to leads to a directory and ends with a name in it, which is new or
the name of a file. -/
theorem target_cases {tree : FileTree} {directory : List String} {path : String}
    {place : List String} (found : tree.target directory path = .ok place) :
    ∃ start names parent name, route directory path = .ok (start, names ++ [name]) ∧
      tree.walk start names = .ok parent ∧ tree.get? parent = some .directory ∧
      (name ≠ "" ∧ name ≠ "." ∧ name ≠ ".." ∧ ¬255 < name.utf8ByteSize) ∧
      place = parent ++ [name] ∧ tree.get? place ≠ some .directory := by
  obtain ⟨⟨start, names⟩, routed, walks⟩ := exists_of_bind_ok found
  obtain ⟨parent, walked, enters⟩ := exists_of_bind_ok walks
  obtain ⟨inside, entered, ends⟩ := exists_of_bind_ok enters
  have standing := directory_of_step entered
  rw [step_empty standing, Except.ok.injEq] at entered
  subst entered
  split at ends
  · cases ends
  · next name last =>
      split at ends
      · cases ends
      · next proper =>
          simp only [not_or] at proper
          obtain ⟨dot, up, open_end⟩ := proper
          obtain ⟨kept, front, rfl⟩ := names_without_end open_end last
          rw [kept, List.dropLast_concat] at walked
          have empty : name ≠ "" := by simpa using open_end
          rw [step_name standing empty dot up] at ends
          refine ⟨start, front, parent, name, routed, walked, standing, ?_⟩
          split_ifs at ends with long present
          · dsimp only at ends
            split at ends
            · next file => cases ends; exact ⟨⟨empty, dot, up, long⟩, rfl, by simp [file]⟩
            · cases ends
          · cases ends
            have none_there : tree.get? (parent ++ [name]) = none := by simpa using present
            exact ⟨⟨empty, dot, up, long⟩, rfl, by simp [none_there]⟩

section Write

variable {tree : FileTree} {directory : List String} {path : String} {place : List String}
  (found : tree.target directory path = .ok place)

include found

theorem occupied_above_target {above : List String} (isPrefix : above <+: place)
    (differs : above ≠ place) : tree.Occupied above := by
  obtain ⟨_, _, parent, name, _, _, standing, _, rfl, _⟩ := target_cases found
  have within : above <+: parent := by
    rcases List.prefix_concat_iff.mp isPrefix with same | within
    · exact absurd same differs
    · exact within
  exact (occupied_of_get standing).above within

theorem get_put_target (kind : FileNode) {other : List String} (differs : other ≠ place) :
    (tree.put place kind).get? other = tree.get? other :=
  get_put_of_ne kind differs fun _ isPrefix apart => occupied_above_target found isPrefix apart

/-- A walk only goes on from directories, so it does not go through a place that is none. -/
theorem walk_put_target (content : List UInt8) {start names parent : List String}
    (walked : tree.walk start names = .ok parent) :
    (tree.put place (.file content)).walk start names = .ok parent := by
  obtain ⟨_, _, _, _, _, _, _, _, _, not_directory⟩ := target_cases found
  have more : ∀ other, (tree.get? other).isSome →
      ((tree.put place (.file content)).get? other).isSome := by
    intro other present
    by_cases same : other = place
    · rw [same, get_put_self]
      rfl
    · rwa [get_put_target found _ same]
  induction names generalizing start with
  | nil => exact walked
  | cons name rest induction =>
      obtain ⟨next, stepped, later⟩ := exists_of_bind_ok walked
      have inside := directory_of_step stepped
      have same : start ≠ place := fun same => not_directory (same ▸ inside)
      have again := step_mono (get_put_target found (.file content) same) more stepped
      have walked_on := induction later
      rw [walk, List.foldlM_cons, again]
      exact walked_on

theorem read_put_target (content : List UInt8) :
    (tree.put place (.file content)).read directory path = .ok content := by
  obtain ⟨start, names, parent, name, routed, walked, standing, proper, same, not_directory⟩ :=
    target_cases found
  obtain ⟨empty, dot, up, short⟩ := proper
  have again := walk_put_target found content walked
  have outside : parent ≠ place := fun same => not_directory (same ▸ standing)
  have inside : (tree.put place (.file content)).get? parent = some .directory := by
    rw [get_put_target found _ outside, standing]
  have present : ((tree.put place (.file content)).get? (parent ++ [name])).isSome := by
    rw [← same, get_put_self]
    rfl
  have last := step_name inside empty dot up
  rw [if_neg short, if_pos present, ← same] at last
  have whole : (tree.put place (.file content)).walk start (names ++ [name]) = .ok place := by
    rw [walk] at again ⊢
    rw [List.foldlM_append, again]
    change ((tree.put place (.file content)).step parent name >>= pure) = .ok place
    rw [last]
    rfl
  simp only [read, routed, bind, Except.bind, whole, get_put_self]

end Write

def system (directory : List String) : FileSystem FileTree (List String) where
  read tree := tree.read directory
  isFile tree := tree.isFile directory
  target tree := tree.target directory
  node? := get?
  put tree place content := tree.put place (.file content)
  node_of_put content _ := get_put_self (.file content)
  node_of_put_elsewhere content found differs := get_put_target found (.file content) differs
  read_of_put content found := read_put_target found content

theorem access_eq (directory : List String) : access directory = (system directory).access := by
  have writes : (access directory).write = (system directory).access.write := by
    funext path content tree
    simp only [access, FileSystem.access, system, write]
    cases tree.target directory path with
    | error error => rfl
    | ok place => rfl
  exact congrArg (FileAccess.mk _ _) writes

end FileTree

end Cohesion
