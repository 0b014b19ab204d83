/-!
TOML values and the growth of tables. A table remembers how it came about, since that decides what
may still be added to it: tables named by a header, tables that a header or a dotted key only
passes through, and inline tables.
-/

namespace Cohesion.Toml

/-- How a table came about. An implicit one was only passed through; a dotted one was made by a
dotted key; an inline one is complete. -/
structure Origin where
  isImplicit : Bool
  isDotted : Bool
  isInline : Bool
  deriving DecidableEq

def Origin.header : Origin := ⟨false, false, false⟩

/-- A TOML value. A number may be well formed and still have no value: a decimal one that is too
large for a double, or a whole one whose digits do not fit its base. An array that grows by headers
is marked. -/
inductive Value where
  | text (value : String)
  | integer (value : Option Int)
  | decimal (value : Option Float)
  | boolean (value : Bool)
  | moment
  | array (ofTables : Bool) (items : List Value)
  | table (origin : Origin) (members : List (String × Value))

structure Table where
  origin : Origin
  members : List (String × Value)

namespace Table

def empty (origin : Origin) : Table := ⟨origin, []⟩

def value (table : Table) : Value := .table table.origin table.members

def get? (table : Table) (name : String) : Option Value := table.members.lookup name

def set (table : Table) (name : String) (value : Value) : Table :=
  if (table.get? name).isSome then
    ⟨table.origin, table.members.map fun (other, old) =>
      (other, if other = name then value else old)⟩
  else ⟨table.origin, table.members ++ [(name, value)]⟩

def find? : List String → Table → Option Table
  | [], table => some table
  | name :: path, table =>
      match table.get? name with
      | some (.table origin members) => find? path ⟨origin, members⟩
      | some (.array true items) =>
          match items.getLast? with
          | some (.table origin members) => find? path ⟨origin, members⟩
          | _ => none
      | _ => none

/-- Change the table that a path leads to. Missing tables on the way come into being. A dotted key
does not pass through a table that a header named, and nothing passes through a complete one; of
an array that grows by headers the last table is meant. -/
def alter (dotted : Bool) (change : Table → Option Table) : List String → Table → Option Table
  | [], table => change table
  | name :: path, table =>
      match table.get? name with
      | none => do
          let made ← alter dotted change path (empty ⟨true, dotted, false⟩)
          some (table.set name made.value)
      | some (.table origin members) =>
          if origin.isInline || (dotted && !origin.isImplicit) then none
          else do
            let changed ← alter dotted change path ⟨origin, members⟩
            some (table.set name changed.value)
      | some (.array true items) =>
          match items.getLast? with
          | some (.table origin members) => do
              let changed ← alter dotted change path ⟨origin, members⟩
              some (table.set name (.array true (items.dropLast ++ [changed.value])))
          | _ => none
      | some _ => none

def addKey (table : Table) (path : List String) (name : String) (value : Value) : Option Table :=
  table.alter (!path.isEmpty)
    (fun parent =>
      if parent.origin.isDotted = path.isEmpty || (parent.get? name).isSome then none
      else some (parent.set name value))
    path

end Table

structure Header where
  path : List String
  name : String
  isArray : Bool

/-- A document in the making: the tables that are complete so far, the last header, and the table
that keys are added to. -/
structure Draft where
  root : Table
  header : Option Header
  current : Table

namespace Draft

def start : Draft := ⟨.empty .header, none, .empty .header⟩

def finish (draft : Draft) : Option Table :=
  match draft.header with
  | none => some draft.current
  | some header => draft.root.alter false
      (fun parent =>
        if header.isArray then
          match parent.get? header.name with
          | none => some (parent.set header.name (.array true [draft.current.value]))
          | some (.array true items) =>
              some (parent.set header.name (.array true (items ++ [draft.current.value])))
          | some _ => none
        else some (parent.set header.name draft.current.value))
      header.path

/-- The table that keys below the header of a single table are added to: a new one, or one that
other headers only passed through. -/
def opened (root : Table) (header : Header) : Option Table :=
  match (Table.find? header.path root).bind fun parent => parent.get? header.name with
  | none => some (.empty .header)
  | some (.table origin members) =>
      if origin.isImplicit && !origin.isDotted then some ⟨.header, members⟩ else none
  | some _ => none

def open? (draft : Draft) (header : Header) : Option Draft := do
  let root ← draft.finish
  let current ← if header.isArray then some (.empty .header) else opened root header
  some ⟨root, some header, current⟩

end Draft

end Cohesion.Toml
