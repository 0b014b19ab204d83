import Cohesion.Files.Access
import Cohesion.Files.Path

/-!
File trees: files and directories under absolute places, and what paths lead to in them. A path is
followed piece by piece from the root or from the working directory, and every step needs a
directory to stand in.
-/

namespace Cohesion

inductive FileNode where
  | file (content : List UInt8)
  | directory
  deriving DecidableEq

/-- Entries with their places, each a list of names from the root. A directory also exists when
something lies below its place. -/
structure FileTree where
  entries : List (List String × FileNode)
  deriving DecidableEq

namespace FileTree

def get? (tree : FileTree) (place : List String) : Option FileNode :=
  match tree.entries.lookup place with
  | some kind => some kind
  | none =>
      if place.isEmpty || tree.entries.any fun (other, _) => place.isPrefixOf other then
        some .directory
      else none

def put (tree : FileTree) (place : List String) (kind : FileNode) : FileTree :=
  ⟨(place, kind) :: tree.entries.filter fun (other, _) => other != place⟩

def step (tree : FileTree) (place : List String) (name : String) :
    Except FileError (List String) :=
  match tree.get? place with
  | some .directory =>
      if name = "" ∨ name = "." then .ok place
      else if name = ".." then .ok place.dropLast
      else if 255 < name.utf8ByteSize then .error .nameTooLong
      else
        let next := place ++ [name]
        if (tree.get? next).isSome then .ok next else .error .notFound
  | some (.file _) => .error .notDirectory
  | none => .error .notFound

def walk (tree : FileTree) (place : List String) (names : List String) :
    Except FileError (List String) :=
  names.foldlM tree.step place

/-- Where a path starts, and the names on the way; some paths are refused as a whole. -/
def route (directory : List String) (path : String) :
    Except FileError (List String × List String) :=
  if path.toList.contains '\x00' then .error .zeroByte
  else if path = "" then .error .notFound
  else if 4096 ≤ path.utf8ByteSize then .error .nameTooLong
  else
    let start := if path.toList.head? = some '/' then [] else directory
    .ok (start, (path.toList.splitOn '/').map String.ofList)

def read (tree : FileTree) (directory : List String) (path : String) :
    Except FileError (List UInt8) := do
  let (start, names) ← route directory path
  let place ← tree.walk start names
  match tree.get? place with
  | some (.file content) => .ok content
  | some .directory => .error .isDirectory
  | none => .error .notFound

def isFile (tree : FileTree) (directory : List String) (path : String) : Bool :=
  (tree.read directory path).toOption.isSome

/-- The place where writing to a path puts a file. The last name may be new, but it is neither a
directory nor followed by a slash. -/
def target (tree : FileTree) (directory : List String) (path : String) :
    Except FileError (List String) := do
  let (start, names) ← route directory path
  let named := (names.reverse.dropWhile (· = "")).reverse
  let parent ← tree.walk start named.dropLast
  let inside ← tree.step parent ""
  match named.getLast? with
  | none => .error .isDirectory
  | some name =>
      if name = "." ∨ name = ".." ∨ names.getLast? = some "" then .error .isDirectory
      else match tree.step inside name with
        | .ok place =>
            match tree.get? place with
            | some (.file _) => .ok place
            | _ => .error .isDirectory
        | .error .notFound => .ok (inside ++ [name])
        | .error error => .error error

def write (tree : FileTree) (directory : List String) (path : String) (content : List UInt8) :
    Except FileError FileTree :=
  (tree.target directory path).map fun place => tree.put place (.file content)

def access (directory : List String) : FileAccess (StateM FileTree) where
  read path := fun tree => (tree.read directory path, tree)
  isFile path := fun tree => (tree.isFile directory path, tree)
  write path content := fun tree => match tree.write directory path content with
    | .ok changed => (.ok (), changed)
    | .error error => (.error error, tree)

end FileTree

end Cohesion
