import Cohesion.Files.Error

/-!
What the program does with files.
-/

namespace Cohesion

/-- Reading a file, asking whether a path is a file, and writing a file, which is created or
replaced as a whole. -/
structure FileAccess (m : Type → Type) where
  read : String → m (Except FileError (List UInt8))
  isFile : String → m Bool
  write : String → List UInt8 → m (Except FileError Unit)

def textOf (bytes : List UInt8) : Except FileError String :=
  match String.fromUTF8? ⟨bytes.toArray⟩ with
  | some text => .ok text
  | none => .error .notText

end Cohesion
