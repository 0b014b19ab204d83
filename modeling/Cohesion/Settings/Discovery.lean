import Cohesion.Files.Access
import Cohesion.Files.Path
import Cohesion.Journal
import Cohesion.Settings.Document

/-!
Finding the configuration. The directories from the working directory upwards are searched, at
most ten of them. A file that cannot be read or used is noted and the search goes on above it; if
no directory has a usable file, nothing is configured.
-/

namespace Cohesion

inductive SearchEvent where
  | loaded (path : String)
  | unreadable (path : String) (error : FileError)
  | unusable (path : String) (error : ConfigurationError)
  | exhausted (limit : Nat)

def SearchEvent.entry : SearchEvent → Entry
  | loaded path => ⟨.debug, "Loaded config path=" ++ path⟩
  | unreadable path error =>
      ⟨.warning, "Failed to read config file " ++ path ++ ": " ++ error.message⟩
  | unusable path error =>
      ⟨.warning, error.message ++ " (" ++ path ++ "). Using defaults."⟩
  | exhausted limit =>
      ⟨.debug, "No config found after checking " ++ toString limit ++
        " directories. Using default config."⟩

namespace Settings

def searchLimit : Nat := 10

/-- What a candidate file gives: settings or none, and what there is to note. A file that does not
exist is passed over in silence. -/
def ofCandidate (path : String) (content : Except FileError (List UInt8)) :
    Option Settings × List SearchEvent :=
  match content.bind textOf with
  | .error .notFound => (none, [])
  | .error error => (none, [.unreadable path error])
  | .ok text =>
      match Settings.parse text with
      | .ok settings => (some settings, [.loaded path])
      | .error error => (none, [.unusable path error])

variable {m : Type → Type} [Monad m]

def search (files : FileAccess m) : List String → m (Settings × List SearchEvent)
  | [] => pure (standard, [.exhausted searchLimit])
  | directory :: others => do
      let path := Path.join directory configurationFile
      match ofCandidate path (← files.read path) with
      | (some settings, events) => pure (settings, events)
      | (none, events) =>
          let (settings, more) ← search files others
          pure (settings, events ++ more)

def discover (files : FileAccess m) (directory : String) : m (Settings × List SearchEvent) :=
  search files (Path.ancestors searchLimit directory)

end Settings

end Cohesion
