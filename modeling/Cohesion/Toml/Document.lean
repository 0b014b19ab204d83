import Cohesion.Toml.Quoted
import Cohesion.Toml.Scalar

/-!
TOML documents. A document is read line by line into tables: comments, keys with values, and
headers. Values may be nested eighty levels deep, and a key has eighty parts at most.
-/

namespace Cohesion.Toml

def skipComment? (text : List Char) : Option (List Char) :=
  match text with
  | '#' :: rest =>
      let after := rest.dropWhile isPrintable
      if after.isEmpty || (newline? after).isSome then some after else none
  | _ => some text

def endLine? (text : List Char) : Option (List Char) := do
  let after ← skipComment? (text.dropWhile isBlank)
  if after.isEmpty then some [] else newline? after

def skipLines : Nat → List Char → Option (List Char)
  | 0, text => some text
  | bound + 1, text =>
      let text := text.dropWhile isBlank
      match text with
      | '#' :: _ => (skipComment? text).bind (skipLines bound)
      | _ => match newline? text with
          | some rest => skipLines bound rest
          | none => some text

def skipSpace (text : List Char) : Option (List Char) := skipLines (text.length + 1) text

def isKeyPart (character : Char) : Bool :=
  character.isAlphanum || character = '_' || character = '-'

def keyPart? (text : List Char) : Option (String × List Char) :=
  let bare := text.takeWhile isKeyPart
  if bare.isEmpty then quotedLine? text
  else some (String.ofList bare, text.drop bare.length)

/-- The number of levels of arrays and inline tables, and of tables that a key leads through. -/
def depthLimit : Nat := 80

def keyParts? : Nat → List Char → Option (List String × List Char)
  | 0, _ => none
  | bound + 1, text => do
      let (part, rest) ← keyPart? (text.dropWhile isBlank)
      match rest.dropWhile isBlank with
      | '.' :: more =>
          let (parts, after) ← keyParts? bound more
          some (part :: parts, after)
      | after => some ([part], after)

/-- A key as the path to its table and the name there, with what follows it and its blanks. -/
def key? (text : List Char) : Option ((List String × String) × List Char) := do
  let (parts, rest) ← keyParts? depthLimit text
  let name ← parts.getLast?
  some ((parts.dropLast, name), rest)

section Nested

-- How a value inside another is read.
variable (inner : List Char → Option (Value × List Char))

def items? : Nat → List Char → Option (List Value × List Char)
  | 0, _ => none
  | bound + 1, text => do
      match ← skipSpace text with
      | ']' :: rest => some ([], rest)
      | start =>
          let (item, rest) ← inner start
          match ← skipSpace rest with
          | ',' :: more =>
              let (others, after) ← items? bound more
              some (item :: others, after)
          | ']' :: after => some ([item], after)
          | _ => none

/-- A key with its value, added to a table. What may stand around the equals sign is skipped as
the first argument says. -/
def pair? (skip : List Char → Option (List Char)) (table : Table) (text : List Char) :
    Option (Table × List Char) := do
  let ((path, name), rest) ← key? text
  let rest ← after? '=' (← skip rest)
  let (value, rest) ← inner (← skip rest)
  let table ← table.addKey path name value
  some (table, rest)

def members? : Nat → Table → List Char → Option (Table × List Char)
  | 0, _, _ => none
  | bound + 1, table, text => do
      match ← skipSpace text with
      | '\x7d' :: rest => some (table, rest)
      | start =>
          let (table, rest) ← pair? inner skipSpace table start
          match ← skipSpace rest with
          | ',' :: more => members? bound table more
          | '\x7d' :: after => some (table, after)
          | _ => none

end Nested

/-- A value at the start of a text, with what follows it. The first argument is one more than the
number of levels that may still open. -/
def value? : Nat → List Char → Option (Value × List Char)
  | 0, _ => none
  | depth + 1, text =>
      match text with
      | [] => none
      | first :: rest =>
          if first = '"' || first = '\'' then
            (quoted? text).map fun (content, after) => (.text content, after)
          else if (first = '[' || first = '\x7b') && depth = 0 then none
          else if first = '[' then
            (items? (value? depth) (rest.length + 1) rest).map fun (items, after) =>
              (.array false items, after)
          else if first = '\x7b' then
            (members? (value? depth) (rest.length + 1) (.empty .header) rest).map
              fun (table, after) => (.table ⟨false, false, true⟩ table.members, after)
          else
            let (scalar, after) := splitScalar false text
            (scalar? scalar).map (·, after)

def header? (text : List Char) : Option (Header × List Char) := do
  let isArray := text.head? = some '['
  let ((path, name), rest) ← key? (if isArray then text.drop 1 else text)
  let rest ← after? ']' rest
  let rest ← if isArray then after? ']' rest else some rest
  some (⟨path, name, isArray⟩, rest)

def line? (draft : Draft) (text : List Char) : Option (Draft × List Char) := do
  let text := text.dropWhile isBlank
  match text with
  | [] => some (draft, [])
  | '[' :: rest =>
      let (header, rest) ← header? rest
      let draft ← draft.open? header
      some (draft, ← endLine? rest)
  | first :: _ =>
      if first = '#' || (newline? text).isSome then some (draft, ← endLine? text)
      else
        let (current, rest) ←
          pair? (value? (depthLimit + 1)) (some <| ·.dropWhile isBlank) draft.current text
        some ({ draft with current }, ← endLine? rest)

def lines? : Nat → Draft → List Char → Option Draft
  | _, draft, [] => some draft
  | 0, _, _ :: _ => none
  | bound + 1, draft, text => do
      let (draft, rest) ← line? draft text
      lines? bound draft rest

/-- The table of a whole document; a byte order mark in front is skipped. -/
def parse? (document : String) : Option Table :=
  let text := match document.toList with
    | '\ufeff' :: rest => rest
    | text => text
  (lines? (text.length + 1) .start text).bind Draft.finish

end Cohesion.Toml
