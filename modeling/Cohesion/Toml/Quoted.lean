/-!
Quoted texts in TOML: basic ones with escapes and literal ones without, each on one line or on
several. Scanning starts after the opening quotes and gives the content and what follows.
-/

namespace Cohesion.Toml

def isPrintable (character : Char) : Bool :=
  character = '\t' || (32 ≤ character.toNat && character.toNat ≠ 127)

def isBlank (character : Char) : Bool := character = ' ' || character = '\t'

def hexValue? (character : Char) : Option Nat :=
  if character.isDigit then some (character.toNat - '0'.toNat)
  else if 'a' ≤ character && character ≤ 'f' then some (character.toNat - 'a'.toNat + 10)
  else if 'A' ≤ character && character ≤ 'F' then some (character.toNat - 'A'.toNat + 10)
  else none

def hexCharacter? (row : List Char) : Option Char := do
  let value ← row.foldl (fun value digit => do
    some (16 * (← value) + (← hexValue? digit))) (some 0)
  if Nat.isValidChar value then some (Char.ofNat value) else none

def escape? : List Char → Option (Char × List Char)
  | [] => none
  | mark :: rest =>
      let hexadecimal (count : Nat) : Option (Char × List Char) :=
        if rest.length < count then none
        else (hexCharacter? (rest.take count)).map (·, rest.drop count)
      match mark with
      | 'b' => some ('\x08', rest)
      | 't' => some ('\t', rest)
      | 'n' => some ('\n', rest)
      | 'f' => some ('\x0c', rest)
      | 'r' => some ('\r', rest)
      | 'e' => some ('\x1b', rest)
      | '"' => some ('"', rest)
      | '\\' => some ('\\', rest)
      | 'x' => hexadecimal 2
      | 'u' => hexadecimal 4
      | 'U' => hexadecimal 8
      | _ => none

def newline? : List Char → Option (List Char)
  | '\n' :: rest => some rest
  | '\r' :: '\n' :: rest => some rest
  | _ => none

def skipMargin : List Char → List Char
  | '\n' :: rest => skipMargin rest
  | '\r' :: '\n' :: rest => skipMargin rest
  | character :: rest => if isBlank character then skipMargin rest else character :: rest
  | [] => []

/-- What follows a backslash at the end of a line: all blanks and line ends after it are skipped. -/
def continuation? (text : List Char) : Option (List Char) :=
  (newline? (text.dropWhile isBlank)).map skipMargin

/-- A basic text on one line. Each step takes at least one character, so the bound on the number
of steps is never reached when it is the length of the text. -/
def scanBasic (content : List Char) : Nat → List Char → Option (String × List Char)
  | 0, _ => none
  | _, [] => none
  | bound + 1, character :: rest =>
      if character = '"' then some (String.ofList content.reverse, rest)
      else if character = '\\' then
        match escape? rest with
        | some (escaped, after) => scanBasic (escaped :: content) bound after
        | none => none
      else if isPrintable character then scanBasic (character :: content) bound rest
      else none

def scanLiteral (text : List Char) : Option (String × List Char) :=
  let content := text.takeWhile fun character => character ≠ '\'' && isPrintable character
  match text.drop content.length with
  | '\'' :: rest => some (String.ofList content, rest)
  | _ => none

/-- The closing of a text on several lines. Up to two quotes before the last three belong to the
content. -/
def closing? (quote : Char) (text : List Char) : Option (List Char × List Char) :=
  let count := (text.takeWhile (· = quote)).length
  if count < 3 then none
  else some (List.replicate (min count 5 - 3) quote, text.drop (min count 5))

def scanLines (quote : Char) (escapes : Bool) (content : List Char) :
    Nat → List Char → Option (String × List Char)
  | 0, _ => none
  | _, [] => none
  | bound + 1, character :: rest =>
      match closing? quote (character :: rest) with
      | some (last, after) => some (String.ofList (content.reverse ++ last), after)
      | none =>
          if escapes && character = '\\' then
            match continuation? rest with
            | some after => scanLines quote escapes content bound after
            | none => match escape? rest with
                | some (escaped, after) => scanLines quote escapes (escaped :: content) bound after
                | none => none
          else if isPrintable character || character = '\n' then
            scanLines quote escapes (character :: content) bound rest
          else if character = '\r' && rest.head? = some '\n' then
            scanLines quote escapes (character :: content) bound rest
          else none

/-- A text on several lines; a line end right after the opening quotes is dropped. -/
def scanBlock (quote : Char) (text : List Char) : Option (String × List Char) :=
  let body := (newline? text).getD text
  scanLines quote (quote = '"') [] (body.length + 1) body

def quotedLine? : List Char → Option (String × List Char)
  | '"' :: rest => scanBasic [] (rest.length + 1) rest
  | '\'' :: rest => scanLiteral rest
  | _ => none

def quoted? : List Char → Option (String × List Char)
  | '"' :: '"' :: '"' :: rest => scanBlock '"' rest
  | '\'' :: '\'' :: '\'' :: rest => scanBlock '\'' rest
  | text => quotedLine? text

end Cohesion.Toml
