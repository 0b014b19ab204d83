import Cohesion.Json.Number

/-!
The tokens of a JSON text. A token that is broken keeps its kind and what is wrong with it, and
ends the list: whoever does not expect that kind reports something else than who does.
-/

namespace Cohesion.Json

inductive Token where
  | openObject
  | closeObject
  | openArray
  | closeArray
  | comma
  | colon
  | text (outcome : Except Defect String)
  | number (outcome : Except Defect Float)
  | word (outcome : Except Defect Unit)
  | unknown

/-- Where a scan stands inside quotes: between characters, after a backslash, among the four
digits of a code unit, or before the second unit of a pair. -/
inductive QuotePlace where
  | between
  | escape
  | unit (high : Option Nat) (row : List UInt8)
  | pairSlash (high : Nat)
  | pairMark (high : Nat)

def isBlank (byte : UInt8) : Bool :=
  byte == ' '.toUInt8 || byte == '\t'.toUInt8 || byte == '\n'.toUInt8 || byte == '\r'.toUInt8

def hexValue? (byte : UInt8) : Option Nat :=
  if isDigit byte then some (digitValue byte)
  else if 'a'.toUInt8 ≤ byte && byte ≤ 'f'.toUInt8 then some (byte.toNat - 'a'.toNat + 10)
  else if 'A'.toUInt8 ≤ byte && byte ≤ 'F'.toUInt8 then some (byte.toNat - 'A'.toNat + 10)
  else none

def unitValue? (row : List UInt8) : Option Nat :=
  row.foldl (fun value byte => do some (16 * (← value) + (← hexValue? byte))) (some 0)

def shortEscape? (byte : UInt8) : Option Char :=
  if byte = '"'.toUInt8 then some '"'
  else if byte = '\\'.toUInt8 then some '\\'
  else if byte = '/'.toUInt8 then some '/'
  else if byte = 'b'.toUInt8 then some '\x08'
  else if byte = 'f'.toUInt8 then some '\x0c'
  else if byte = 'n'.toUInt8 then some '\n'
  else if byte = 'r'.toUInt8 then some '\r'
  else if byte = 't'.toUInt8 then some '\t'
  else none

def unitMeaning (high : Option Nat) (unit : Nat) : Except Defect (Char ⊕ Nat) :=
  let isHigh := 0xD800 ≤ unit ∧ unit ≤ 0xDBFF
  let isLow := 0xDC00 ≤ unit ∧ unit ≤ 0xDFFF
  match high with
  | none =>
      if isLow then .error .malformed
      else if isHigh then .ok (.inr unit)
      else .ok (.inl (Char.ofNat unit))
  | some first =>
      if isLow then .ok (.inl (Char.ofNat (0x10000 + (first - 0xD800) * 0x400 + (unit - 0xDC00))))
      else .error .malformed

/-- Scan up to the closing quote. The bytes of the content are gathered last byte first. -/
def scanQuoted (place : QuotePlace) (content : List UInt8) :
    List UInt8 → Except Defect (String × List UInt8)
  | [] => .error .ended
  | byte :: rest =>
      match place with
      | .between =>
          if byte = '"'.toUInt8 then
            match String.fromUTF8? ⟨content.reverse.toArray⟩ with
            | some text => .ok (text, rest)
            | none => .error .malformed
          else if byte = '\\'.toUInt8 then scanQuoted .escape content rest
          else if byte < 32 then .error .malformed
          else scanQuoted .between (byte :: content) rest
      | .escape =>
          if byte = 'u'.toUInt8 then scanQuoted (.unit none []) content rest
          else match shortEscape? byte with
            | some character =>
                scanQuoted .between ((String.utf8EncodeChar character).reverse ++ content) rest
            | none => .error .malformed
      | .unit high row =>
          if row.length < 3 then scanQuoted (.unit high (row ++ [byte])) content rest
          else match unitValue? (row ++ [byte]) with
            | none => .error .malformed
            | some unit =>
                match unitMeaning high unit with
                | .error defect => .error defect
                | .ok (.inl character) =>
                    scanQuoted .between ((String.utf8EncodeChar character).reverse ++ content) rest
                | .ok (.inr first) => scanQuoted (.pairSlash first) content rest
      | .pairSlash high =>
          if byte = '\\'.toUInt8 then scanQuoted (.pairMark high) content rest
          else .error .malformed
      | .pairMark high =>
          if byte = 'u'.toUInt8 then scanQuoted (.unit (some high) []) content rest
          else .error .malformed

def scanWord : List Char → List UInt8 → Except Defect (List UInt8)
  | [], bytes => .ok bytes
  | _ :: _, [] => .error .ended
  | character :: word, byte :: rest =>
      if byte = character.toUInt8 then scanWord word rest else .error .malformed

def mark? (byte : UInt8) : Option Token :=
  if byte = '\x7b'.toUInt8 then some .openObject
  else if byte = '\x7d'.toUInt8 then some .closeObject
  else if byte = '['.toUInt8 then some .openArray
  else if byte = ']'.toUInt8 then some .closeArray
  else if byte = ','.toUInt8 then some .comma
  else if byte = ':'.toUInt8 then some .colon
  else none

def wordTail? (byte : UInt8) : Option (List Char) :=
  if byte = 'n'.toUInt8 then some ['u', 'l', 'l']
  else if byte = 't'.toUInt8 then some ['r', 'u', 'e']
  else if byte = 'f'.toUInt8 then some ['a', 'l', 's', 'e']
  else none

def tokenOf {Value : Type} (make : Except Defect Value → Token) :
    Except Defect (Value × List UInt8) → Token × Option (List UInt8)
  | .ok (value, rest) => (make (.ok value), some rest)
  | .error defect => (make (.error defect), none)

def scanToken (byte : UInt8) (rest : List UInt8) : Token × Option (List UInt8) :=
  match mark? byte with
  | some mark => (mark, some rest)
  | none =>
      if byte = '"'.toUInt8 then tokenOf .text (scanQuoted .between [] rest)
      else if byte = '-'.toUInt8 then tokenOf .number (scanNumber true rest)
      else if isDigit byte then tokenOf .number (scanNumber false (byte :: rest))
      else match wordTail? byte with
        | some letters => tokenOf .word ((scanWord letters rest).map ((), ·))
        | none => (.unknown, none)

theorem length_scan_quoted {place : QuotePlace} {content bytes : List UInt8} {text : String}
    {rest : List UInt8} (scanned : scanQuoted place content bytes = .ok (text, rest)) :
    rest.length < bytes.length := by
  induction bytes generalizing place content with
  | nil => cases scanned
  | cons byte tail induction =>
      have step : ∀ {nextPlace : QuotePlace} {nextContent : List UInt8},
          scanQuoted nextPlace nextContent tail = .ok (text, rest) →
            rest.length < (byte :: tail).length := fun next =>
        Nat.lt_succ_of_lt (induction next)
      unfold scanQuoted at scanned
      repeat' split at scanned
      all_goals first
        | exact step scanned
        | (cases scanned; exact Nat.lt_succ_self _)
        | cases scanned

theorem length_scan_word {word : List Char} {bytes rest : List UInt8}
    (scanned : scanWord word bytes = .ok rest) : rest.length ≤ bytes.length := by
  induction word generalizing bytes with
  | nil => cases scanned; exact Nat.le_refl _
  | cons letter word induction =>
      cases bytes with
      | nil => cases scanned
      | cons byte tail =>
          unfold scanWord at scanned
          split at scanned
          · exact Nat.le_succ_of_le (induction scanned)
          · cases scanned

theorem token_of_rest {Value : Type} {make : Except Defect Value → Token}
    {outcome : Except Defect (Value × List UInt8)} {token : Token} {after : List UInt8}
    (scanned : tokenOf make outcome = (token, some after)) :
    ∃ value, outcome = .ok (value, after) := by
  cases outcome with
  | error defect => cases scanned
  | ok pair => cases scanned; exact ⟨pair.1, rfl⟩

theorem length_scan_token {byte : UInt8} {rest after : List UInt8} {token : Token}
    (scanned : scanToken byte rest = (token, some after)) : after.length ≤ rest.length := by
  unfold scanToken at scanned
  split at scanned
  · cases scanned; exact Nat.le_refl _
  · split at scanned
    · obtain ⟨text, quoted⟩ := token_of_rest scanned
      exact Nat.le_of_lt (length_scan_quoted quoted)
    · split at scanned
      · obtain ⟨value, number⟩ := token_of_rest scanned
        exact Nat.le_of_lt (length_scan_number number)
      · split at scanned
        · obtain ⟨value, number⟩ := token_of_rest scanned
          exact Nat.le_of_lt_succ (length_scan_number number)
        · split at scanned
          · next letters _ =>
              obtain ⟨_, word⟩ := token_of_rest scanned
              cases outcome : scanWord letters rest with
              | error defect => rw [outcome] at word; cases word
              | ok tail =>
                  rw [outcome] at word
                  cases word
                  exact length_scan_word outcome
          · cases scanned

/-- The tokens of a text, up to and including the first one that is broken. Each step takes at
least one byte. -/
def tokenSteps : Nat → List UInt8 → List Token
  | 0, _ => []
  | _, [] => []
  | steps + 1, byte :: rest =>
      if isBlank byte then tokenSteps steps rest
      else match scanToken byte rest with
        | (token, some after) => token :: tokenSteps steps after
        | (token, none) => [token]

/-- Steps beyond the length of the text change nothing. -/
theorem token_steps_eq {steps more : Nat} {bytes : List UInt8} (enough : bytes.length ≤ steps)
    (alsoEnough : bytes.length ≤ more) : tokenSteps steps bytes = tokenSteps more bytes := by
  induction steps generalizing more bytes with
  | zero =>
      cases List.length_eq_zero_iff.mp (Nat.le_zero.mp enough)
      cases more <;> rfl
  | succ steps induction =>
      cases bytes with
      | nil => cases more <;> rfl
      | cons byte rest =>
          rw [List.length_cons] at enough alsoEnough
          cases more with
          | zero => omega
          | succ more =>
              simp only [tokenSteps]
              split
              · exact induction (by omega) (by omega)
              · split
                · next scanned =>
                    have shorter := length_scan_token scanned
                    exact congrArg _ (induction (by omega) (by omega))
                · rfl

def tokens (bytes : List UInt8) : List Token := tokenSteps bytes.length bytes

@[simp] theorem tokens_nil : tokens [] = [] := rfl

theorem tokens_cons (byte : UInt8) (rest : List UInt8) :
    tokens (byte :: rest) =
      if isBlank byte then tokens rest
      else match scanToken byte rest with
        | (token, some after) => token :: tokens after
        | (token, none) => [token] := by
  simp only [tokens, List.length_cons, tokenSteps]
  split
  · rfl
  · split
    · next scanned =>
        exact congrArg _ (token_steps_eq (length_scan_token scanned) (Nat.le_refl _))
    · rfl

end Cohesion.Json
