import Cohesion.Json.Defect

/-!
Numbers in JSON text. The digits are gathered into a significand of at most sixty-four bits, later
digits only counting for the exponent, and the significand as a double is then multiplied or
divided by a power of ten. So a number may come out next to the nearest double.
-/

namespace Cohesion.Json

def isDigit (byte : UInt8) : Bool := '0'.toUInt8 ≤ byte && byte ≤ '9'.toUInt8

def digitValue (byte : UInt8) : Nat := byte.toNat - '0'.toNat

/-- Take digits into a significand while it fits into sixty-four bits, and count them. -/
def gather (significand taken : Nat) : List UInt8 → Nat × Nat
  | [] => (significand, taken)
  | digit :: rest =>
      let next := 10 * significand + digitValue digit
      if next < Nat.pow 2 64 then gather next (taken + 1) rest else (significand, taken)

def powerOfTen (exponent : Nat) : Float := Float.ofScientific 1 false exponent

/-- A double times a power of ten, in steps that doubles can express. Too large a product is
refused; too small a one becomes zero. -/
def scale? (value : Float) (exponent : Int) : Option Float :=
  if exponent < -308 then
    if value == 0.0 then some value else scale? (value / powerOfTen 308) (exponent + 308)
  else if exponent < 0 then some (value / powerOfTen exponent.natAbs)
  else if exponent ≤ 308 then
    let product := value * powerOfTen exponent.natAbs
    if product.isInf then none else some product
  else if value == 0.0 then some value
  else none
termination_by exponent.natAbs

def assemble (negative : Bool) (significand : Nat) (exponent : Int) : Except Defect Float :=
  match scale? (Float.ofNat significand) exponent with
  | some magnitude => .ok (if negative then -magnitude else magnitude)
  | none => .error .malformed

def exponentSign : List UInt8 → Bool × List UInt8
  | [] => (false, [])
  | byte :: rest =>
      if byte = '-'.toUInt8 then (true, rest)
      else if byte = '+'.toUInt8 then (false, rest)
      else (false, byte :: rest)

/-- The end of a number after its digits: an exponent if there is one. An exponent beyond
thirty-two bits makes zero or is refused. -/
def scanExponent (negative : Bool) (significand : Nat) (exponent : Int) (bytes : List UInt8) :
    Except Defect (Float × List UInt8) :=
  match bytes with
  | [] => (assemble negative significand exponent).map (·, [])
  | mark :: rest =>
      if mark = 'e'.toUInt8 ∨ mark = 'E'.toUInt8 then
        let (down, tail) := exponentSign rest
        let row := tail.takeWhile isDigit
        let after := tail.dropWhile isDigit
        let written := row.foldl (fun value digit => 10 * value + digitValue digit) 0
        if row.isEmpty then .error (.missing tail)
        else if written < Nat.pow 2 31 then
          (assemble negative significand (exponent + if down then -(written : Int) else written)).map
            (·, after)
        else if significand ≠ 0 ∧ !down then .error .malformed
        else .ok (if negative then -0.0 else 0.0, after)
      else (assemble negative significand exponent).map (·, mark :: rest)

def scanNumber (negative : Bool) (bytes : List UInt8) : Except Defect (Float × List UInt8) :=
  let whole := bytes.takeWhile isDigit
  let after := bytes.dropWhile isDigit
  let (significand, taken) := gather 0 0 whole
  let exponent : Int := whole.length - taken
  if whole.isEmpty then .error (.missing bytes)
  else if whole.head? = some '0'.toUInt8 ∧ 1 < whole.length then .error .malformed
  else
    match after with
    | [] => scanExponent negative significand exponent []
    | mark :: rest =>
        if mark = '.'.toUInt8 then
          let fraction := rest.takeWhile isDigit
          let tail := rest.dropWhile isDigit
          let (extended, places) := gather significand 0 fraction
          if fraction.isEmpty then .error (.missing rest)
          else scanExponent negative extended (exponent - places) tail
        else scanExponent negative significand exponent (mark :: rest)

theorem length_exponent_sign (bytes : List UInt8) :
    (exponentSign bytes).2.length ≤ bytes.length := by
  unfold exponentSign
  split
  · exact Nat.le_refl _
  · split
    · exact Nat.le_succ _
    · split
      · exact Nat.le_succ _
      · exact Nat.le_refl _

theorem length_scan_exponent {negative : Bool} {significand : Nat} {exponent : Int}
    {bytes : List UInt8} {value : Float} {rest : List UInt8}
    (scanned : scanExponent negative significand exponent bytes = .ok (value, rest)) :
    rest.length ≤ bytes.length := by
  have mapped : ∀ {outcome : Except Defect Float} {tail : List UInt8},
      outcome.map (·, tail) = .ok (value, rest) → rest = tail := by
    intro outcome tail equal
    cases outcome with
    | error defect => cases equal
    | ok found => cases equal; rfl
  unfold scanExponent at scanned
  split at scanned
  · exact Nat.le_of_eq (congrArg List.length (mapped scanned))
  · next mark tail =>
      split at scanned
      · have signBound := length_exponent_sign tail
        have rowBound := (List.dropWhile_sublist isDigit (l := (exponentSign tail).2)).length_le
        have total : ((exponentSign tail).2.dropWhile isDigit).length ≤ (mark :: tail).length := by
          simp only [List.length_cons]
          omega
        dsimp only at scanned
        split at scanned
        · cases scanned
        · split at scanned
          · rw [mapped scanned]
            exact total
          · split at scanned
            · cases scanned
            · cases scanned
              exact total
      · exact Nat.le_of_eq (congrArg List.length (mapped scanned))

theorem length_scan_number {negative : Bool} {bytes : List UInt8} {value : Float}
    {rest : List UInt8} (scanned : scanNumber negative bytes = .ok (value, rest)) :
    rest.length < bytes.length := by
  have parts := congrArg List.length (List.takeWhile_append_dropWhile (p := isDigit) (l := bytes))
  rw [List.length_append] at parts
  unfold scanNumber at scanned
  dsimp only at scanned
  split at scanned
  · cases scanned
  · next someDigit =>
      have digits : 0 < (bytes.takeWhile isDigit).length :=
        List.length_pos_iff.mpr fun none => someDigit (List.isEmpty_iff.mpr none)
      split at scanned
      · cases scanned
      · split at scanned
        · have bound := length_scan_exponent scanned
          simp only [List.length_nil] at bound
          omega
        · next mark tail more =>
            rw [more, List.length_cons] at parts
            split at scanned
            · split at scanned
              · cases scanned
              · have bound := length_scan_exponent scanned
                have fraction := (List.dropWhile_sublist isDigit (l := tail)).length_le
                omega
            · have bound := length_scan_exponent scanned
              rw [List.length_cons] at bound
              omega

end Cohesion.Json
