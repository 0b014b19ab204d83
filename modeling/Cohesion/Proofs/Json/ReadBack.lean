import Cohesion.Proofs.Decimal.Layout
import Cohesion.Proofs.Json.Numbers
import Cohesion.Proofs.Weight.Tens

/-!
# What comes back of a number

The significand and the power of ten of a text are rounded on their own before they are multiplied or
divided, so a number may come back as a double next to the one that was written. Each rounding adds to
the distance by a small part of the number, and it all stays within a few of the last places.
-/

namespace Cohesion

open Float.Model Float.Model.UnpackedFloat
open Json Decimal

section Errors

/-- The number is off the exact one by not more than a part of it and some of the least roundings. -/
def Off (part steps exactly number : ℚ) : Prop :=
  |number - exactly| ≤ part * exactly + steps * 2 ^ (-1075 : Int)

variable {part steps otherPart otherSteps exactly number : ℚ}

theorem Off.mono (off : Off part steps exactly number) (nonnegative : 0 ≤ exactly)
    (wider : part ≤ otherPart) (more : steps ≤ otherSteps) :
    Off otherPart otherSteps exactly number := by
  have least := two_zpow_pos (-1075)
  exact off.trans (add_le_add (mul_le_mul_of_nonneg_right wider nonnegative)
    (mul_le_mul_of_nonneg_right more least.le))

theorem Off.trans {middle : ℚ} (off : Off part steps exactly middle)
    (further : Off otherPart otherSteps middle number) (nonnegative : 0 ≤ otherPart) :
    Off (part + otherPart + otherPart * part) (steps + otherSteps + otherPart * steps) exactly
      number := by
  rw [Off] at off further ⊢
  have most := mul_le_mul_of_nonneg_left (abs_le.mp off).2 nonnegative
  have both := abs_add_le (number - middle) (middle - exactly)
  rw [sub_add_sub_cancel] at both
  linarith

theorem Off.mul {left right first second : ℚ} (isLeft : Off part 0 first left)
    (isRight : Off otherPart 0 second right) (firstNonnegative : 0 ≤ first)
    (secondNonnegative : 0 ≤ second) (partNonnegative : 0 ≤ part) :
    Off (part + otherPart + part * otherPart) 0 (first * second) (left * right) := by
  rw [Off, zero_mul, add_zero] at isLeft isRight ⊢
  have reach : |right| ≤ second + otherPart * second := by
    have both := abs_add_le (right - second) second
    rw [sub_add_cancel, abs_of_nonneg secondNonnegative] at both
    linarith
  calc |left * right - first * second|
      = |(left - first) * right + first * (right - second)| := by
        congr 1
        ring
    _ ≤ |left - first| * |right| + first * |right - second| := by
        have both := abs_add_le ((left - first) * right) (first * (right - second))
        rwa [abs_mul, abs_mul, abs_of_nonneg firstNonnegative] at both
    _ ≤ part * first * (second + otherPart * second) + first * (otherPart * second) :=
        add_le_add
          (mul_le_mul isLeft reach (abs_nonneg right) (mul_nonneg partNonnegative firstNonnegative))
          (mul_le_mul_of_nonneg_left isRight firstNonnegative)
    _ = (part + otherPart + part * otherPart) * (first * second) := by ring

/-- Division by a number of at least one makes no distance greater but for the part by which the
divisor is off. -/
theorem Off.div {power ten : ℚ} (off : Off part steps exactly number)
    (isTen : Off otherPart 0 power ten) (large : 1 ≤ power) (small : otherPart < 1)
    (nonnegative : 0 ≤ exactly) (stepsNonnegative : 0 ≤ steps) :
    Off ((part + otherPart) / (1 - otherPart)) (steps / (1 - otherPart)) (exactly / power)
      (number / ten) := by
  rw [Off, zero_mul, add_zero] at isTen
  rw [Off] at off ⊢
  have least := two_zpow_pos (-1075)
  have powerPositive : 0 < power := one_pos.trans_le large
  have spare : 0 < 1 - otherPart := sub_pos.mpr small
  have reach : power * (1 - otherPart) ≤ ten := by linarith [(abs_le.mp isTen).1]
  have reachPositive := mul_pos powerPositive spare
  have tenPositive : 0 < ten := reachPositive.trans_le reach
  have crossed : |number * power - exactly * ten| ≤
      ((part + otherPart) * exactly + steps * 2 ^ (-1075 : Int)) * power := by
    calc |number * power - exactly * ten|
        = |(number - exactly) * power - exactly * (ten - power)| := by
          congr 1
          ring
      _ ≤ |number - exactly| * power + exactly * |ten - power| := by
          have both := abs_sub ((number - exactly) * power) (exactly * (ten - power))
          rwa [abs_mul, abs_mul, abs_of_pos powerPositive, abs_of_nonneg nonnegative] at both
      _ ≤ (part * exactly + steps * 2 ^ (-1075 : Int)) * power + exactly * (otherPart * power) :=
          add_le_add (mul_le_mul_of_nonneg_right off powerPositive.le)
            (mul_le_mul_of_nonneg_left isTen nonnegative)
      _ = ((part + otherPart) * exactly + steps * 2 ^ (-1075 : Int)) * power := by ring
  have crossedNonnegative := (abs_nonneg _).trans crossed
  rw [div_sub_div _ _ tenPositive.ne' powerPositive.ne', abs_div,
    abs_of_pos (mul_pos tenPositive powerPositive), mul_comm ten exactly]
  calc |number * power - exactly * ten| / (ten * power)
      ≤ ((part + otherPart) * exactly + steps * 2 ^ (-1075 : Int)) * power / (ten * power) :=
        div_le_div_of_nonneg_right crossed (mul_pos tenPositive powerPositive).le
    _ ≤ ((part + otherPart) * exactly + steps * 2 ^ (-1075 : Int)) * power /
          (power * (1 - otherPart) * power) :=
        div_le_div_of_nonneg_left crossedNonnegative (mul_pos reachPositive powerPositive)
          (mul_le_mul_of_nonneg_right reach powerPositive.le)
    _ = (part + otherPart) / (1 - otherPart) * (exactly / power) +
          steps / (1 - otherPart) * 2 ^ (-1075 : Int) / power := by
        field_simp
    _ ≤ (part + otherPart) / (1 - otherPart) * (exactly / power) +
          steps / (1 - otherPart) * 2 ^ (-1075 : Int) := by
        have rest : 0 ≤ steps / (1 - otherPart) * 2 ^ (-1075 : Int) :=
          mul_nonneg (div_nonneg stepsNonnegative spare.le) least.le
        exact add_le_add le_rfl (div_le_self rest large)

theorem least_step_le_one : (2 : ℚ) ^ (-1075 : Int) ≤ 1 := by
  calc (2 : ℚ) ^ (-1075 : Int) ≤ 2 ^ (0 : Int) := zpow_le_zpow_right₀ one_le_two (by decide)
    _ = 1 := zpow_zero 2

theorem Off.lt_of_count (off : Off 1 2 exactly number) (few : exactly < 2 ^ 64) :
    number < 2 ^ (1024 : Int) := by
  have upper := (abs_le.mp off).2
  have least := least_step_le_one
  calc number ≤ 2 * exactly + 2 := by linarith
    _ ≤ 2 ^ 66 := by linarith
    _ = 2 ^ (66 : Int) := by norm_num
    _ < 2 ^ (1024 : Int) := zpow_lt_zpow_right₀ one_lt_two (by decide)

end Errors

section Scaling

/-- A significand times a power of ten, each rounded on its own first. Powers below the least one are
taken in two steps. -/
def timesTen (significand : Nat) (power : Int) : Float :=
  if power < -308 then
    Float.ofNat significand / powerOfTen 308 / powerOfTen (power + 308).natAbs
  else if power < 0 then Float.ofNat significand / powerOfTen power.natAbs
  else Float.ofNat significand * powerOfTen power.natAbs

theorem unpack_mul (first second : Float) : (first * second).toModel.unpack =
    UnpackedFloat.unpack Format.binary64 (UnpackedFloat.pack Format.binary64
      (UnpackedFloat.mul Format.binary64 first.toModel.unpack second.toModel.unpack)) := rfl

theorem unpack_div (first second : Float) : (first / second).toModel.unpack =
    UnpackedFloat.unpack Format.binary64 (UnpackedFloat.pack Format.binary64
      (UnpackedFloat.div Format.binary64 first.toModel.unpack second.toModel.unpack)) := rfl

theorem Nearly.off {value : UnpackedFloat} {number : ℚ} (nearly : Nearly value number) :
    ∃ rounded, StandsFor value rounded ∧ Off (1 / 2 ^ 53) 0 number rounded := by
  obtain ⟨rounded, stands, near⟩ := nearly
  refine ⟨rounded, stands, ?_⟩
  rw [Off]
  linarith

theorem RoundsNearest.off {value : UnpackedFloat} {number : ℚ} (rounds : RoundsNearest number value)
    (nonnegative : 0 ≤ number) :
    ∃ rounded, Represents value rounded ∧ Off (1 / 2 ^ 53) 1 number rounded := by
  obtain ⟨rounded, represents, near⟩ := rounds.near nonnegative
  refine ⟨rounded, represents, ?_⟩
  rw [Off]
  linarith

structure ScaledFrom (significand : Nat) (power : Int) (value : UnpackedFloat) (middle : ℚ) :
    Prop where
  packed : (timesTen significand power).toModel.unpack =
    UnpackedFloat.unpack Format.binary64 (UnpackedFloat.pack Format.binary64 value)
  rounds : RoundsNearest middle value
  nonnegative : 0 ≤ middle
  off : Off (9 / 2 ^ 54) (3 / 2) (significand * 10 ^ power) middle
  exactly : Short significand → power.natAbs ≤ 22 → middle = significand * 10 ^ power

variable {significand : Nat} {power : Int}

theorem factors_stand (positive : 0 < significand) (bounded : significand < 2 ^ 64) {places : Nat}
    (few : places ≤ 308) : ∃ whole ten,
      StandsFor (Float.ofNat significand).toModel.unpack whole ∧ 1 / 2 ≤ whole ∧
      StandsFor (powerOfTen places).toModel.unpack ten ∧
      Off (1 / 2 ^ 53) 0 significand whole ∧ Off (1 / 2 ^ 53) 0 (10 ^ places) ten ∧
      (Short significand → whole = significand) ∧ (places ≤ 22 → ten = 10 ^ places) := by
  obtain ⟨whole, wholeStands, wholeOff⟩ := (count_nearly positive bounded).off
  obtain ⟨ten, tenStands, tenOff⟩ := (ten_nearly few).off
  have least : 1 / 2 ≤ whole := by
    have one : (1 : ℚ) ≤ significand := by exact_mod_cast positive
    have near := wholeOff
    rw [Off, zero_mul, add_zero] at near
    linarith [(abs_le.mp near).1]
  exact ⟨whole, ten, wholeStands, least, tenStands, wholeOff, tenOff,
    fun short => wholeStands.unique ((rounds_of_count positive bounded).exactly short),
    fun exactly => tenStands.unique (ten_stands exactly)⟩

theorem product_scaled (positive : 0 < significand) (bounded : significand < 2 ^ 64)
    (above : 0 ≤ power) (few : power ≤ 308) :
    ∃ value middle, ScaledFrom significand power value middle := by
  obtain ⟨places, rfl⟩ := Int.eq_ofNat_of_zero_le above
  obtain ⟨whole, ten, wholeStands, least, tenStands, wholeOff, tenOff, wholeExactly, tenExactly⟩ :=
    factors_stand positive bounded (show places ≤ 308 by omega)
  refine ⟨_, whole * ten, ?_, mul_nearest wholeStands tenStands,
    (mul_pos wholeStands.pos tenStands.pos).le, ?_, ?_⟩
  · rw [timesTen, if_neg (by omega), if_neg (by omega), unpack_mul, Int.natAbs_natCast]
  · rw [zpow_natCast]
    have product := wholeOff.mul tenOff (Nat.cast_nonneg _) (by positivity) (by norm_num)
    exact product.mono (by positivity) (by norm_num) (by norm_num)
  · intro short fewer
    rw [wholeExactly short, tenExactly fewer, zpow_natCast]

theorem quotient_scaled (positive : 0 < significand) (bounded : significand < 2 ^ 64)
    (below : power < 0) (few : -308 ≤ power) :
    ∃ value middle, ScaledFrom significand power value middle := by
  obtain ⟨places, rfl⟩ : ∃ places : Nat, power = -(places : Int) := ⟨power.natAbs, by omega⟩
  obtain ⟨whole, ten, wholeStands, least, tenStands, wholeOff, tenOff, wholeExactly, tenExactly⟩ :=
    factors_stand positive bounded (show places ≤ 308 by omega)
  have number : (significand : ℚ) * 10 ^ (-(places : Int)) = significand / 10 ^ places := by
    rw [zpow_neg, zpow_natCast, div_eq_mul_inv]
  refine ⟨_, whole / ten, ?_,
    div_nearest (wholeStands.represents (half_normal.trans least)) tenStands,
    (div_pos wholeStands.pos tenStands.pos).le, ?_, ?_⟩
  · rw [timesTen, if_neg (by omega), if_pos below, unpack_div, Int.natAbs_neg, Int.natAbs_natCast]
  · rw [number]
    have quotient := wholeOff.div tenOff (one_le_pow₀ (by norm_num)) (by norm_num)
      (Nat.cast_nonneg _) le_rfl
    exact quotient.mono (by positivity) (by norm_num) (by norm_num)
  · intro short fewer
    rw [number, wholeExactly short, tenExactly (by omega)]

/-- The first step of two leads to a number that is far below the greatest one. -/
theorem quotient_twice_scaled (positive : 0 < significand) (bounded : significand < 2 ^ 64)
    (below : power < -308) (few : -616 ≤ power) :
    ∃ value middle, ScaledFrom significand power value middle := by
  obtain ⟨places, rfl⟩ : ∃ places : Nat, power = -308 - (places : Int) :=
    ⟨(power + 308).natAbs, by omega⟩
  obtain ⟨whole, ten, wholeStands, least, tenStands, wholeOff, tenOff, _, _⟩ :=
    factors_stand positive bounded (show 308 ≤ 308 by decide)
  obtain ⟨_, rest, _, _, restStands, _, restOff, _, _⟩ :=
    factors_stand positive bounded (show places ≤ 308 by omega)
  have number : (significand : ℚ) * 10 ^ (-308 - (places : Int)) =
      significand / 10 ^ 308 / 10 ^ places := by
    rw [sub_eq_add_neg, zpow_add₀ (by norm_num), zpow_neg, zpow_neg, zpow_natCast, ← zpow_natCast,
      div_eq_mul_inv, div_eq_mul_inv, mul_assoc]
    rfl
  have firstNonnegative : (0 : ℚ) ≤ significand / 10 ^ 308 := by positivity
  have firstQuotient := wholeOff.div tenOff (one_le_pow₀ (by norm_num)) (by norm_num)
    (Nat.cast_nonneg _) le_rfl
  have rounds := div_nearest (wholeStands.represents (half_normal.trans least)) tenStands
  obtain ⟨first, represents, firstOff⟩ := rounds.off (div_nonneg wholeStands.pos.le tenStands.pos.le)
  have off := firstQuotient.trans firstOff (by norm_num)
  have small : first < 2 ^ (1024 : Int) := by
    have wide : Off 1 2 (significand / 10 ^ 308) first :=
      off.mono firstNonnegative (by norm_num) (by norm_num)
    exact wide.lt_of_count ((div_le_self (Nat.cast_nonneg _) (one_le_pow₀ (by norm_num))).trans_lt
      (by exact_mod_cast bounded))
  refine ⟨_, first / rest, ?_, div_nearest represents restStands,
    div_nonneg represents.nonneg restStands.pos.le, ?_, ?_⟩
  · rw [timesTen, if_pos below, unpack_div, unpack_div, represents.unpack_pack small]
    congr
    omega
  · rw [number]
    have quotient := off.div restOff (one_le_pow₀ (by norm_num)) (by norm_num) firstNonnegative
      (by norm_num)
    exact quotient.mono (by positivity) (by norm_num) (by norm_num)
  · intro _ fewer
    omega

theorem times_ten_scaled (positive : 0 < significand) (bounded : significand < 2 ^ 64)
    (least : -616 ≤ power) (greatest : power ≤ 308) :
    ∃ value middle, ScaledFrom significand power value middle := by
  rcases Int.lt_or_le power (-308) with far | near
  · exact quotient_twice_scaled positive bounded far least
  · rcases Int.lt_or_le power 0 with below | above
    · exact quotient_scaled positive bounded below near
    · exact product_scaled positive bounded above greatest

theorem not_zero_of_stands {value : Float} {number : ℚ}
    (stands : StandsFor value.toModel.unpack number) : (value == 0.0) = false := by
  obtain ⟨_, _, _, same, _⟩ := stands
  have zero : (0.0 : Float).toModel.unpack = .zero .positive := rfl
  change UnpackedFloat.beq value.toModel.unpack (0.0 : Float).toModel.unpack = false
  rw [same, zero]
  rfl

/-- A significand that does not lead beyond the greatest double is scaled in the steps that were
described. -/
theorem scale_eq (positive : 0 < significand) (bounded : significand < 2 ^ 64)
    (least : -616 ≤ power) (greatest : power ≤ 308)
    (finite : (timesTen significand power).isInf = false) :
    scale? (Float.ofNat significand) power = some (timesTen significand power) := by
  obtain ⟨_, stands, _⟩ := count_nearly positive bounded
  rcases Int.lt_or_le power (-308) with far | near
  · rw [scale?, if_pos far, not_zero_of_stands stands, if_neg Bool.false_ne_true, scale?,
      if_neg (by omega), if_pos (by omega), timesTen, if_pos far]
  · have notFar : ¬power < -308 := not_lt.mpr near
    rcases Int.lt_or_le power 0 with below | above
    · rw [scale?, if_neg notFar, if_pos below, timesTen, if_neg notFar, if_pos below]
    · have notBelow : ¬power < 0 := not_lt.mpr above
      rw [timesTen, if_neg notFar, if_neg notBelow] at finite ⊢
      rw [scale?, if_neg notFar, if_neg notBelow, if_pos greatest]
      dsimp only
      rw [finite, if_neg Bool.false_ne_true]

end Scaling

section Shortest

variable {mantissa : Nat} {exponent : Int}

def writtenFor (mantissa : Nat) (exponent : Int) : Nat × Int :=
  (shortest .toEven mantissa exponent).written

theorem written_for_zero : writtenFor 0 exponent = (0, -1) := by
  rw [writtenFor, shortest, if_pos rfl]
  decide

structure Digits (mantissa : Nat) (exponent : Int) (numeral : Numeral) : Prop where
  around : Around mantissa exponent numeral.number
  positive : 0 < numeral.coefficient
  few : numeral.coefficient ≤ 10 ^ 17
  least : -324 ≤ numeral.leading
  greatest : numeral.leading ≤ 308

theorem shortest_digits (positive : 0 < mantissa) (canonical : Canonical mantissa exponent)
    (finite : exponent ≤ 971) : Digits mantissa exponent (shortest .toEven mantissa exponent) := by
  obtain ⟨around, few⟩ := shortest_around .toEven positive canonical
  have some_digit : 0 < (shortest .toEven mantissa exponent).coefficient := by
    rw [Nat.pos_iff_ne_zero]
    intro none
    have least := (two_zpow_pos (-1075)).trans_le (around.least positive canonical)
    rw [Numeral.number, none, Nat.cast_zero, zero_mul] at least
    exact lt_irrefl 0 least
  obtain ⟨least, greatest⟩ := leading_range some_digit positive canonical finite around
  exact ⟨around, some_digit, few, least, greatest⟩

theorem Digits.written_bounds {numeral : Numeral} (found : Digits mantissa exponent numeral) :
    0 < numeral.written.1 ∧ numeral.written.1 < 2 ^ 64 ∧ -616 ≤ numeral.written.2 ∧
      numeral.written.2 ≤ 308 := by
  have few := (written_le found.few).trans_lt (show 10 ^ 17 < 2 ^ 64 by decide)
  have some_digit := RoundingInterval.length_digits_pos numeral.coefficient
  have length : (digits numeral.coefficient).length ≤ 18 :=
    (Nat.length_toDigits_le_iff (by decide) (by decide)).mpr (found.few.trans_lt (by decide))
  have least := found.least
  have greatest := found.greatest
  rw [Numeral.leading] at least greatest
  refine ⟨?_, few, ?_⟩
  · rw [Numeral.written]
    split
    · exact Nat.mul_pos found.positive (Nat.pow_pos (by decide))
    · exact found.positive
  · rw [Numeral.written]
    split
    · dsimp only
      omega
    · dsimp only
      omega

structure Recovers (mantissa : Nat) (exponent : Int) (significand : Nat) (power : Int)
    (value : UnpackedFloat) (rounded : ℚ) : Prop where
  packed : (timesTen significand power).toModel.unpack =
    UnpackedFloat.unpack Format.binary64 (UnpackedFloat.pack Format.binary64 value)
  represents : Represents value rounded
  off : Off (1 / 2 ^ 50) 4 (mantissa * 2 ^ exponent) rounded
  exactly : Short significand → power.natAbs ≤ 22 → value = valueOf .positive mantissa exponent

theorem Digits.recovers {numeral : Numeral} (found : Digits mantissa exponent numeral)
    (canonical : Canonical mantissa exponent) :
    ∃ value rounded, Recovers mantissa exponent numeral.written.1 numeral.written.2 value rounded := by
  obtain ⟨positive, bounded, least, greatest⟩ := found.written_bounds
  obtain ⟨value, middle, scaled⟩ := times_ten_scaled positive bounded least greatest
  have off := scaled.off
  rw [written_number] at off
  have nonnegative : (0 : ℚ) ≤ mantissa * 2 ^ exponent :=
    mul_nonneg (Nat.cast_nonneg _) (two_zpow_pos _).le
  have start : Off (1 / 2 ^ 53) 1 (mantissa * 2 ^ exponent) numeral.number := by
    have near := found.around.near canonical
    rw [Off]
    linarith
  obtain ⟨rounded, represents, last⟩ := scaled.rounds.off scaled.nonnegative
  refine ⟨value, rounded, scaled.packed, represents, ?_, fun short few => ?_⟩
  · have whole := (start.trans off (by norm_num)).trans last (by norm_num)
    exact whole.mono nonnegative (by norm_num) (by norm_num)
  · have same := scaled.exactly short few
    rw [written_number] at same
    exact (same ▸ scaled.rounds).eq_of_around found.around canonical

theorem greatest_doubles : ∀ rest < 8, (timesTen (writtenFor (2 ^ 53 - 1 - rest) 971).1
    (writtenFor (2 ^ 53 - 1 - rest) 971).2).isInf = false := by
  decide +kernel

/-- With a little room below the greatest double, what is close to a double is no greater. -/
theorem Off.lt_of_room {number : ℚ} (off : Off (1 / 2 ^ 50) 4 (mantissa * 2 ^ exponent) number)
    (room : (mantissa : ℚ) * 2 ^ exponent ≤ (2 ^ 53 - 9) * 2 ^ (971 : Int)) :
    number < 2 ^ (1024 : Int) := by
  have upper := (abs_le.mp off).2
  have least := least_step_le_one
  have place : (8 : ℚ) ≤ 2 ^ (971 : Int) := by
    calc (8 : ℚ) = 2 ^ (3 : Int) := by norm_num
      _ ≤ 2 ^ (971 : Int) := zpow_le_zpow_right₀ one_le_two (by decide)
  have scale : (2 : ℚ) ^ (1024 : Int) = 2 ^ 53 * 2 ^ (971 : Int) := (two_pow_mul_zpow 53 971).symm
  rw [scale]
  generalize (2 : ℚ) ^ (971 : Int) = place at room place ⊢
  generalize (2 : ℚ) ^ (-1075 : Int) = step at upper least
  linarith

theorem room_of_lower (canonical : Canonical mantissa exponent) (finite : exponent ≤ 971)
    (lower : exponent ≤ 970 ∨ mantissa ≤ 2 ^ 53 - 9) :
    (mantissa : ℚ) * 2 ^ exponent ≤ (2 ^ 53 - 9) * 2 ^ (971 : Int) := by
  have place := two_zpow_pos exponent
  rcases lower with low | small
  · have scale : (2 : ℚ) ^ (971 : Int) = 2 * 2 ^ (970 : Int) := (zpow_one_add₀ two_ne_zero 970)
    have fits : (mantissa : ℚ) ≤ 2 ^ 53 := by exact_mod_cast canonical.fits.le
    calc (mantissa : ℚ) * 2 ^ exponent ≤ 2 ^ 53 * 2 ^ (970 : Int) :=
          mul_le_mul fits (zpow_le_zpow_right₀ one_le_two low) place.le (by norm_num)
      _ ≤ (2 ^ 53 - 9) * 2 ^ (971 : Int) := by
          rw [scale]
          have unit := two_zpow_pos 970
          generalize (2 : ℚ) ^ (970 : Int) = unit at unit ⊢
          linarith
  · have fits : (mantissa : ℚ) ≤ 2 ^ 53 - 9 := by
      have cast : (mantissa : ℚ) ≤ ((2 ^ 53 - 9 : Nat) : ℚ) := by exact_mod_cast small
      rwa [Nat.cast_sub (by decide), Nat.cast_pow, Nat.cast_ofNat] at cast
    exact mul_le_mul fits (zpow_le_zpow_right₀ one_le_two finite) place.le (by norm_num)

/-- What comes back of a double is a double, even next to the greatest one. -/
theorem Recovers.below {value : UnpackedFloat} {rounded : ℚ} (recovers : Recovers mantissa exponent
      (writtenFor mantissa exponent).1 (writtenFor mantissa exponent).2 value rounded)
    (canonical : Canonical mantissa exponent) (finite : exponent ≤ 971) :
    rounded < 2 ^ (1024 : Int) := by
  by_cases lower : exponent ≤ 970 ∨ mantissa ≤ 2 ^ 53 - 9
  · exact recovers.off.lt_of_room (room_of_lower canonical finite lower)
  · obtain ⟨high, great⟩ := not_or.mp lower
    obtain rfl : exponent = 971 := by omega
    obtain ⟨rest, few, rfl⟩ : ∃ rest < 8, mantissa = 2 ^ 53 - 1 - rest :=
      ⟨2 ^ 53 - 1 - mantissa, by omega, by have := canonical.fits; omega⟩
    apply recovers.represents.below
    rw [← recovers.packed]
    exact greatest_doubles rest few

structure Recovered (mantissa : Nat) (exponent : Int) (value : Float) (significand : Nat)
    (place : Int) : Prop where
  unpacked : value.toModel.unpack = valueOf .positive significand place
  canonical : Canonical significand place
  finite : place ≤ 971
  off : Off (1 / 2 ^ 50) 4 (mantissa * 2 ^ exponent) (significand * 2 ^ place)

theorem recovered (canonical : Canonical mantissa exponent) (finite : exponent ≤ 971) :
    ∃ significand place, Recovered mantissa exponent
      (timesTen (writtenFor mantissa exponent).1 (writtenFor mantissa exponent).2) significand
      place ∧
    (Short (writtenFor mantissa exponent).1 → (writtenFor mantissa exponent).2.natAbs ≤ 22 →
      valueOf .positive significand place = valueOf .positive mantissa exponent) := by
  rcases Nat.eq_zero_or_pos mantissa with rfl | positive
  · have nothing : (timesTen 0 (-1)).toModel.unpack = .zero .positive := rfl
    rw [written_for_zero]
    refine ⟨0, -1074,
      ⟨nothing.trans value_of_zero.symm, ⟨by decide, le_rfl, .inr rfl⟩, by decide, ?_⟩,
      fun _ _ => value_of_zero.trans value_of_zero.symm⟩
    rw [Off, Nat.cast_zero, zero_mul, zero_mul, sub_self, abs_zero, mul_zero, zero_add]
    exact (mul_pos four_pos (two_zpow_pos _)).le
  · obtain ⟨value, rounded, recovers⟩ :=
      (shortest_digits positive canonical finite).recovers canonical
    have below := Recovers.below recovers canonical finite
    have unpacked := recovers.packed.trans (recovers.represents.unpack_pack below)
    obtain ⟨significand, place, found, rfl, rfl⟩ := recovers.represents
    exact ⟨significand, place, ⟨unpacked, found, found.exponent_le below, recovers.off⟩,
      recovers.exactly⟩

end Shortest

section Weights

/-- The double that comes back of a finite weight: its shortest digits as a significand and a power of
ten, each rounded on its own, multiplied or divided. -/
def readBack (weight : Float) : Float :=
  match Binary.ofFloat weight with
  | .finite negative mantissa exponent =>
      let written := writtenFor mantissa exponent
      if negative then -timesTen written.1 written.2 else timesTen written.1 written.2
  | _ => weight

variable {weight : Float} {negative : Bool} {mantissa : Nat} {exponent : Int}

theorem assemble_written (negative : Bool) (canonical : Canonical mantissa exponent)
    (finite : exponent ≤ 971) :
    assemble negative (writtenFor mantissa exponent).1 (writtenFor mantissa exponent).2 =
      .ok (if negative then
          -timesTen (writtenFor mantissa exponent).1 (writtenFor mantissa exponent).2
        else timesTen (writtenFor mantissa exponent).1 (writtenFor mantissa exponent).2) := by
  have scaled : scale? (Float.ofNat (writtenFor mantissa exponent).1)
      (writtenFor mantissa exponent).2 =
        some (timesTen (writtenFor mantissa exponent).1 (writtenFor mantissa exponent).2) := by
    rcases Nat.eq_zero_or_pos mantissa with rfl | positive
    · rw [written_for_zero, scale?, if_neg (by decide), if_pos (by decide), timesTen,
        if_neg (by decide), if_pos (by decide)]
    · obtain ⟨some_digit, bounded, least, greatest⟩ :=
        (shortest_digits positive canonical finite).written_bounds
      obtain ⟨_, _, found, _⟩ := recovered canonical finite
      apply scale_eq some_digit bounded least greatest
      exact (congrArg UnpackedFloat.isInf found.unpacked).trans value_of_finite.2
  rw [assemble, scaled]

/-- The number that a double stands for; infinities and what is no number count as zero. -/
def Decimal.Binary.number : Binary → ℚ
  | .finite negative mantissa exponent => (if negative then -1 else 1) * (mantissa * 2 ^ exponent)
  | _ => 0

theorem unpack_neg (value : Float) : (-value).toModel.unpack =
    UnpackedFloat.unpack Format.binary64 (UnpackedFloat.pack Format.binary64
      value.toModel.unpack.neg) := rfl

theorem read_back_unpacked (finite : weight.isFinite = true) :
    ∃ negative mantissa exponent significand place,
      Binary.ofFloat weight = .finite negative mantissa exponent ∧
      weight.toModel.unpack = valueOf (signOf negative) mantissa exponent ∧
      (readBack weight).toModel.unpack = valueOf (signOf negative) significand place ∧
      Off (1 / 2 ^ 50) 4 (mantissa * 2 ^ exponent) (significand * 2 ^ place) ∧
      (Short (writtenFor mantissa exponent).1 → (writtenFor mantissa exponent).2.natAbs ≤ 22 →
        valueOf .positive significand place = valueOf .positive mantissa exponent) := by
  obtain ⟨negative, mantissa, exponent, parts, canonical, few, unpacked⟩ := of_float_eq finite
  obtain ⟨significand, place, found, exactly⟩ := recovered canonical few
  refine ⟨negative, mantissa, exponent, significand, place, parts, unpacked, ?_, found.off, exactly⟩
  simp only [readBack, parts]
  cases negative with
  | false => exact found.unpacked
  | true =>
      rw [if_pos rfl, unpack_neg, found.unpacked, neg_value_of]
      exact found.canonical.unpack_pack_value found.finite _

theorem number_of_unpacked {significand : Nat} {place : Int}
    (unpacked : weight.toModel.unpack = valueOf (signOf negative) significand place) :
    weight.isFinite = true ∧ (Binary.ofFloat weight).number =
      (if negative then -1 else 1) * (significand * 2 ^ place) := by
  have finite : weight.isFinite = true := by
    change weight.toModel.unpack.isFinite = true
    rw [unpacked]
    exact value_of_finite.1
  obtain ⟨negative', mantissa, exponent, parts, _, _, same⟩ := of_float_eq finite
  obtain ⟨sign, number⟩ := value_of_inj (same.symm.trans unpacked)
  have isNegative : negative' = negative := by
    cases negative' <;> cases negative <;> first | rfl | cases sign
  refine ⟨finite, ?_⟩
  rw [parts, Binary.number, number, isNegative]

theorem read_back_finite (finite : weight.isFinite = true) : (readBack weight).isFinite = true := by
  obtain ⟨_, _, _, _, _, _, _, unpacked, _⟩ := read_back_unpacked finite
  exact (number_of_unpacked unpacked).1

/-- What comes back is off by a few of the last places. -/
theorem read_back_near (finite : weight.isFinite = true) :
    |(Binary.ofFloat (readBack weight)).number - (Binary.ofFloat weight).number| ≤
      |(Binary.ofFloat weight).number| / 2 ^ 50 + 2 ^ (-1073 : Int) := by
  obtain ⟨negative, mantissa, exponent, significand, place, _, unpacked, readUnpacked, off, _⟩ :=
    read_back_unpacked finite
  rw [(number_of_unpacked unpacked).2, (number_of_unpacked readUnpacked).2, ← mul_sub, abs_mul,
    abs_mul]
  have one : |if negative then (-1 : ℚ) else 1| = 1 := by cases negative <;> norm_num
  have nonnegative : (0 : ℚ) ≤ mantissa * 2 ^ exponent :=
    mul_nonneg (Nat.cast_nonneg _) (two_zpow_pos _).le
  have steps : (4 : ℚ) * 2 ^ (-1075 : Int) = 2 ^ (-1073 : Int) := by
    rw [show (4 : ℚ) = 2 ^ 2 by norm_num, two_pow_mul_zpow]
    rfl
  rw [Off, steps] at off
  rw [one, one_mul, one_mul, abs_of_nonneg nonnegative]
  linarith

/-- The digits that are written for a weight need no rounding when they are read: they have at most 53
bits, and their power of ten is a double. -/
def ExactDigits (weight : Float) : Prop :=
  match Binary.ofFloat weight with
  | .finite _ mantissa exponent =>
      Short (writtenFor mantissa exponent).1 ∧ (writtenFor mantissa exponent).2.natAbs ≤ 22
  | _ => False

theorem read_back_exactly (finite : weight.isFinite = true) (exactly : ExactDigits weight) :
    readBack weight = weight := by
  obtain ⟨negative, mantissa, exponent, significand, place, parts, unpacked, readUnpacked, _, same⟩ :=
    read_back_unpacked finite
  simp only [ExactDigits, parts] at exactly
  have positive := same exactly.1 exactly.2
  apply float_eq_of_unpack
  rw [unpacked, readUnpacked]
  cases negative with
  | false => exact positive
  | true =>
      have opposite := congrArg UnpackedFloat.neg positive
      rwa [neg_value_of, neg_value_of] at opposite

theorem shortest_scans (canonical : Canonical mantissa exponent) (finite : exponent ≤ 971) :
    (shortest .toEven mantissa exponent).coefficient ≤ 10 ^ 17 ∧
      (shortest .toEven mantissa exponent).leading.natAbs < 2 ^ 31 ∧
      ((shortest .toEven mantissa exponent).coefficient = 0 →
        (shortest .toEven mantissa exponent).exponent = 0) := by
  rcases Nat.eq_zero_or_pos mantissa with rfl | positive
  · rw [shortest, if_pos rfl]
    decide
  · have found := shortest_digits positive canonical finite
    have least := found.least
    have greatest := found.greatest
    exact ⟨found.few, by omega, fun none => absurd none found.positive.ne'⟩

/-- The text of a finite weight is one number, which is read as what comes back of it. -/
theorem number_spelled (finite : weight.isFinite = true) :
    Spells (Json.number weight).compact [.number (.ok (readBack weight))] := by
  obtain ⟨negative, mantissa, exponent, parts, canonical, few, _⟩ := of_float_eq finite
  obtain ⟨short, small, zero⟩ := shortest_scans canonical few
  intro rest atMark
  have scanned : scanNumber negative
      (encoded (shortest .toEven mantissa exponent).fractional ++ rest) =
      .ok (readBack weight, rest) := by
    rw [scan_fractional short small zero atMark]
    change (assemble negative (writtenFor mantissa exponent).1
      (writtenFor mantissa exponent).2).map (·, rest) = _
    rw [assemble_written negative canonical few]
    simp only [readBack, parts]
    rfl
  have text : bytesOf (Json.number weight).compact =
      encoded (signed negative (shortest .toEven mantissa exponent).fractional) := by
    simp [bytes_of_eq, compact, scalar, data?, parts]
  rw [text, signed_tokens (fractional_starts zero) scanned]
  rfl

end Weights

end Cohesion
