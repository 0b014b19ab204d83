import Mathlib.Algebra.Order.Ring.Pow
import Cohesion.Proofs.Weight.Magnitude

/-!
# Weights that stand for counts

A weight may stand for a count, exactly or up to rounding. Both ways of standing for a count are kept
by additions, so they hold of whole sums. Rounding errors grow with the count and not with the number
of additions: a nonzero weight is worth at least one, and adding zero does not round.
-/

namespace Cohesion

open Float.Model Float.Model.UnpackedFloat

/-- A way in which weights stand for counts that goes through additions. -/
structure Additive {W : Type} [Weight W] (tracks : Nat → W → Prop) : Prop where
  zero : tracks 0 Weight.zero
  add {first second : Nat} {left right : W} : tracks first left → tracks second right →
    tracks (first + second) (Weight.add left right)

theorem Additive.accumulate {W Item : Type} [Weight W] {tracks : Nat → W → Prop}
    (additive : Additive tracks) {count : Item → Nat} {weight : Item → W} {items : List Item}
    (tracked : ∀ item ∈ items, tracks (count item) (weight item)) :
    tracks (items.map count).sum (Weight.accumulate (items.map weight)) := by
  have added : ∀ held start, tracks held start →
      tracks (held + (items.map count).sum) ((items.map weight).foldl Weight.add start) := by
    induction items with
    | nil => exact fun _ _ holds => holds
    | cons item rest induction =>
        intro held start holds
        rw [List.forall_mem_cons] at tracked
        rw [List.map_cons, List.map_cons, List.sum_cons, List.foldl_cons, ← Nat.add_assoc]
        exact induction tracked.2 _ _ (additive.add holds tracked.1)
  have total := added 0 Weight.zero additive.zero
  rwa [Nat.zero_add] at total

def IsCount (count : Nat) (weight : Rat) : Prop := weight = count

theorem is_count_additive : Additive IsCount where
  zero := Nat.cast_zero.symm
  add {first second left right} isFirst isSecond := by
    rw [IsCount] at isFirst isSecond ⊢
    rw [Nat.cast_add, ← isFirst, ← isSecond]
    rfl

section Drift

/-- The number has gone off the count by at most one rounding for each unit of it. -/
def Drift (count : Nat) (number : ℚ) : Prop :=
  count * (1 - roundingUnit) ^ count ≤ number ∧ number ≤ count * (1 + roundingUnit) ^ count

/-- One count is so much greater than the other one that rounding cannot make up for it. -/
def RoundsApart (greater lesser : Nat) : Prop :=
  greater * greater < 2 ^ 51 * (greater - lesser)

theorem rounding_unit_pos : 0 < roundingUnit := by
  rw [roundingUnit]
  norm_num

theorem rounding_unit_lt_one : roundingUnit < 1 := by
  rw [roundingUnit]
  norm_num

variable {first second count : Nat} {left right number : ℚ}

theorem drift_of_near (positive : 0 < count) (near : Near count number) : Drift count number := by
  have least := rounding_unit_pos
  have most := rounding_unit_lt_one
  constructor
  · apply le_trans _ near.1
    apply mul_le_mul_of_nonneg_left _ (Nat.cast_nonneg count)
    exact pow_le_of_le_one (by linarith) (by linarith) positive.ne'
  · apply near.2.trans
    apply mul_le_mul_of_nonneg_left _ (Nat.cast_nonneg count)
    exact le_self_pow₀ (by linarith) positive.ne'

/-- A sum takes one more rounding than its parts, and has at least one unit more than each. -/
theorem Drift.add (firstPositive : 0 < first) (secondPositive : 0 < second)
    (firstDrift : Drift first left) (secondDrift : Drift second right)
    (near : Near (left + right) number) : Drift (first + second) number := by
  have least := rounding_unit_pos
  have most := rounding_unit_lt_one
  obtain ⟨firstLower, firstUpper⟩ := firstDrift
  obtain ⟨secondLower, secondUpper⟩ := secondDrift
  obtain ⟨rounds, same⟩ : ∃ rounds, first + second = rounds + 1 :=
    ⟨first + second - 1, by omega⟩
  have exact_sum : ((first + second : Nat) : ℚ) = first + second := Nat.cast_add _ _
  constructor
  · have shrink : ∀ part ≤ rounds, (part : ℚ) * (1 - roundingUnit) ^ rounds ≤
        part * (1 - roundingUnit) ^ part := by
      intro part few
      apply mul_le_mul_of_nonneg_left _ (Nat.cast_nonneg part)
      exact pow_le_pow_of_le_one (by linarith) (by linarith) few
    calc ((first + second : Nat) : ℚ) * (1 - roundingUnit) ^ (first + second)
        = (first * (1 - roundingUnit) ^ rounds + second * (1 - roundingUnit) ^ rounds) *
            (1 - roundingUnit) := by
          rw [exact_sum, same, pow_succ]
          ring
      _ ≤ (left + right) * (1 - roundingUnit) := by
          apply mul_le_mul_of_nonneg_right _ (by linarith)
          exact add_le_add ((shrink first (by omega)).trans firstLower)
            ((shrink second (by omega)).trans secondLower)
      _ ≤ number := near.1
  · have grow : ∀ part ≤ rounds, (part : ℚ) * (1 + roundingUnit) ^ part ≤
        part * (1 + roundingUnit) ^ rounds := by
      intro part few
      apply mul_le_mul_of_nonneg_left _ (Nat.cast_nonneg part)
      exact pow_le_pow_right₀ (by linarith) few
    calc number
        ≤ (left + right) * (1 + roundingUnit) := near.2
      _ ≤ (first * (1 + roundingUnit) ^ rounds + second * (1 + roundingUnit) ^ rounds) *
            (1 + roundingUnit) := by
          apply mul_le_mul_of_nonneg_right _ (by linarith)
          exact add_le_add (firstUpper.trans (grow first (by omega)))
            (secondUpper.trans (grow second (by omega)))
      _ = ((first + second : Nat) : ℚ) * (1 + roundingUnit) ^ (first + second) := by
          rw [exact_sum, same, pow_succ]
          ring

/-- What many roundings make of one, as long as they are not more than half of all that fit. -/
theorem drift_powers (count : Nat) :
    1 - count * roundingUnit ≤ (1 - roundingUnit) ^ count ∧
      (1 + roundingUnit) ^ count * (1 - roundingUnit) ^ count ≤ 1 := by
  have least := rounding_unit_pos
  have most := rounding_unit_lt_one
  constructor
  · have bernoulli := one_add_mul_le_pow (show (-2 : ℚ) ≤ -roundingUnit by linarith) count
    rwa [mul_neg, ← sub_eq_add_neg, ← sub_eq_add_neg] at bernoulli
  · rw [← mul_pow]
    apply pow_le_one₀
    · exact mul_nonneg (by linarith) (by linarith)
    · nlinarith

theorem RoundsApart.bounds {greater lesser : Nat} (apart : RoundsApart greater lesser) :
    lesser < greater ∧ greater ≤ 2 ^ 51 := by
  rw [RoundsApart] at apart
  have fewer : lesser < greater := by
    by_contra atLeast
    rw [Nat.sub_eq_zero_of_le (not_lt.mp atLeast)] at apart
    omega
  refine ⟨fewer, ?_⟩
  by_contra tooMany
  have product : 2 ^ 51 * (greater - lesser) ≤ greater * greater :=
    Nat.mul_le_mul (by omega) (by omega)
  omega

theorem Drift.within_twice (drift : Drift count number) (few : count ≤ 2 ^ 51) :
    count / 2 ≤ number ∧ number ≤ count * 2 := by
  obtain ⟨lower, product⟩ := drift_powers count
  have half : (1 : ℚ) / 2 ≤ 1 - count * roundingUnit := by
    have bounded : (count : ℚ) ≤ 2 ^ 51 := by exact_mod_cast few
    rw [roundingUnit]
    linarith
  have kept := half.trans lower
  have least := rounding_unit_pos
  have grown : (0 : ℚ) < (1 + roundingUnit) ^ count := pow_pos (by linarith) count
  constructor
  · calc (count : ℚ) / 2 = count * (1 / 2) := by ring
      _ ≤ count * (1 - roundingUnit) ^ count :=
          mul_le_mul_of_nonneg_left kept (Nat.cast_nonneg count)
      _ ≤ number := drift.1
  · apply drift.2.trans
    apply mul_le_mul_of_nonneg_left _ (Nat.cast_nonneg count)
    nlinarith

theorem Drift.lt_of_apart (firstDrift : Drift first left) (secondDrift : Drift second right)
    (apart : RoundsApart first second) : right < left := by
  have least := rounding_unit_pos
  obtain ⟨lower, product⟩ := drift_powers first
  obtain ⟨firstLower, _⟩ := firstDrift
  obtain ⟨fewer, few⟩ := apart.bounds
  have gap : (first : ℚ) * first < 2 ^ 51 * (first - second) := by
    rw [← Nat.cast_sub fewer.le]
    exact_mod_cast apart
  have firstPositive : (0 : ℚ) < first := by exact_mod_cast Nat.zero_lt_of_lt fewer
  have spare : (0 : ℚ) < 1 - first * roundingUnit := by
    have bounded : (first : ℚ) ≤ 2 ^ 51 := by exact_mod_cast few
    rw [roundingUnit]
    linarith
  generalize (1 - roundingUnit) ^ first = shrunk at lower product firstLower
  have shrunkPositive := spare.trans_le lower
  have kept : (second : ℚ) < first * shrunk * shrunk := by
    calc (second : ℚ) < first * (1 - 2 * (first * roundingUnit)) := by
          rw [roundingUnit]
          linarith
      _ ≤ first * ((1 - first * roundingUnit) * (1 - first * roundingUnit)) := by
          apply mul_le_mul_of_nonneg_left _ firstPositive.le
          linarith [mul_self_nonneg ((first : ℚ) * roundingUnit)]
      _ ≤ first * (shrunk * shrunk) :=
          mul_le_mul_of_nonneg_left (mul_self_le_mul_self spare.le lower) firstPositive.le
      _ = first * shrunk * shrunk := (mul_assoc _ _ _).symm
  have grown : (second : ℚ) * (1 + roundingUnit) ^ second ≤
      second * (1 + roundingUnit) ^ first := by
    apply mul_le_mul_of_nonneg_left _ (Nat.cast_nonneg second)
    exact pow_le_pow_right₀ (by linarith) fewer.le
  calc right ≤ second * (1 + roundingUnit) ^ first := secondDrift.2.trans grown
    _ < first * shrunk := by
        apply lt_of_mul_lt_mul_right _ shrunkPositive.le
        calc (second : ℚ) * (1 + roundingUnit) ^ first * shrunk
            = second * ((1 + roundingUnit) ^ first * shrunk) := mul_assoc _ _ _
          _ ≤ second * 1 := mul_le_mul_of_nonneg_left product (Nat.cast_nonneg second)
          _ = second := mul_one _
          _ < first * shrunk * shrunk := kept
    _ ≤ left := firstLower

/-- Counts up to a certain size are far enough apart as soon as they differ. -/
theorem rounds_apart_of_lt {greater lesser : Nat} (bounded : greater ≤ 2 ^ 25)
    (less : lesser < greater) : RoundsApart greater lesser := by
  rw [RoundsApart]
  calc greater * greater ≤ 2 ^ 25 * 2 ^ 25 := Nat.mul_le_mul bounded bounded
    _ < 2 ^ 51 * 1 := by decide
    _ ≤ 2 ^ 51 * (greater - lesser) := Nat.mul_le_mul_left _ (by omega)

end Drift

section Doubles

structure Scaled (limit : Nat) (accepts : Nat → ℚ → Prop) (count : Nat) (weight : Float) :
    Prop where
  zero : count = 0 → weight.toModel.unpack = .zero .positive
  number : 0 < count → count ≤ limit →
    ∃ number, StandsFor weight.toModel.unpack number ∧ accepts count number

/-- What numbers have to satisfy to be accepted through additions of doubles. -/
structure Accepting (limit : Nat) (accepts : Nat → ℚ → Prop) : Prop where
  range {count : Nat} {number : ℚ} : 0 < count → count ≤ limit → accepts count number →
    (2 : ℚ) ^ (-1000 : Int) ≤ number ∧ number ≤ 2 ^ (1000 : Int)
  sum {first second : Nat} {left right number : ℚ} : 0 < first → 0 < second →
    first + second ≤ limit → accepts first left → accepts second right →
    Near (left + right) number → (Short (left + right) → number = left + right) →
    accepts (first + second) number

theorem unpack_add (left right : Float) :
    (Weight.add left right).toModel.unpack = UnpackedFloat.unpack Format.binary64
      (UnpackedFloat.pack Format.binary64 (UnpackedFloat.add Format.binary64
        left.toModel.unpack right.toModel.unpack)) :=
  rfl

theorem StandsFor.add_zero {value : UnpackedFloat} {number : ℚ} (stands : StandsFor value number) :
    UnpackedFloat.add Format.binary64 value (.zero .positive) = value ∧
      UnpackedFloat.add Format.binary64 (.zero .positive) value = value := by
  obtain ⟨_, _, _, rfl, _⟩ := stands
  exact ⟨rfl, rfl⟩

variable {limit : Nat} {accepts : Nat → ℚ → Prop}

section Accepting

variable (accepting : Accepting limit accepts)

include accepting

theorem Accepting.unpack_pack {count : Nat} {number : ℚ} {value : UnpackedFloat}
    (positive : 0 < count) (few : count ≤ limit) (stands : StandsFor value number)
    (accepted : accepts count number) :
    UnpackedFloat.unpack Format.binary64 (UnpackedFloat.pack Format.binary64 value) = value := by
  obtain ⟨least, greatest⟩ := accepting.range positive few accepted
  apply stands.unpack_pack
  · exact (zpow_le_zpow_right₀ one_le_two (by decide)).trans least
  · exact greatest.trans_lt (zpow_lt_zpow_right₀ one_lt_two (by decide))

theorem Accepting.sum_stands {first second : Nat} {left right : Float}
    (isFirst : Scaled limit accepts first left) (isSecond : Scaled limit accepts second right)
    (positive : 0 < first + second) (few : first + second ≤ limit) :
    ∃ number, StandsFor (UnpackedFloat.add Format.binary64 left.toModel.unpack
      right.toModel.unpack) number ∧ accepts (first + second) number := by
  rcases Nat.eq_zero_or_pos first with rfl | firstPositive
  · rw [Nat.zero_add] at positive few ⊢
    obtain ⟨number, stands, accepted⟩ := isSecond.number positive few
    rw [isFirst.zero rfl, stands.add_zero.2]
    exact ⟨number, stands, accepted⟩
  rcases Nat.eq_zero_or_pos second with rfl | secondPositive
  · obtain ⟨number, stands, accepted⟩ := isFirst.number positive few
    rw [isSecond.zero rfl, stands.add_zero.1]
    exact ⟨number, stands, accepted⟩
  obtain ⟨one, oneStands, oneAccepted⟩ := isFirst.number firstPositive (by omega)
  obtain ⟨other, otherStands, otherAccepted⟩ := isSecond.number secondPositive (by omega)
  have oneLeast := (accepting.range firstPositive (by omega) oneAccepted).1
  have otherLeast := (accepting.range secondPositive (by omega) otherAccepted).1
  have normal : (2 : ℚ) ^ (-1022 : Int) ≤ 2 ^ (-1000 : Int) :=
    zpow_le_zpow_right₀ one_le_two (by decide)
  obtain ⟨number, stands, near, unchanged⟩ :=
    add_rounds oneStands otherStands (normal.trans oneLeast) (normal.trans otherLeast)
  exact ⟨number, stands, accepting.sum firstPositive secondPositive few oneAccepted otherAccepted
    near unchanged⟩

theorem Accepting.additive : Additive (Scaled limit accepts) where
  zero := ⟨fun _ => rfl, fun positive => absurd positive (Nat.lt_irrefl 0)⟩
  add {first second left right} := by
    intro isFirst isSecond
    constructor
    · intro none
      rw [unpack_add, isFirst.zero (by omega), isSecond.zero (by omega)]
      rfl
    · intro positive few
      obtain ⟨number, stands, accepted⟩ := accepting.sum_stands isFirst isSecond positive few
      rw [unpack_add, accepting.unpack_pack positive few stands accepted]
      exact ⟨number, stands, accepted⟩

end Accepting

theorem Scaled.exceeds_of_lt {first second : Nat} {left right : Float}
    (isFirst : Scaled limit accepts first left) (isSecond : Scaled limit accepts second right)
    (fewer : second < first) (few : first ≤ limit)
    (less : ∀ one other, accepts first one → accepts second other → other < one) :
    Weight.exceeds left right = true := by
  obtain ⟨one, oneStands, oneAccepted⟩ := isFirst.number (by omega) few
  apply decide_eq_true
  rw [float_lt_iff]
  rcases Nat.eq_zero_or_pos second with rfl | positive
  · rw [isSecond.zero rfl]
    obtain ⟨_, _, _, value, _⟩ := oneStands
    rw [value]
    rfl
  · obtain ⟨other, otherStands, otherAccepted⟩ := isSecond.number positive (by omega)
    exact (otherStands.lt_iff oneStands).mpr (less one other oneAccepted otherAccepted)

section Shares

variable {total count : Nat}

def RoundedShare (total : Nat) : Nat → Float → Prop :=
  Scaled (2 ^ 51) fun count number => Drift count (number * total)

theorem rounded_share_additive (positive : 0 < total) (bounded : total < 2 ^ 53) :
    Additive (RoundedShare total) := by
  have totalOne : (1 : ℚ) ≤ total := by exact_mod_cast positive
  have totalBound : (total : ℚ) ≤ 2 ^ 53 := by exact_mod_cast bounded.le
  apply Accepting.additive
  constructor
  case range =>
    intro count number countPositive few drift
    obtain ⟨least, greatest⟩ := drift.within_twice few
    have countOne : (1 : ℚ) ≤ count := by exact_mod_cast countPositive
    have countBound : (count : ℚ) ≤ 2 ^ 51 := by exact_mod_cast few
    have numberPositive : 0 < number := by
      by_contra negative
      have product := mul_nonpos_of_nonpos_of_nonneg (not_lt.mp negative) (zero_le_one.trans totalOne)
      linarith
    constructor
    · calc (2 : ℚ) ^ (-1000 : Int) ≤ 2 ^ (-54 : Int) :=
            zpow_le_zpow_right₀ one_le_two (by decide)
        _ ≤ number := by
            have product := mul_le_mul_of_nonneg_left totalBound numberPositive.le
            norm_num
            linarith
    · calc number ≤ number * total := le_mul_of_one_le_right numberPositive.le totalOne
        _ ≤ 2 ^ (52 : Int) := by
            norm_num
            linarith
        _ ≤ 2 ^ (1000 : Int) := zpow_le_zpow_right₀ one_le_two (by decide)
  case sum =>
    intro first second left right number firstPositive secondPositive _ firstDrift secondDrift near _
    apply firstDrift.add firstPositive secondPositive secondDrift
    rw [← add_mul]
    exact near.scale (zero_le_one.trans totalOne)

theorem share_rounded (positive : 0 < count) (within : count ≤ total) (bounded : total < 2 ^ 53) :
    RoundedShare total count (Weight.share total count) := by
  constructor
  · intro none
    omega
  · intro _ _
    obtain ⟨number, stands, near, _⟩ := share_rounds positive within bounded
    refine ⟨number, stands, drift_of_near positive ?_⟩
    have totalPositive : (0 : ℚ) < total := Nat.cast_pos.mpr (by omega)
    have scaled := near.scale totalPositive.le
    rwa [div_mul_cancel₀ _ totalPositive.ne'] at scaled

theorem RoundedShare.exceeds {first second : Nat} {left right : Float}
    (isFirst : RoundedShare total first left) (isSecond : RoundedShare total second right)
    (apart : RoundsApart first second) : Weight.exceeds left right = true := by
  obtain ⟨fewer, few⟩ := apart.bounds
  apply isFirst.exceeds_of_lt isSecond fewer few
  intro one other oneDrift otherDrift
  have less := oneDrift.lt_of_apart otherDrift apart
  exact lt_of_mul_lt_mul_right less (Nat.cast_nonneg total)

def ExactShare (total : Nat) : Nat → Float → Prop :=
  Scaled (2 ^ 53 - 1) fun count number => number = count / total

/-- Shares of a power of two need no more bits than the counts, so nothing is rounded. -/
theorem exact_share_additive {places : Nat} (power : total = 2 ^ places)
    (bounded : total < 2 ^ 53) : Additive (ExactShare total) := by
  have totalOne : (1 : ℚ) ≤ total := by
    rw [power]
    exact_mod_cast Nat.one_le_two_pow
  have totalBound : (total : ℚ) ≤ 2 ^ 53 := by exact_mod_cast bounded.le
  apply Accepting.additive
  constructor
  case range =>
    rintro count _ countPositive few rfl
    have countOne : (1 : ℚ) ≤ count := by exact_mod_cast countPositive
    have countBound : (count : ℚ) ≤ 2 ^ 53 := by exact_mod_cast (show count ≤ 2 ^ 53 by omega)
    have totalPositive := zero_lt_one.trans_le totalOne
    constructor
    · calc (2 : ℚ) ^ (-1000 : Int) ≤ 2 ^ (-53 : Int) :=
            zpow_le_zpow_right₀ one_le_two (by decide)
        _ ≤ count / total := by
            rw [le_div_iff₀ totalPositive]
            norm_num
            linarith
    · calc (count : ℚ) / total ≤ count := div_le_self (zero_le_one.trans countOne) totalOne
        _ ≤ 2 ^ (53 : Int) := by exact_mod_cast countBound
        _ ≤ 2 ^ (1000 : Int) := zpow_le_zpow_right₀ one_le_two (by decide)
  case sum =>
    rintro first second _ _ number _ _ few rfl rfl _ unchanged
    have sum : (first : ℚ) / total + second / total = ((first + second : Nat) : ℚ) / total := by
      rw [Nat.cast_add, add_div]
    rw [← sum]
    apply unchanged
    refine ⟨first + second, by omega, -places, ?_⟩
    rw [sum, power, zpow_neg, zpow_natCast, div_eq_mul_inv]
    push_cast
    rfl

theorem share_exact {places : Nat} (power : total = 2 ^ places) (positive : 0 < count)
    (within : count ≤ total) (bounded : total < 2 ^ 53) :
    ExactShare total count (Weight.share total count) := by
  constructor
  · intro none
    omega
  · intro _ _
    refine ⟨_, (share_rounds positive within bounded).exactly ?_, rfl⟩
    refine ⟨count, by omega, -places, ?_⟩
    rw [power, zpow_neg, zpow_natCast, div_eq_mul_inv]
    push_cast
    rfl

theorem ExactShare.exceeds_iff {first second : Nat} {left right : Float} (positive : 0 < total)
    (isFirst : ExactShare total first left) (isSecond : ExactShare total second right)
    (firstFew : first < 2 ^ 53) (secondFew : second < 2 ^ 53) :
    Weight.exceeds left right = decide (second < first) := by
  have order : ∀ {fewer more : Nat}, (fewer : ℚ) / total < more / total ↔ fewer < more := by
    intro fewer more
    rw [div_lt_div_iff_of_pos_right (Nat.cast_pos.mpr positive), Nat.cast_lt]
  rcases Nat.lt_or_ge second first with fewer | atMost
  · rw [decide_eq_true fewer]
    apply isFirst.exceeds_of_lt isSecond fewer (by omega)
    rintro _ _ rfl rfl
    exact order.mpr fewer
  · rw [decide_eq_false (not_lt.mpr atMost)]
    apply decide_eq_false
    rw [float_lt_iff]
    rcases Nat.eq_zero_or_pos second with rfl | secondPositive
    · rw [isSecond.zero rfl, isFirst.zero (by omega)]
      decide
    · obtain ⟨_, secondStands, rfl⟩ := isSecond.number secondPositive (by omega)
      rcases Nat.eq_zero_or_pos first with rfl | firstPositive
      · rw [isFirst.zero rfl]
        obtain ⟨_, _, _, value, _⟩ := secondStands
        rw [value]
        exact Bool.false_ne_true
      · obtain ⟨_, firstStands, rfl⟩ := isFirst.number firstPositive (by omega)
        rw [secondStands.lt_iff firstStands, order]
        exact not_lt.mpr atMost

end Shares

end Doubles

end Cohesion
