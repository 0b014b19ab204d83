import Mathlib
import Cohesion.Weight

/-!
# Rounding and packing of doubles

What the model of the double precision format does to values without a sign. Rounding and packing
keep them without a sign, and a significand of full length within the range of normal numbers comes
back from the packed form as it was. The library is imported as a whole because its lemmas on packed
doubles come with no smaller part of it.
-/

namespace Cohesion

open Float.Model Float.Model.UnpackedFloat

def Unsigned : UnpackedFloat → Prop
  | .infinity .positive | .zero .positive | .finite .positive _ _ _ => True
  | _ => False

/-- A positive number whose significand has its full 53 bits and whose exponent is bounded. -/
def FullBetween (least greatest : Int) (value : UnpackedFloat) : Prop :=
  ∃ significand exponent positive, value = .finite .positive significand exponent positive ∧
    2 ^ 52 ≤ significand ∧ significand < 2 ^ 53 ∧ least ≤ exponent ∧ exponent ≤ greatest

theorem FullBetween.unsigned {least greatest : Int} {value : UnpackedFloat}
    (full : FullBetween least greatest value) : Unsigned value := by
  obtain ⟨_, _, _, rfl, _⟩ := full
  trivial

section Rounding

theorem shifted_mantissa (extended : ExtendedMantissa) (count : Nat) :
    (extended >>> count).mantissa = extended.mantissa / 2 ^ count := by
  induction count with
  | zero => exact (Nat.div_one _).symm
  | succ count induction =>
      calc (extended >>> (count + 1)).mantissa
          = (extended >>> count).mantissa / 2 := rfl
        _ = extended.mantissa / 2 ^ (count + 1) := by
            rw [induction, Nat.div_div_eq_div_mul, Nat.pow_succ]

theorem of_mantissa_and_accuracy_mantissa (mantissa : Nat) (accuracy : Accuracy) :
    (ExtendedMantissa.ofMantissaAndAccuracy mantissa accuracy).mantissa = mantissa := by
  rcases accuracy with _ | (_ | _ | _) <;> rfl

theorem rounded_mantissa_cases (extended : ExtendedMantissa) :
    extended.roundedMantissa = extended.mantissa ∨
      extended.roundedMantissa = extended.mantissa + 1 := by
  rw [ExtendedMantissa.roundedMantissa]
  generalize extended.mantissa = mantissa
  rcases extended.accuracy with _ | (_ | _ | _)
  · exact .inl rfl
  · exact .inl rfl
  · rcases Nat.mod_two_eq_zero_or_one mantissa with even | odd
    · left
      simp [Accuracy.roundToNearestEven, even]
    · right
      simp [Accuracy.roundToNearestEven, odd]
  · exact .inr rfl

theorem target_exponent_eq (mantissa : Nat) (exponent : Int) :
    Format.binary64.targetExponent (totalExponent mantissa exponent) =
      max (mantissa.log2 + exponent - 52) (-1074) := by
  have bits : Format.binary64.mantissaBits = 53 := rfl
  have minimum : Format.binary64.minExponent = -1074 := rfl
  rw [Format.targetExponent, totalExponent, bits, minimum]
  omega

theorem target_exponent_of_normal (mantissa : Nat) (exponent : Int)
    (normal : -1074 ≤ mantissa.log2 + exponent - 52) :
    Format.binary64.targetExponent (totalExponent mantissa exponent) =
      mantissa.log2 + exponent - 52 := by
  rw [target_exponent_eq, max_eq_left normal]

theorem log2_eq_of_full {significand : Nat} (atLeast : 2 ^ 52 ≤ significand)
    (atMost : significand < 2 ^ 53) : significand.log2 = 52 := by
  have nonzero : significand ≠ 0 := by omega
  have lower := (Nat.le_log2 nonzero).mpr atLeast
  have upper := (Nat.log2_lt nonzero).mpr atMost
  omega

theorem full_div_pow {mantissa shift : Nat} (nonzero : mantissa ≠ 0)
    (excess : mantissa.log2 = 52 + shift) :
    2 ^ 52 ≤ mantissa / 2 ^ shift ∧ mantissa / 2 ^ shift < 2 ^ 53 := by
  have positive : 0 < 2 ^ shift := Nat.two_pow_pos shift
  constructor
  · rw [Nat.le_div_iff_mul_le positive, ← Nat.pow_add, ← excess]
    exact Nat.log2_self_le nonzero
  · rw [Nat.div_lt_iff_lt_mul positive, ← Nat.pow_add,
      show 53 + shift = mantissa.log2 + 1 by omega]
    exact Nat.lt_log2_self

theorem shift_of_long {mantissa : Nat} (exponent : Int) (accuracy : Accuracy)
    (long : 2 ^ 52 ≤ mantissa) (normal : -1074 ≤ mantissa.log2 + exponent - 52) :
    ∃ shift : Nat, mantissa.log2 = 52 + shift ∧
      shiftToTargetExponent Format.binary64 mantissa exponent accuracy =
        (ExtendedMantissa.ofMantissaAndAccuracy mantissa accuracy >>> shift, exponent + shift) := by
  have enough := (Nat.le_log2 (by omega)).mpr long
  obtain ⟨shift, excess⟩ := Nat.exists_eq_add_of_le enough
  have amount : (((mantissa.log2 : Int) + exponent - 52) - exponent).toNat = shift := by omega
  refine ⟨shift, excess, ?_⟩
  rw [shiftToTargetExponent, target_exponent_of_normal _ _ normal, shiftToExponent, amount]

theorem round_of_shifts {mantissa : Nat} {exponent firstExponent secondExponent : Int}
    {accuracy : Accuracy} {first second : ExtendedMantissa}
    (firstShift : shiftToTargetExponent Format.binary64 mantissa exponent accuracy =
      (first, firstExponent))
    (secondShift : shiftToTargetExponent Format.binary64 first.roundedMantissa firstExponent
      .exact = (second, secondExponent)) (positive : 0 < second.mantissa) :
    roundWithAccuracy Format.binary64 .positive mantissa exponent accuracy =
      .finite .positive second.mantissa secondExponent positive := by
  simp only [roundWithAccuracy, firstShift, secondShift]
  rw [dif_neg (Nat.ne_of_gt positive)]

/-- A mantissa that has been shifted and rounded to 53 bits has at most one bit more. -/
theorem full_of_rounded {mantissa shift : Nat} (accuracy : Accuracy) (nonzero : mantissa ≠ 0)
    (excess : mantissa.log2 = 52 + shift) :
    2 ^ 52 ≤ (ExtendedMantissa.ofMantissaAndAccuracy mantissa accuracy >>> shift).roundedMantissa ∧
      (ExtendedMantissa.ofMantissaAndAccuracy mantissa accuracy >>> shift).roundedMantissa ≤
        2 ^ 53 := by
  obtain ⟨atLeast, atMost⟩ := full_div_pow nonzero excess
  have rounded := rounded_mantissa_cases
    (ExtendedMantissa.ofMantissaAndAccuracy mantissa accuracy >>> shift)
  rw [shifted_mantissa, of_mantissa_and_accuracy_mantissa] at rounded
  omega

/-- Where the rounding of a mantissa of at least 53 bits leads: the bits behind the 53rd are dropped
after rounding, and one more when rounding carries. -/
theorem round_of_long {mantissa : Nat} (exponent : Int) (accuracy : Accuracy)
    (long : 2 ^ 52 ≤ mantissa) (normal : -1074 ≤ mantissa.log2 + exponent - 52) :
    ∃ (shift carry significand : Nat) (positive : 0 < significand),
      mantissa.log2 = 52 + shift ∧ carry ≤ 1 ∧ 2 ^ 52 ≤ significand ∧ significand < 2 ^ 53 ∧
      roundWithAccuracy Format.binary64 .positive mantissa exponent accuracy =
        .finite .positive significand (exponent + shift + carry) positive ∧
      significand * 2 ^ carry =
        (ExtendedMantissa.ofMantissaAndAccuracy mantissa accuracy >>> shift).roundedMantissa := by
  obtain ⟨shift, excess, firstShift⟩ := shift_of_long exponent accuracy long normal
  obtain ⟨roundedLong, roundedBound⟩ := full_of_rounded accuracy (by omega) excess
  generalize rounding : (ExtendedMantissa.ofMantissaAndAccuracy mantissa accuracy >>>
    shift).roundedMantissa = rounded at roundedLong roundedBound
  have roundedNonzero : rounded ≠ 0 := by omega
  have roundedLength := (Nat.le_log2 roundedNonzero).mpr roundedLong
  have roundedLengthBound : rounded.log2 < 54 := (Nat.log2_lt roundedNonzero).mpr (by omega)
  -- Rounding up may carry into one more bit, which the second shift drops.
  obtain ⟨carry, carried, secondShift⟩ :=
    shift_of_long (exponent + shift) .exact roundedLong (by omega)
  obtain ⟨full, fits⟩ := full_div_pow roundedNonzero carried
  have whole : rounded / 2 ^ carry * 2 ^ carry = rounded := by
    rcases Nat.le_one_iff_eq_zero_or_eq_one.mp (show carry ≤ 1 by omega) with rfl | rfl
    · rw [Nat.pow_zero, Nat.div_one, Nat.mul_one]
    · omega
  have dropped : (ExtendedMantissa.ofMantissaAndAccuracy rounded .exact >>> carry).mantissa =
      rounded / 2 ^ carry := by
    rw [shifted_mantissa, of_mantissa_and_accuracy_mantissa]
  rw [← dropped] at full fits whole
  rw [← rounding] at secondShift full fits whole
  have positive := Nat.lt_of_lt_of_le (Nat.two_pow_pos 52) full
  have result := round_of_shifts firstShift secondShift positive
  exact ⟨shift, carry, _, positive, excess, by omega, full, fits, result, whole⟩

theorem unsigned_round_with_accuracy (mantissa : Nat) (exponent : Int) (accuracy : Accuracy) :
    Unsigned (roundWithAccuracy Format.binary64 .positive mantissa exponent accuracy) := by
  simp only [roundWithAccuracy]
  split
  · trivial
  · trivial

end Rounding

section Packing

theorem exponent_ne_top {biased : Nat} (below : biased < 2047) :
    BitVec.ofNat 11 biased ≠ -1#_ := by
  intro atTop
  have same := congrArg BitVec.toNat atTop
  have greatest : (-1#11 : BitVec 11).toNat = 2047 := rfl
  rw [BitVec.toNat_ofNat, greatest] at same
  omega

theorem of_nat_ne_zero {width number : Nat} (positive : 0 < number) (fits : number < 2 ^ width) :
    BitVec.ofNat width number ≠ 0#_ := by
  intro atZero
  have same := congrArg BitVec.toNat atZero
  rw [BitVec.toNat_ofNat, Nat.mod_eq_of_lt fits, BitVec.toNat_zero] at same
  omega

theorem one_append_pos (mantissa : BitVec 52) : 0 < (1#1 ++ mantissa).toNat := by
  rw [BitVec.toNat_append]
  exact Nat.lt_of_lt_of_le (by decide) Nat.left_le_or

theorem unpack_components (sign : Sign) (exponent : BitVec 11) (mantissa : BitVec 52) :
    UnpackedFloat.unpack Format.binary64 (packComponents Format.binary64 sign exponent mantissa) =
      if exponent = -1#11 then
        if mantissa = 0#52 then .infinity sign else .notANumber
      else if exponent = 0#11 then
        if zero : mantissa = 0#52 then .zero sign
        else .finite sign mantissa.toNat ((exponent.toNat : Int) - 1075 + 1)
          (Nat.pos_of_ne_zero fun none => zero (BitVec.eq_of_toNat_eq none))
      else .finite sign (1#1 ++ mantissa).toNat ((exponent.toNat : Int) - 1075)
        (one_append_pos mantissa) := by
  simp only [UnpackedFloat.unpack, unpackMantissa_packComponents, unpackExponent_packComponents,
    unpackSign_packComponents, Sign.ofBitVec_toBitVec]
  rfl

theorem unsigned_unpack_components {exponent : BitVec 11} {mantissa : BitVec 52}
    (number : exponent = -1#_ → mantissa = 0#_) :
    Unsigned (UnpackedFloat.unpack Format.binary64
      (packComponents Format.binary64 .positive exponent mantissa)) := by
  rw [unpack_components]
  split
  · next atTop =>
      rw [if_pos (number atTop)]
      trivial
  · split
    · split
      · trivial
      · trivial
    · trivial

theorem unsigned_unpack_pack {value : UnpackedFloat} (unsigned : Unsigned value) :
    Unsigned (UnpackedFloat.unpack Format.binary64 (UnpackedFloat.pack Format.binary64 value)) := by
  rcases value with (_ | _) | _ | (_ | _) | ⟨_ | _, significand, exponent, positive⟩
  all_goals first | contradiction | skip
  · exact unsigned_unpack_components fun _ => rfl
  · exact unsigned_unpack_components fun _ => rfl
  · simp only [UnpackedFloat.pack]
    split
    · exact unsigned_unpack_components fun _ => rfl
    · next fits =>
        split
        · apply unsigned_unpack_components
          intro atTop
          exact absurd atTop (exponent_ne_top (by omega))
        · apply unsigned_unpack_components
          intro atTop
          contradiction

theorem one_append_to_nat (mantissa : BitVec 52) :
    (1#1 ++ mantissa).toNat = 2 ^ 52 + mantissa.toNat := by
  rw [BitVec.toNat_append, ← Nat.shiftLeft_add_eq_or_of_lt mantissa.isLt]
  rfl

section Full

variable (sign : Sign) {significand : Nat} {exponent : Int} (positive : 0 < significand)

/-- A full significand is packed without its first bit, next to its exponent. -/
theorem pack_full (full : 2 ^ 52 ≤ significand) (fits : significand < 2 ^ 53)
    (least : -1074 ≤ exponent) (finite : exponent ≤ 971) :
    UnpackedFloat.pack Format.binary64 (.finite sign significand exponent positive) =
      packComponents Format.binary64 sign (BitVec.ofNat 11 (exponent + 1075).toNat)
        (BitVec.ofNat 52 significand) := by
  have bias : Format.binary64.exponentBias = 1023 := rfl
  have bits : significand.log2 + 1 = Format.binary64.mantissaBits := by
    rw [log2_eq_of_full full fits]
    rfl
  have stored : (exponent + (1023 : Nat) + (52 : Nat)).toNat = (exponent + 1075).toNat := by omega
  simp only [UnpackedFloat.pack, bias, stored]
  rw [if_neg (by omega), if_pos bits]

theorem unpack_pack_full (full : 2 ^ 52 ≤ significand) (fits : significand < 2 ^ 53)
    (least : -1074 ≤ exponent) (finite : exponent ≤ 971) :
    UnpackedFloat.unpack Format.binary64 (UnpackedFloat.pack Format.binary64
      (.finite sign significand exponent positive)) = .finite sign significand exponent positive := by
  obtain ⟨biased, shifted⟩ := Int.eq_ofNat_of_zero_le (show 0 ≤ exponent + 1075 by omega)
  have value : (BitVec.ofNat 11 biased).toNat = biased := by
    rw [BitVec.toNat_ofNat, Nat.mod_eq_of_lt (by omega)]
  have notTop : BitVec.ofNat 11 biased ≠ -1#_ := exponent_ne_top (by omega)
  have notZero : BitVec.ofNat 11 biased ≠ 0#_ := of_nat_ne_zero (by omega) (by omega)
  rw [pack_full sign positive full fits least finite, shifted, Int.toNat_natCast,
    unpack_components, if_neg notTop, if_neg notZero]
  congr 1
  · rw [one_append_to_nat, BitVec.toNat_ofNat]
    omega
  · rw [value]
    omega

end Full

theorem FullBetween.unpack_pack {least greatest : Int} {value : UnpackedFloat}
    (full : FullBetween least greatest value) (normal : -1074 ≤ least) (finite : greatest ≤ 971) :
    UnpackedFloat.unpack Format.binary64 (UnpackedFloat.pack Format.binary64 value) = value := by
  obtain ⟨significand, exponent, positive, rfl, atLeast, atMost, low, high⟩ := full
  exact unpack_pack_full .positive positive atLeast atMost (normal.trans low) (high.trans finite)

end Packing

end Cohesion
