import Cohesion.Decimal.Binary
import Cohesion.Proofs.Weight.Magnitude

/-!
# Significands and exponents of doubles

A finite double is a significand of at most 53 bits and an exponent, and only the least exponent has
shorter significands. This form is packed into the bits of the double and comes back from them, so
the double is known by its form, and the form by the number that it stands for.
-/

namespace Cohesion

open Float.Model Float.Model.UnpackedFloat

section Packing

variable (sign : Sign) {significand : Nat} (positive : 0 < significand)

/-- A short significand is packed as it is, under the exponent zero. -/
theorem pack_short (short : significand < 2 ^ 52) :
    UnpackedFloat.pack Format.binary64 (.finite sign significand (-1074) positive) =
      packComponents Format.binary64 sign 0#11 (BitVec.ofNat 52 significand) := by
  have length : significand.log2 < 52 := (Nat.log2_lt positive.ne').mpr short
  have bits : Format.binary64.mantissaBits = 53 := rfl
  have bias : Format.binary64.exponentBias = 1023 := rfl
  simp only [UnpackedFloat.pack, bias, bits]
  rw [if_neg (by decide), if_neg (by omega)]

theorem unpack_pack_short (short : significand < 2 ^ 52) :
    UnpackedFloat.unpack Format.binary64 (UnpackedFloat.pack Format.binary64
      (.finite sign significand (-1074) positive)) = .finite sign significand (-1074) positive := by
  have restored : (BitVec.ofNat 52 significand).toNat = significand := by
    rw [BitVec.toNat_ofNat, Nat.mod_eq_of_lt short]
  have nonzero : BitVec.ofNat 52 significand ≠ 0#_ := of_nat_ne_zero positive short
  rw [pack_short sign positive short, unpack_components, if_neg (by decide), if_pos rfl,
    dif_neg nonzero]
  congr 1

end Packing

section Bits

variable (bits : BitVec Format.binary64.numBits)

theorem mantissa_bits : (unpackMantissa bits).toNat = bits.toNat % 2 ^ 52 := by
  simp [unpackMantissa, BitVec.extractLsb_toNat]

theorem exponent_bits : (unpackExponent bits).toNat = bits.toNat / 2 ^ 52 % 2 ^ 11 := by
  simp [unpackExponent, BitVec.extractLsb_toNat, Nat.shiftRight_eq_div_pow]

theorem sign_bit : (unpackSign bits).toNat = bits.toNat / 2 ^ 63 := by
  have bound : bits.toNat < 2 ^ 64 := bits.isLt
  simp [unpackSign, BitVec.extractLsb_toNat, Nat.shiftRight_eq_div_pow]
  omega

end Bits

/-- The significands and exponents that doubles have. -/
structure Canonical (significand : Nat) (exponent : Int) : Prop where
  fits : significand < 2 ^ 53
  least : -1074 ≤ exponent
  full : 2 ^ 52 ≤ significand ∨ exponent = -1074

theorem Canonical.unpack_pack {significand : Nat} {exponent : Int}
    (canonical : Canonical significand exponent) (finite : exponent ≤ 971) (sign : Sign)
    (positive : 0 < significand) :
    UnpackedFloat.unpack Format.binary64 (UnpackedFloat.pack Format.binary64
      (.finite sign significand exponent positive)) = .finite sign significand exponent positive := by
  rcases Nat.lt_or_ge significand (2 ^ 52) with short | full
  · obtain rfl := canonical.full.resolve_left (Nat.not_le_of_lt short)
    exact unpack_pack_short sign positive short
  · exact unpack_pack_full sign positive full canonical.fits canonical.least finite

theorem float_eq_of_unpack {first second : Float}
    (same : first.toModel.unpack = second.toModel.unpack) : first = second := by
  obtain ⟨⟨firstBits, firstValid⟩⟩ := first
  obtain ⟨⟨secondBits, secondValid⟩⟩ := second
  have words : firstBits = secondBits :=
    UInt64.toBitVec_inj.mp ((unpack_inj_of_valid firstValid secondValid).mp same)
  subst words
  rfl

section Values

def valueOf (sign : Sign) (significand : Nat) (exponent : Int) : UnpackedFloat :=
  if positive : 0 < significand then .finite sign significand exponent positive else .zero sign

variable {sign : Sign} {significand : Nat} {exponent : Int}

theorem value_of_pos (positive : 0 < significand) :
    valueOf sign significand exponent = .finite sign significand exponent positive :=
  dif_pos positive

theorem value_of_zero : valueOf sign 0 exponent = .zero sign := dif_neg (Nat.lt_irrefl 0)

theorem neg_value_of :
    (valueOf sign significand exponent).neg = valueOf (-sign) significand exponent := by
  rw [valueOf, valueOf]
  split <;> rfl

theorem value_of_finite : (valueOf sign significand exponent).isFinite = true ∧
    (valueOf sign significand exponent).isInf = false := by
  rw [valueOf]
  split
  · exact ⟨rfl, rfl⟩
  · exact ⟨rfl, rfl⟩

theorem value_of_inj {sign' : Sign} {significand' : Nat} {exponent' : Int}
    (same : valueOf sign significand exponent = valueOf sign' significand' exponent') :
    sign = sign' ∧ (significand : ℚ) * 2 ^ exponent = significand' * 2 ^ exponent' := by
  rw [valueOf, valueOf] at same
  split at same
  · split at same
    · injection same with isSign isSignificand isExponent
      rw [isSign, isSignificand, isExponent]
      exact ⟨rfl, rfl⟩
    · cases same
  · next none =>
      split at same
      · cases same
      · next none' =>
          injection same with isSign
          rw [Nat.eq_zero_of_not_pos none, Nat.eq_zero_of_not_pos none', Nat.cast_zero, zero_mul,
            zero_mul]
          exact ⟨isSign, rfl⟩

theorem Canonical.unpack_pack_value (canonical : Canonical significand exponent)
    (finite : exponent ≤ 971) (sign : Sign) :
    UnpackedFloat.unpack Format.binary64 (UnpackedFloat.pack Format.binary64
      (valueOf sign significand exponent)) = valueOf sign significand exponent := by
  rcases Nat.eq_zero_or_pos significand with rfl | positive
  · rw [value_of_zero]
    cases sign <;> rfl
  · rw [value_of_pos positive]
    exact canonical.unpack_pack finite sign positive

/-- Only one canonical form stands for a number. -/
theorem Canonical.unique {other : Nat} {otherExponent : Int}
    (canonical : Canonical significand exponent) (otherCanonical : Canonical other otherExponent)
    (same : (significand : ℚ) * 2 ^ exponent = other * 2 ^ otherExponent) :
    significand = other ∧ exponent = otherExponent := by
  have order : ∀ {first second : Nat} {low high : Int}, Canonical first low → Canonical second high →
      (first : ℚ) * 2 ^ low = second * 2 ^ high → high ≤ low := by
    intro first second low high firstCanonical secondCanonical equal
    by_contra above
    have full := secondCanonical.full.resolve_right (by have := firstCanonical.least; omega)
    have lower := significand_ge high full
    have upper := significand_lt low firstCanonical.fits
    rw [equal] at upper
    have := two_zpow_lt (lower.trans_lt upper)
    omega
  have exponents : exponent = otherExponent :=
    le_antisymm (order otherCanonical canonical same.symm) (order canonical otherCanonical same)
  subst exponents
  exact ⟨Nat.cast_injective (mul_right_cancel₀ (two_zpow_pos exponent).ne' same), rfl⟩

end Values

section Parts

open Decimal

def signOf (negative : Bool) : Sign := if negative then .negative else .positive

theorem sign_of_bit (bits : BitVec Format.binary64.numBits) :
    Sign.ofBitVec (unpackSign bits) = signOf (decide (2 ^ 63 ≤ bits.toNat)) := by
  have bound : bits.toNat < 2 ^ 64 := bits.isLt
  have bit := sign_bit bits
  rcases Nat.lt_or_ge bits.toNat (2 ^ 63) with below | above
  · have none : unpackSign bits = 0#1 := BitVec.eq_of_toNat_eq (bit.trans (Nat.div_eq_of_lt below))
    rw [none, decide_eq_false (Nat.not_le_of_lt below)]
    rfl
  · have one : unpackSign bits = 1#1 := by
      apply BitVec.eq_of_toNat_eq
      rw [bit, BitVec.toNat_ofNat]
      omega
    rw [one, decide_eq_true above]
    rfl

/-- The value that bits have, by their exponent field. -/
theorem unpack_of_field (bits : BitVec Format.binary64.numBits) (field fraction : Nat)
    (isField : bits.toNat / 2 ^ 52 % 2 ^ 11 = field) (isFraction : bits.toNat % 2 ^ 52 = fraction) :
    UnpackedFloat.unpack Format.binary64 bits =
      if field = 2047 then
        if fraction = 0 then .infinity (signOf (decide (2 ^ 63 ≤ bits.toNat))) else .notANumber
      else if field = 0 then valueOf (signOf (decide (2 ^ 63 ≤ bits.toNat))) fraction (-1074)
      else valueOf (signOf (decide (2 ^ 63 ≤ bits.toNat))) (2 ^ 52 + fraction) (field - 1075) := by
  have whole := unpack_components (Sign.ofBitVec (unpackSign bits)) (unpackExponent bits)
    (unpackMantissa bits)
  rw [packComponents_unpackSign_unpackExponent_unpackMantissa, sign_of_bit] at whole
  rw [whole]
  generalize signOf (decide (2 ^ 63 ≤ bits.toNat)) = sign
  rw [← exponent_bits] at isField
  rw [← mantissa_bits] at isFraction
  have top : field = 2047 ↔ unpackExponent bits = -1#11 :=
    isField ▸ ⟨fun same => BitVec.eq_of_toNat_eq same, fun same => same ▸ rfl⟩
  have bottom : field = 0 ↔ unpackExponent bits = 0#11 :=
    isField ▸ ⟨fun same => BitVec.eq_of_toNat_eq same, fun same => same ▸ rfl⟩
  have empty : fraction = 0 ↔ unpackMantissa bits = 0#52 :=
    isFraction ▸ ⟨fun same => BitVec.eq_of_toNat_eq same, fun same => same ▸ rfl⟩
  simp only [top, bottom, empty]
  subst isField isFraction
  split_ifs with atTop none atZero none
  · rfl
  · rfl
  · rw [empty.mpr none, value_of_zero]
  · have positive : 0 < (unpackMantissa bits).toNat :=
      Nat.pos_of_ne_zero fun zero => none (empty.mp zero)
    rw [value_of_pos positive, atZero]
    rfl
  · have positive : 0 < 2 ^ 52 + (unpackMantissa bits).toNat := Nat.add_pos_left (by decide) _
    rw [value_of_pos positive]
    congr 1
    exact one_append_to_nat _

/-- A finite double has the parts that its bits have in the model of the format. -/
theorem of_float_eq {value : Float} (finite : value.isFinite = true) :
    ∃ negative significand exponent,
      Binary.ofFloat value = .finite negative significand exponent ∧
      Canonical significand exponent ∧ exponent ≤ 971 ∧
      value.toModel.unpack = valueOf (signOf negative) significand exponent := by
  obtain ⟨bits, same⟩ : ∃ bits, value.toModel.toBits.toBitVec.toNat = bits := ⟨_, rfl⟩
  obtain ⟨field, isField⟩ : ∃ field, bits / 2 ^ 52 % 2 ^ 11 = field := ⟨_, rfl⟩
  obtain ⟨fraction, isFraction⟩ : ∃ fraction, bits % 2 ^ 52 = fraction := ⟨_, rfl⟩
  have short : fraction < 2 ^ 52 := isFraction ▸ Nat.mod_lt _ (by decide)
  have range : field < 2 ^ 11 := isField ▸ Nat.mod_lt _ (by decide)
  have unpacked := unpack_of_field value.toModel.toBits.toBitVec field fraction
    (same ▸ isField) (same ▸ isFraction)
  have parts : Binary.ofFloat value = if field = 2047 then
        if fraction = 0 then .infinite (decide (2 ^ 63 ≤ bits)) else .notANumber
      else if field = 0 then .finite (decide (2 ^ 63 ≤ bits)) fraction (-1074)
      else .finite (decide (2 ^ 63 ≤ bits)) (2 ^ 52 + fraction) ((field : Int) - 1075) := by
    subst same isField isFraction
    rfl
  change value.toModel.unpack = _ at unpacked
  change value.toModel.unpack.isFinite = true at finite
  rw [unpacked, same] at finite ⊢
  rw [parts]
  split_ifs at finite ⊢ with top none bottom
  · cases finite
  · cases finite
  · exact ⟨_, _, _, rfl, ⟨by omega, by decide, .inr rfl⟩, by decide, rfl⟩
  · exact ⟨_, _, _, rfl, ⟨by omega, by omega, .inl (by omega)⟩, by omega, rfl⟩

end Parts

end Cohesion
