import Cohesion.Proofs.Weight.Order
import Cohesion.Proofs.Weight.Rounding

/-!
# Doubles without a sign

Sums of doubles without a sign have none, and none of them is the not-a-number.
-/

namespace Cohesion

open Float.Model Float.Model.UnpackedFloat

def UnsignedDouble (weight : Float) : Prop := Unsigned weight.toModel.unpack

namespace UnsignedDouble

theorem is_number {weight : Float} (unsigned : UnsignedDouble weight) : weight.isNaN = false := by
  change weight.toModel.unpack.isNaN = false
  rw [UnsignedDouble] at unsigned
  generalize weight.toModel.unpack = value at unsigned
  cases value with
  | notANumber => contradiction
  | infinity | zero | finite => rfl

theorem unsigned_normalize {mantissa : Int} (exponent : Int) (nonnegative : 0 ≤ mantissa) :
    Unsigned (UnpackedFloat.normalize Format.binary64 mantissa exponent .positive) := by
  rw [UnpackedFloat.normalize]
  split
  · next negative => exact absurd nonnegative (not_le_of_gt (compare_lt_iff_lt.mp negative))
  · trivial
  · exact unsigned_round_with_accuracy _ _ _

theorem unsigned_add {first second : UnpackedFloat} (firstUnsigned : Unsigned first)
    (secondUnsigned : Unsigned second) :
    Unsigned (UnpackedFloat.add Format.binary64 first second) := by
  rcases first with (_ | _) | _ | (_ | _) | ⟨_ | _, firstSignificand, firstExponent, _⟩ <;>
    rcases second with (_ | _) | _ | (_ | _) | ⟨_ | _, significand, exponent, _⟩ <;>
    first | contradiction | skip
  all_goals first | trivial | skip
  exact unsigned_normalize _ (Int.add_nonneg (Int.natCast_nonneg _) (Int.natCast_nonneg _))

theorem add {first second : Float} (firstUnsigned : UnsignedDouble first)
    (secondUnsigned : UnsignedDouble second) : UnsignedDouble (Weight.add first second) :=
  unsigned_unpack_pack (unsigned_add firstUnsigned secondUnsigned)

theorem zero : UnsignedDouble Weight.zero := by
  have value : (Weight.zero : Float).toModel.unpack = .zero .positive := rfl
  rw [UnsignedDouble, value]
  trivial

theorem accumulate {weights : List Float} (unsigned : ∀ weight ∈ weights, UnsignedDouble weight) :
    UnsignedDouble (Weight.accumulate weights) := by
  rw [Weight.accumulate]
  generalize held : (Weight.zero : Float) = start
  have startUnsigned : UnsignedDouble start := held ▸ zero
  clear held
  induction weights generalizing start with
  | nil => exact startUnsigned
  | cons weight rest induction =>
      rw [List.forall_mem_cons] at unsigned
      exact induction unsigned.2 _ (startUnsigned.add unsigned.1)

end UnsignedDouble

theorem FullBetween.is_finite {least greatest : Int} {weight : Float}
    (full : FullBetween least greatest weight.toModel.unpack) : weight.isFinite = true := by
  change weight.toModel.unpack.isFinite = true
  obtain ⟨_, _, _, value, _⟩ := full
  rw [value]
  rfl

theorem UnsignedDouble.nonnegative {weight : Float} (unsigned : UnsignedDouble weight) :
    Weight.zero ≤ weight := by
  have value : (Weight.zero : Float).toModel.unpack = .zero .positive := rfl
  have number := unsigned.is_number
  rw [float_le_iff, value, le_iff_order_key rfl number]
  rw [UnsignedDouble] at unsigned
  generalize weight.toModel.unpack = unpacked at unsigned
  rcases unpacked with (_ | _) | _ | (_ | _) | ⟨_ | _, significand, exponent, _⟩
  all_goals first | contradiction | skip
  · exact le_of_lt (Prod.Lex.toLex_lt_toLex.mpr (.inl (by decide)))
  · exact le_refl _
  · exact le_of_lt (Prod.Lex.toLex_lt_toLex.mpr (.inl Int.one_pos))

end Cohesion
