import ContentStream.Numeral
import Mathlib

/-!
# Numerals and values

The value of a machine number determines its bits, and so the numeral of a value has that value. The
bits are a sign, an exponent and a significand. They are taken apart and put together again, and of
what comes apart as not a number there is only one pattern that a value can have.

A number can be cut off to an integer of 32 or of 64 bits. Either way the fraction is dropped, and
what is too large is held at the bound. So the integer of 32 bits is the one of 64 bits, held within
the narrower bounds.

## Main results

* `Numeral.value_ofValue`: the numeral of a value has that value.
* `toInt_toInt32_eq`: the integer of 32 bits, as it depends on the one of 64 bits.
-/

namespace ContentStream

open Float.Model Float.Model.UnpackedFloat

/-! ### Bits -/

section Bits

variable (bits : BitVec Format.binary64.numBits)

/-- The parts of a machine number make it up. They are a sign, an exponent and a significand, in so
many bits each. -/
theorem packComponents_unpack : packComponents Format.binary64 (Sign.ofBitVec (unpackSign bits))
    (unpackExponent bits) (unpackMantissa bits) = bits := by
  have hsign : (Sign.ofBitVec (unpackSign bits)).toBitVec = unpackSign bits := by
    generalize unpackSign bits = sign
    revert sign
    decide
  rw [packComponents, hsign]
  refine BitVec.eq_of_getLsbD_eq fun i hi => ?_
  change i < 64 at hi
  rw [unpackSign, unpackExponent, unpackMantissa, BitVec.getLsbD_append, BitVec.getLsbD_append]
  simp only [BitVec.getLsbD_cast, BitVec.getLsbD_extract]
  split
  · simp
    omega
  · split
    · rw [show 52 + (i - 52) = i by omega]
      simp
      omega
    · obtain rfl : i = 63 := by omega
      rfl

/-- The significand of a normal number has an implicit leading bit. -/
theorem toNat_one_append (mantissa : BitVec 52) :
    (1#1 ++ mantissa).toNat = 2 ^ 52 + mantissa.toNat := by
  rw [BitVec.toNat_append, ← Nat.shiftLeft_add_eq_or_of_lt mantissa.isLt]
  rfl

/-- What comes apart is put together again, if it is not one of the many patterns that are not a
number. -/
theorem pack_unpack (hvalid : Format.binary64.Valid bits) :
    UnpackedFloat.pack Format.binary64 (UnpackedFloat.unpack Format.binary64 bits) = bits := by
  refine Eq.trans ?_ (packComponents_unpack bits)
  have hm : (unpackMantissa bits).toNat < 2 ^ 52 := BitVec.isLt _
  have he : (unpackExponent bits).toNat < 2 ^ 11 := BitVec.isLt _
  unfold UnpackedFloat.unpack
  simp only
  split
  next hfull =>
    split
    next hzero =>
      rw [hfull, hzero]
      rfl
    next hmantissa =>
      rw [packComponents_unpack]
      exact (hvalid.eq_packedNaN hfull hmantissa).symm
  next hfull =>
    split
    next hempty =>
      split
      next hzero =>
        rw [hempty, hzero]
        rfl
      next hmantissa =>
        have hlog : (unpackMantissa bits).toNat.log2 < 52 :=
          (Nat.log2_lt fun h => hmantissa (BitVec.eq_of_toNat_eq h)).mpr hm
        simp only [UnpackedFloat.pack]
        rw [if_neg (by rw [hempty]; decide), if_neg (by change ¬ _ = 1 + 52; omega), hempty]
        simp
    next hempty =>
      have hexponent : (unpackExponent bits).toNat ≠ 2 ^ 11 - 1 := fun h =>
        hfull (BitVec.eq_of_toNat_eq h)
      have hlog : (1#1 ++ unpackMantissa bits).toNat.log2 = 52 := by
        rw [toNat_one_append]
        exact (Nat.log2_eq_iff (by omega)).mpr ⟨by omega, by omega⟩
      simp only [UnpackedFloat.pack]
      rw [if_neg (by omega), if_pos (by rw [hlog]; rfl)]
      congr 1
      · refine BitVec.eq_of_toNat_eq ?_
        rw [BitVec.toNat_ofNat]
        omega
      · refine BitVec.eq_of_toNat_eq ?_
        rw [BitVec.toNat_ofNat, toNat_one_append]
        omega

end Bits

/-- The numeral of a value **has that value**. -/
@[simp]
theorem Numeral.value_ofValue (x : Float) : (ofValue x).value = x := by
  obtain ⟨⟨bits, hvalid⟩⟩ := x
  simp only [value, ofValue, Float.ofBits, Float.toBits, Float.Model.ofBits, Float.Model.pack,
    pack_unpack bits.toBitVec hvalid]

/-! ### Cutting off -/

/-- An integer held within the bounds of 32 bits: what is beyond a bound becomes that bound. -/
theorem toInt_ofIntClamp_32 (z : Int) :
    (Int32.ofIntClamp z).toInt = max (-2 ^ 31) (min (2 ^ 31 - 1) z) := by
  have hmin : Int32.minValue.toInt = -2 ^ 31 := rfl
  have hmax : Int32.maxValue.toInt = 2 ^ 31 - 1 := rfl
  unfold Int32.ofIntClamp
  split
  · split
    · rw [Int32.toInt_ofIntLE]
      omega
    · omega
  · omega

/-- An integer held within the bounds of 64 bits, in the same way. -/
theorem toInt_ofIntClamp_64 (z : Int) :
    (Int64.ofIntClamp z).toInt = max (-2 ^ 63) (min (2 ^ 63 - 1) z) := by
  have hmin : Int64.minValue.toInt = -2 ^ 63 := rfl
  have hmax : Int64.maxValue.toInt = 2 ^ 63 - 1 := rfl
  unfold Int64.ofIntClamp
  split
  · split
    · rw [Int64.toInt_ofIntLE]
      omega
    · omega
  · omega

/-- The integer of **32 bits** is the one of 64 bits, held within the narrower bounds. There is a
case for each kind of machine number, and infinities are at the bounds already. -/
theorem toInt_toInt32_eq (x : Float) : x.toModel.toInt32.toInt =
    max (-2 ^ 31) (min (2 ^ 31 - 1) x.toModel.toInt64.toInt) := by
  rw [Float.Model.toInt32, Float.Model.toInt64, UnpackedFloat.toInt32, UnpackedFloat.toInt64,
    toInt_ofIntClamp_32, toInt_ofIntClamp_64]
  cases x.toModel.unpack with
  | notANumber => rfl
  | infinity sign => cases sign <;> rfl
  | zero sign => rfl
  | finite sign m e hm =>
      simp only [UnpackedFloat.toInt]
      omega

end ContentStream
