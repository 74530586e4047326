import Mathlib
import ScriptKernel.Number.Binary64

/-!
Numbers and their bits. A bit pattern that is not one of an undefined number is
the pattern of the number made from it, so numbers without a sign are known by
their bits, and their parts are the fields of these.
-/

namespace ScriptKernel.Binary64

open Float.Model (Format UnpackedFloat)
open Float.Model.UnpackedFloat

theorem sign_toBitVec_ofBitVec (s : BitVec 1) : (Sign.ofBitVec s).toBitVec = s := by
  revert s
  decide

theorem pack_fields (v : BitVec 64) :
    @packComponents Format.binary64 (Sign.ofBitVec (@unpackSign Format.binary64 v)) (@unpackExponent Format.binary64 v)
      (@unpackMantissa Format.binary64 v) = v := by
  rw [packComponents, sign_toBitVec_ofBitVec]
  apply BitVec.eq_of_getLsbD_eq
  intro i inside
  have bound : i < 64 := inside
  simp only [unpackSign, unpackExponent, unpackMantissa, BitVec.getLsbD_append, BitVec.getLsbD_cast,
    BitVec.getLsbD_extractLsb]
  by_cases mantissa : i < 52
  · simp [mantissa]
  · by_cases exponent : i < 63
    · have field : i - 52 < 11 := by omega
      have place : 52 + (i - 52) = i := by omega
      simp [mantissa, field, place]
    · obtain rfl : i = 63 := by omega
      simp
      rfl

theorem pack_normal (sign : Sign) (mantissa : BitVec 52) (exponent : BitVec 11) (finite : exponent ≠ -1#11)
    (positive : 0 < (1#1 ++ mantissa).toNat) :
    pack Format.binary64 (.finite sign (1#1 ++ mantissa).toNat ((exponent.toNat : Int) - (1023 + 52)) positive) =
      packComponents Format.binary64 sign exponent mantissa := by
  have value : (1#1 ++ mantissa).toNat = 2 ^ 52 + mantissa.toNat := by
    have joined := Nat.two_pow_add_eq_or_of_lt mantissa.isLt 1
    rw [BitVec.toNat_append, BitVec.toNat_ofNat, Nat.shiftLeft_eq, Nat.mul_comm, ← joined, Nat.mul_one]
  have small : mantissa.toNat < 2 ^ 52 := mantissa.isLt
  have digits : (2 ^ 52 + mantissa.toNat).log2 = 52 := by
    rw [Nat.log2_eq_iff (by omega)]
    omega
  have below : exponent.toNat < 2047 := by
    have bound := exponent.isLt
    refine Nat.lt_of_not_le fun most => finite ?_
    apply BitVec.eq_of_toNat_eq
    change exponent.toNat = 2047
    omega
  have biased : ((exponent.toNat : Int) - (1023 + 52) + Format.binary64.exponentBias +
      Format.binary64.mantissaBitsWithoutImplicit).toNat = exponent.toNat := by
    change ((exponent.toNat : Int) - (1023 + 52) + (1023 : Nat) + (52 : Nat)).toNat = exponent.toNat
    omega
  have inRange : ¬2 ^ Format.binary64.exponentBits ≤ exponent.toNat + 1 := by
    change ¬2 ^ 11 ≤ exponent.toNat + 1
    omega
  have full : 52 + 1 = Format.binary64.mantissaBits := rfl
  have sameExponent : BitVec.ofNat 11 exponent.toNat = exponent := BitVec.ofNat_toNat 11 exponent
  have sameMantissa : BitVec.ofNat 52 (2 ^ 52 + mantissa.toNat) = mantissa := by
    apply BitVec.eq_of_toNat_eq
    rw [BitVec.toNat_ofNat]
    omega
  rw [pack]
  simp only [biased, if_neg inRange, value, digits, if_pos full]
  exact congr (congrArg (packComponents Format.binary64 sign) sameExponent) sameMantissa

theorem pack_subnormal (sign : Sign) (mantissa : BitVec 52) (positive : 0 < mantissa.toNat) :
    pack Format.binary64 (.finite sign mantissa.toNat (0 - (1023 + 52) + 1) positive) =
      packComponents Format.binary64 sign 0 mantissa := by
  have digits : mantissa.toNat.log2 < 52 := (Nat.log2_lt (by omega)).2 mantissa.isLt
  have inRange : ¬2 ^ Format.binary64.exponentBits ≤ ((0 - (1023 + 52) + 1 : Int) +
      Format.binary64.exponentBias + Format.binary64.mantissaBitsWithoutImplicit).toNat + 1 := by decide
  have short : ¬mantissa.toNat.log2 + 1 = Format.binary64.mantissaBits := by
    change ¬mantissa.toNat.log2 + 1 = 53
    omega
  rw [pack]
  simp only [if_neg inRange, if_neg short]
  exact congrArg (packComponents Format.binary64 sign 0) (BitVec.ofNat_toNat 52 mantissa)

theorem pack_unpack (v : BitVec 64)
    (number : @unpackExponent Format.binary64 v = -1#11 → @unpackMantissa Format.binary64 v = 0#52) :
    pack Format.binary64 (unpack Format.binary64 v) = v := by
  have whole := pack_fields v
  rw [unpack]
  by_cases special : @unpackExponent Format.binary64 v = -1#11
  · have empty := number special
    rw [if_pos special, if_pos empty, pack, packedInfinity]
    rw [special, empty] at whole
    exact whole
  · rw [if_neg special]
    by_cases least : @unpackExponent Format.binary64 v = 0#11
    · rw [if_pos least]
      by_cases empty : @unpackMantissa Format.binary64 v = 0#52
      · rw [dif_pos empty, pack, packedZero]
        rw [least, empty] at whole
        exact whole
      · rw [dif_neg empty]
        have positive : 0 < (@unpackMantissa Format.binary64 v).toNat := by
          refine Nat.pos_of_ne_zero fun zero => empty ?_
          exact BitVec.eq_of_toNat_eq zero
        rw [least] at whole ⊢
        exact (pack_subnormal _ _ positive).trans whole
    · rw [if_neg least]
      exact (pack_normal _ _ _ special _).trans whole

theorem unpackExponent_toNat (v : BitVec 64) :
    (@unpackExponent Format.binary64 v).toNat = v.toNat / 2 ^ 52 % 2 ^ 11 := by
  change (v.extractLsb 62 52).toNat = _
  rw [BitVec.extractLsb_toNat, Nat.shiftRight_eq_div_pow]

theorem unpackMantissa_toNat (v : BitVec 64) :
    (@unpackMantissa Format.binary64 v).toNat = v.toNat % 2 ^ 52 := by
  change (v.extractLsb 51 0).toNat = _
  rw [BitVec.extractLsb_toNat, Nat.shiftRight_zero]

theorem toBits_signed {bits : Nat} (most : bits ≤ 2047 * twoTo 52) :
    (signed false bits).toBits.toNat = bits := by
  have bound : bits ≤ 2047 * 2 ^ 52 := most
  have value : (BitVec.ofNat 64 bits).toNat = bits := by
    rw [BitVec.toNat_ofNat]
    omega
  have number : @unpackExponent Format.binary64 (BitVec.ofNat 64 bits) = -1#11 →
      @unpackMantissa Format.binary64 (BitVec.ofNat 64 bits) = 0#52 := by
    intro special
    have field := congrArg BitVec.toNat special
    rw [unpackExponent_toNat, value] at field
    change bits / 2 ^ 52 % 2 ^ 11 = 2047 at field
    apply BitVec.eq_of_toNat_eq
    rw [unpackMantissa_toNat, value]
    change bits % 2 ^ 52 = 0
    omega
  change (pack Format.binary64 (unpack Format.binary64 (BitVec.ofNat 64 bits))).toNat = bits
  rw [pack_unpack _ number, value]

/-- The magnitude and exponent of a finite number: 53 binary digits, or fewer
at the least exponent. -/
structure Regular (magnitude : Nat) (exponent : Int) : Prop where
  small : magnitude < twoTo 53
  least : -1074 ≤ exponent
  most : exponent ≤ 971
  full : twoTo 52 ≤ magnitude ∨ exponent = -1074

theorem parts?_signed {bits : Nat} (finite : bits < 2047 * twoTo 52) :
    ∃ magnitude exponent, parts? (signed false bits) = some ⟨false, magnitude, exponent⟩ ∧
      Regular magnitude exponent ∧ packed magnitude exponent = bits := by
  have bound : bits < 2047 * 2 ^ 52 := finite
  have kept := toBits_signed (Nat.le_of_lt finite)
  have positive : (bits / twoTo 63 == 1) = false := by
    rw [beq_eq_false_iff_ne]
    change bits / 2 ^ 63 ≠ 1
    omega
  have field : bits / twoTo 52 % twoTo 11 = bits / 2 ^ 52 := by
    change bits / 2 ^ 52 % 2 ^ 11 = bits / 2 ^ 52
    omega
  have notSpecial : ¬bits / 2 ^ 52 = 2047 := by omega
  rw [parts?, kept]
  simp only [field, positive, if_neg notSpecial]
  by_cases least : bits / 2 ^ 52 = 0
  · refine ⟨bits % twoTo 52, -1074, by rw [if_pos least], ⟨?_, by decide, by decide, Or.inr rfl⟩, ?_⟩
    · change bits % 2 ^ 52 < 2 ^ 53
      omega
    · have small : bits % twoTo 52 < twoTo 52 := by
        change bits % 2 ^ 52 < 2 ^ 52
        omega
      rw [packed, if_pos small]
      change bits % 2 ^ 52 = bits
      omega
  · refine ⟨twoTo 52 + bits % twoTo 52, (bits / 2 ^ 52 : Nat) - 1075, by rw [if_neg least],
      ⟨?_, by omega, by omega, Or.inl (Nat.le_add_right _ _)⟩, ?_⟩
    · change 2 ^ 52 + bits % 2 ^ 52 < 2 ^ 53
      omega
    · have full : ¬2 ^ 52 + bits % 2 ^ 52 < 2 ^ 52 := by omega
      rw [packed]
      change (if 2 ^ 52 + bits % 2 ^ 52 < 2 ^ 52 then _ else
        min ((((bits / 2 ^ 52 : Nat) : Int) - 1075 + 1075).toNat * 2 ^ 52 + (2 ^ 52 + bits % 2 ^ 52 - 2 ^ 52))
          (2047 * 2 ^ 52)) = bits
      rw [if_neg full]
      omega

end ScriptKernel.Binary64
