import Mathlib
import ScratchLegacy.Proofs.WrittenNumbers

/-!
# Integers that doubles hold

A double has a significand of 53 bits, so it holds every integer below `2 ^ 53` as it is.
This module follows such an integer through the bits: it is moved up until its first bit
is the first one of the significand (`Number.isNormal_shifted`), rounding finds nothing to
round off (`Number.roundWithAccuracy_scaled`), and the three fields that are packed into a
word are those that are unpacked from it (`Number.unpack_pack`).

The result is that reading an integer as a double and asking which integer the double is
gives the integer back (`Number.value?_ofInt`, `Exact.toInt?_of_value`).
-/

namespace ScratchLegacy.Number

open Float.Model Float.Model.UnpackedFloat

/-! ## Normal significands -/

/-- **A significand that has all its bits**: the first one of its 53 bits is set. -/
def IsNormal (m : Nat) : Prop := 2 ^ 52 ≤ m ∧ m < 2 ^ 53

/-- How far a number below `2 ^ 53` is moved up to have all its bits. -/
def shift (n : Nat) : Nat := 52 - n.log2

section Normal

variable {m n : Nat} {e : Int}

/-- A normal significand is not zero. -/
theorem IsNormal.pos (h : IsNormal m) : 0 < m := Nat.lt_of_lt_of_le (Nat.two_pow_pos 52) h.1

/-- The first bit of a normal significand, moved up. -/
theorem IsNormal.log2_scaled (h : IsNormal m) (k : Nat) : (m * 2 ^ k).log2 = 52 + k := by
  have hlow := Nat.mul_le_mul_right (2 ^ k) h.1
  have hhigh := Nat.mul_lt_mul_of_pos_right h.2 (Nat.two_pow_pos k)
  rw [← Nat.pow_add] at hlow hhigh
  have hne : m * 2 ^ k ≠ 0 := Nat.ne_of_gt (Nat.mul_pos h.pos (Nat.two_pow_pos k))
  refine (Nat.log2_eq_iff hne).mpr ⟨hlow, ?_⟩
  rwa [Nat.add_right_comm]

/-- **A positive number below `2 ^ 53` is normal once it is moved up.** -/
theorem isNormal_shifted (hpos : 0 < n) (hn : n < 2 ^ 53) : IsNormal (n * 2 ^ shift n) := by
  have hlog : n.log2 < 53 := (Nat.log2_lt (Nat.ne_of_gt hpos)).mpr hn
  have hlow := Nat.mul_le_mul_right (2 ^ shift n) (Nat.log2_self_le (Nat.ne_of_gt hpos))
  have hhigh := Nat.mul_lt_mul_of_pos_right (Nat.lt_log2_self (n := n))
    (Nat.two_pow_pos (shift n))
  rw [← Nat.pow_add] at hlow hhigh
  have hlowest : n.log2 + shift n = 52 := by unfold shift; omega
  have hhighest : n.log2 + 1 + shift n = 53 := by omega
  rw [hlowest] at hlow
  rw [hhighest] at hhigh
  exact ⟨hlow, hhigh⟩

/-! ## Rounding -/

/-- The exponent that rounding aims at is that of the normal significand. -/
theorem targetExponent_scaled (h : IsNormal m) (he : -1074 ≤ e) (k : Nat) :
    Format.binary64.targetExponent (totalExponent (m * 2 ^ k) (e - k)) = e := by
  simp only [Format.targetExponent, totalExponent, h.log2_scaled, Format.mantissaBits,
    Format.minExponent]
  omega

/-- **Moving down what was moved up** leaves no bits behind. -/
theorem shiftRight_scaled (m k : Nat) :
    ExtendedMantissa.ofMantissaAndAccuracy (m * 2 ^ k) .exact >>> k
      = ExtendedMantissa.ofMantissaAndAccuracy m .exact := by
  induction k generalizing m with
  | zero =>
    rw [Nat.pow_zero, Nat.mul_one]
    rfl
  | succ k ih =>
    have hscaled : m * 2 ^ (k + 1) = m * 2 * 2 ^ k := by rw [Nat.pow_succ', Nat.mul_assoc]
    show ExtendedMantissa.shiftRightOne
      (ExtendedMantissa.ofMantissaAndAccuracy (m * 2 ^ (k + 1)) .exact >>> k) = _
    rw [hscaled, ih]
    simp [ExtendedMantissa.shiftRightOne, ExtendedMantissa.ofMantissaAndAccuracy]

/-- **A normal significand is moved down without loss.** -/
theorem shiftToTargetExponent_scaled (h : IsNormal m) (he : -1074 ≤ e) (k : Nat) :
    shiftToTargetExponent Format.binary64 (m * 2 ^ k) (e - k) .exact
      = (ExtendedMantissa.ofMantissaAndAccuracy m .exact, e) := by
  have hdistance : (e - (e - k)).toNat = k := by omega
  simp only [shiftToTargetExponent, targetExponent_scaled h he, shiftToExponent, hdistance,
    shiftRight_scaled, Int.sub_add_cancel]

/-- **Rounding a number with 53 bits changes nothing**, however far it is moved up. -/
theorem roundWithAccuracy_scaled (h : IsNormal m) (he : -1074 ≤ e) (sign : Sign) (k : Nat) :
    roundWithAccuracy Format.binary64 sign (m * 2 ^ k) (e - k) .exact
      = .finite sign m e h.pos := by
  have hagain : shiftToTargetExponent Format.binary64 m e .exact
      = (ExtendedMantissa.ofMantissaAndAccuracy m .exact, e) := by
    simpa using shiftToTargetExponent_scaled h he 0
  have hrounded : (ExtendedMantissa.ofMantissaAndAccuracy m .exact).roundedMantissa = m := rfl
  rw [roundWithAccuracy, shiftToTargetExponent_scaled h he]
  simp only [hrounded, hagain]
  exact dif_neg (Nat.ne_of_gt h.pos)

/-! ## Packing -/

/-- The first bit of a normal significand is not packed, and is put back. -/
theorem IsNormal.toNat_append (h : IsNormal m) : (1#1 ++ BitVec.ofNat 52 m).toNat = m := by
  have hlow := h.1
  have hhigh := h.2
  rw [BitVec.toNat_append, BitVec.toNat_ofNat, BitVec.toNat_ofNat, Nat.shiftLeft_eq,
    Nat.one_mod, Nat.one_mul, Nat.or_comm,
    Nat.or_two_pow_eq_add_of_lt (Nat.mod_lt m (Nat.two_pow_pos 52))]
  omega

/-- **What is unpacked is what was packed**, for a number that is neither too large nor too
small to have all its bits. -/
theorem unpack_pack (h : IsNormal m) (sign : Sign) (hlow : -1074 ≤ e) (hhigh : e ≤ 971) :
    unpack Format.binary64 (pack Format.binary64 (.finite sign m e h.pos))
      = .finite sign m e h.pos := by
  have hlog : m.log2 = 52 := by simpa using h.log2_scaled 0
  -- the field of the exponent is neither that of the infinities nor that of the zeros
  have hbiased : (e + Format.binary64.exponentBias + Format.binary64.mantissaBitsWithoutImplicit)
      = e + 1075 := by
    show e + 1023 + 52 = e + 1075
    omega
  have hfield : (BitVec.ofNat 11 (e + 1075).toNat).toNat = (e + 1075).toNat := by
    rw [BitVec.toNat_ofNat]
    omega
  have hfinite : BitVec.ofNat 11 (e + 1075).toNat ≠ -1#11 := by
    intro heq
    have h2047 : (e + 1075).toNat = 2047 := hfield.symm.trans (congrArg BitVec.toNat heq)
    omega
  have hnormal : BitVec.ofNat 11 (e + 1075).toNat ≠ 0#11 := by
    intro heq
    have h0 : (e + 1075).toNat = 0 := hfield.symm.trans (congrArg BitVec.toNat heq)
    omega
  have hrange : ¬ 2 ^ Format.binary64.exponentBits ≤ (e + 1075).toNat + 1 := by
    show ¬ 2048 ≤ (e + 1075).toNat + 1
    omega
  have hpack : pack Format.binary64 (.finite sign m e h.pos)
      = packComponents Format.binary64 sign (BitVec.ofNat 11 (e + 1075).toNat)
        (BitVec.ofNat 52 m) := by
    simp only [UnpackedFloat.pack, hbiased, if_neg hrange, hlog]
    rfl
  rw [hpack]
  simp only [UnpackedFloat.unpack, unpackMantissa_packComponents, unpackExponent_packComponents]
  rw [if_neg hfinite, if_neg hnormal, unpackSign_packComponents, Sign.ofBitVec_toBitVec]
  congr 1
  · exact h.toNat_append
  · rw [hfield]
    show ((e + 1075).toNat : Int) - (1023 + 52) = e
    omega

end Normal

/-! ## Integers -/

section Integers

variable {n : Nat}

/-- **A number below `2 ^ 53` is moved up and rounded without loss.** -/
theorem round_natCast (hpos : 0 < n) (hn : n < 2 ^ 53) :
    UnpackedFloat.round Format.binary64 .positive n 0
      = .finite .positive (n * 2 ^ shift n) (-shift n) (isNormal_shifted hpos hn).pos := by
  have hlog : n.log2 < 53 := (Nat.log2_lt (Nat.ne_of_gt hpos)).mpr hn
  have htarget : Format.binary64.targetExponent (totalExponent n 0) = -shift n := by
    simp only [Format.targetExponent, totalExponent, Format.mantissaBits, Format.minExponent, shift]
    omega
  have hlow : (-1074 : Int) ≤ -shift n := by unfold shift; omega
  have hdistance : (0 - -(shift n : Int)).toNat = shift n := by omega
  have hround := roundWithAccuracy_scaled (isNormal_shifted hpos hn) hlow .positive 0
  rw [Nat.pow_zero, Nat.mul_one, Int.natCast_zero, Int.sub_zero] at hround
  simp only [UnpackedFloat.round, htarget, decreaseExponent, hdistance, Nat.shiftLeft_eq]
  rw [Int.zero_sub, hround]

/-- **A word below `2 ^ 53` is converted without loss.** -/
theorem unpack_ofUInt64 (hpos : 0 < n) (hn : n < 2 ^ 53) :
    (Float.Model.ofUInt64 n.toUInt64).unpack
      = .finite .positive (n * 2 ^ shift n) (-shift n) (isNormal_shifted hpos hn).pos := by
  have htoNat : n.toUInt64.toNat = n := Nat.mod_eq_of_lt (by omega)
  have hcompare : compare (n : Int) 0 = .gt := Int.compare_eq_gt.mpr (by omega)
  have hround : UnpackedFloat.ofUInt64 Format.binary64 n.toUInt64
      = .finite .positive (n * 2 ^ shift n) (-shift n) (isNormal_shifted hpos hn).pos := by
    simp only [UnpackedFloat.ofUInt64, UnpackedFloat.ofNat, UnpackedFloat.ofInt,
      UnpackedFloat.normalize, htoNat, hcompare, Int.toNat_natCast, round_natCast hpos hn]
  show UnpackedFloat.unpack _ (UnpackedFloat.pack _ (UnpackedFloat.ofUInt64 _ _)) = _
  rw [hround, unpack_pack (isNormal_shifted hpos hn) .positive (by unfold shift; omega) (by omega)]

/-- **A natural number below `2 ^ 53` is read without loss.** -/
theorem unpack_ofScientific (hpos : 0 < n) (hn : n < 2 ^ 53) :
    (Float.ofScientific n false 0).toModel.unpack
      = .finite .positive (n * 2 ^ shift n) (-shift n) (isNormal_shifted hpos hn).pos := by
  have hlow : (-1074 : Int) ≤ -shift n := by unfold shift; omega
  -- it is converted, and multiplied by one
  have hone : (Float.exactlyRepresentablePowersOfTen[0]).toModel.unpack
      = .finite .positive (2 ^ 52) (-52) (Nat.two_pow_pos 52) := rfl
  have hproduct : (Float.ofScientific n false 0).toModel
      = Float.Model.mul (Float.Model.ofUInt64 n.toUInt64)
        (Float.exactlyRepresentablePowersOfTen[0]).toModel := by
    rw [Float.ofScientific, dif_pos ⟨hn, Nat.zero_le 22⟩]
    rfl
  have hround : UnpackedFloat.mul Format.binary64
      (.finite .positive (n * 2 ^ shift n) (-shift n) (isNormal_shifted hpos hn).pos)
      (.finite .positive (2 ^ 52) (-52) (Nat.two_pow_pos 52))
        = .finite .positive (n * 2 ^ shift n) (-shift n) (isNormal_shifted hpos hn).pos :=
    roundWithAccuracy_scaled (isNormal_shifted hpos hn) hlow .positive 52
  rw [hproduct, Float.Model.mul, hone, unpack_ofUInt64 hpos hn, hround]
  exact unpack_pack (isNormal_shifted hpos hn) .positive hlow (by omega)

/-- The value of a number that is moved up is the number. -/
theorem value_shifted (negative : Bool) (n : Nat) :
    Exact.value ⟨negative, n * 2 ^ shift n, -shift n⟩
      = (if negative then -(n : Int) else n : Int) := by
  have hunit : (2 : ℚ) ^ shift n ≠ 0 := pow_ne_zero _ two_ne_zero
  rw [Exact.value, Nat.cast_mul, Nat.cast_pow, Nat.cast_ofNat, zpow_neg, zpow_natCast,
    mul_assoc, mul_inv_cancel₀ hunit, mul_one]
  cases negative <;> simp

end Integers

end ScratchLegacy.Number

namespace ScratchLegacy

/-- The significand of an integer is divisible by what it is scaled down by. -/
theorem Exact.significand_of_value {v : Exact} {n : Int} {k : Nat} (h : v.value = n)
    (hk : v.exponent = -k) : v.significand = n.natAbs * 2 ^ k := by
  have hunit : (2 : ℚ) ^ k ≠ 0 := pow_ne_zero _ two_ne_zero
  have hscaled : (if v.negative then -1 else 1) * (v.significand : ℚ) = n * 2 ^ k := by
    rw [← h, value, hk, zpow_neg, zpow_natCast, mul_assoc, mul_assoc, inv_mul_cancel₀ hunit,
      mul_one]
  have hinteger : (if v.negative then -1 else 1) * (v.significand : Int) = n * 2 ^ k := by
    refine Int.cast_injective (α := ℚ) ?_
    push_cast
    exact hscaled
  have habs := congrArg Int.natAbs hinteger
  rw [Int.natAbs_mul, Int.natAbs_mul, Int.natAbs_pow, Int.natAbs_natCast] at habs
  cases hsign : v.negative <;> simpa [hsign] using habs

/-- **A binary value that is an integer is told to be one.** -/
theorem Exact.toInt?_of_value {v : Exact} {n : Int} (h : v.value = n) : v.toInt? = some n := by
  obtain ⟨m, hm⟩ : ∃ m, v.toInt? = some m := by
    unfold toInt?
    by_cases he : 0 ≤ v.exponent
    · exact ⟨_, by rw [if_pos he]; rfl⟩
    · obtain ⟨k, hk⟩ := Int.exists_eq_neg_ofNat (le_of_lt (not_le.mp he))
      have hdvd : v.significand % Nat.pow 2 (-v.exponent).toNat = 0 := by
        rw [hk, neg_neg, Int.toNat_natCast, significand_of_value h hk]
        exact Nat.mul_mod_left _ _
      exact ⟨_, by rw [if_neg he, if_pos hdvd]; rfl⟩
  have hvalue := (value_of_toInt? hm).symm.trans h
  rw [hm, Int.cast_injective hvalue]

namespace Number

/-- The double of a natural number below `2 ^ 53`, of either sign. -/
theorem ofFloat?_ofDecimal {n : Nat} (hpos : 0 < n) (hn : n < 2 ^ 53) (negative : Bool) :
    Exact.ofFloat? (ofDecimal negative n 0) = some ⟨negative, n * 2 ^ shift n, -shift n⟩ := by
  have hunpack := unpack_ofScientific hpos hn
  cases negative with
  | false =>
    show Exact.ofFloat? (Float.ofScientific n false 0) = _
    rw [Exact.ofFloat?, hunpack]
  | true =>
    have hneg : (-Float.ofScientific n false 0).toModel.unpack
        = .finite .negative (n * 2 ^ shift n) (-shift n) (isNormal_shifted hpos hn).pos := by
      show Float.Model.unpack (Float.Model.pack (Float.Model.unpack _).neg) = _
      rw [hunpack]
      exact unpack_pack (isNormal_shifted hpos hn) .negative (by unfold shift; omega) (by omega)
    show Exact.ofFloat? (-Float.ofScientific n false 0) = _
    rw [Exact.ofFloat?, hneg]

/-- **Reading an integer below `2 ^ 53` as a double loses nothing.** -/
theorem value?_ofInt {n : Int} (hn : n.natAbs < exactBound) : value? (ofInt n) = some (n : ℚ) := by
  rcases Nat.eq_zero_or_pos n.natAbs with hzero | hpos
  · have hexact : Exact.ofFloat? (ofInt 0) = some ⟨false, 0, 0⟩ := by decide +kernel
    rw [Int.natAbs_eq_zero.mp hzero, value?, hexact, Option.map_some, Exact.value]
    simp
  · have hsigned : (if decide (n < 0) then -(n.natAbs : Int) else n.natAbs) = n := by
      by_cases hneg : n < 0
      · rw [if_pos (decide_eq_true hneg)]
        omega
      · rw [if_neg (by simpa using hneg)]
        omega
    rw [value?, ofInt, ofFloat?_ofDecimal hpos hn, Option.map_some, value_shifted, hsigned]

end Number

end ScratchLegacy
