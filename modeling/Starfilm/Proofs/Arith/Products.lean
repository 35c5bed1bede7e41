import Starfilm.Proofs.Arith.Integers

/-!
# Products in double precision

A product of finite numbers may be too large to be finite, but it is a number
(`Double.isNumber_mul`). What is a number is brought to an integer between any two bounds
(`Double.toInt_mem`).
-/

namespace Starfilm

namespace Double

open Float.Model (Format UnpackedFloat)
open Float.Model.UnpackedFloat

/-! ## Fractions -/

theorem toNat_unpackMantissa (b : BitVec Format.binary64.numBits) :
    (unpackMantissa b).toNat = b.toNat % 2 ^ 52 := by
  rw [unpackMantissa, BitVec.toNat_cast, BitVec.extractLsb_toNat, Nat.shiftRight_zero]
  rfl

/-- A pattern stands for a number when its exponent is that of a finite one, or when it has no
fraction. -/
theorem isNumber_iff (x : Double) : x.isNumber = true ↔
    (@unpackExponent Format.binary64 x.bits.toBitVec).toNat < 2047 ∨
      (@unpackMantissa Format.binary64 x.bits.toBitVec).toNat = 0 := by
  have hbits := x.bits.toNat_lt
  rw [toNat_unpackExponent, toNat_unpackMantissa, UInt64.toNat_toBitVec, isNumber,
    decide_eq_true_iff, magnitude_eq_mod]
  omega

theorem unpackMantissa_pack {u : UnpackedFloat} (hu : u ≠ .notANumber) :
    (unpackExponent (pack Format.binary64 u)).toNat < 2047 ∨
      (unpackMantissa (pack Format.binary64 u)).toNat = 0 := by
  cases u with
  | notANumber => exact absurd rfl hu
  | infinity s =>
    rw [pack, packedInfinity, unpackMantissa_packComponents]
    exact .inr rfl
  | zero s =>
    rw [pack, packedZero, unpackMantissa_packComponents]
    exact .inr rfl
  | finite s m e hm =>
    by_cases he : e ≤ 971
    · exact .inl (unpackExponent_pack he)
    · -- what is too large is packed as infinity
      have hbiased : 2 ^ Format.binary64.exponentBits ≤ (e + Format.binary64.exponentBias +
          Format.binary64.mantissaBitsWithoutImplicit).toNat + 1 := by
        change 2048 ≤ (e + (1023 : ℕ) + (52 : ℕ)).toNat + 1
        omega
      rw [pack]
      dsimp only
      rw [if_pos hbiased, packedInfinity, unpackMantissa_packComponents]
      exact .inr rfl

/-! ## Products -/

theorem mul_ne_notANumber {u v : UnpackedFloat} (hu : Fits u) (hv : Fits v) :
    UnpackedFloat.mul Format.binary64 u v ≠ .notANumber := by
  cases u with
  | infinity s => exact hu.elim
  | notANumber => exact hu.elim
  | zero s =>
    cases v with
    | infinity s' => exact hv.elim
    | notANumber => exact hv.elim
    | zero s' => exact fun h => by cases h
    | finite s' m' e' hm' => exact fun h => by cases h
  | finite s m e hm =>
    cases v with
    | infinity s' => exact hv.elim
    | notANumber => exact hv.elim
    | zero s' => exact fun h => by cases h
    | finite s' m' e' hm' =>
      rw [UnpackedFloat.mul, roundWithAccuracy]
      dsimp only
      split_ifs <;> exact fun h => by cases h

/-- A finite number as the machine multiplies it. -/
theorem fits_toFloat {x : Double} (hx : Arith.isFinite x = true) :
    Fits x.toFloat.toModel.unpack := by
  have hexponent := (isFinite_iff x).1 hx
  exact fits_unpack (unpackExponent_pack (fits_unpack hexponent))

/-- **A product of finite numbers is a number.** -/
theorem isNumber_mul {x y : Double} (hx : Arith.isFinite x = true) (hy : Arith.isFinite y = true) :
    (x * y).isNumber = true := by
  rw [isNumber_iff]
  exact unpackMantissa_pack (mul_ne_notANumber (fits_toFloat hx) (fits_toFloat hy))

/-! ## Integers from numbers -/

theorem toInt_mem (r : Rounding) {lo hi : ℤ} (h : lo ≤ hi) {x : Double} (hx : x.isNumber = true) :
    lo ≤ Arith.toInt r lo hi x ∧ Arith.toInt r lo hi x ≤ hi := by
  change lo ≤ toInt r lo hi x ∧ toInt r lo hi x ≤ hi
  rw [toInt]
  cases hread : x.read with
  | nan =>
    have hinfinity : format.infinity = 0x7FF0000000000000 := rfl
    rw [isNumber, decide_eq_true_iff] at hx
    rw [read, Binary.Format.read, hinfinity] at hread
    split_ifs at hread with hlt heq
    · dsimp only at hread
      split_ifs at hread
    · exact absurd (by omega) heq
  | infinite => cases x.negative <;> simp [h]
  | finite m e =>
    dsimp only
    omega

end Double

end Starfilm
