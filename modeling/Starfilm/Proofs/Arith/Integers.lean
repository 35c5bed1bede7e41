import Mathlib
import Starfilm.Proofs.Arith.PlaceOrder

/-!
# Integers in double precision

The numbers of double precision reach beyond `2 ^ 1000`, and so every integer of sixty-four bits is
near a finite one (`Double.isFinite_ofInt`). Rounding can make a number longer by one place, which
is nothing on that scale: it is enough to follow how large the exponent can become
(`Double.Fits`).
-/

namespace Starfilm

namespace Double

open Float.Model (Format UnpackedFloat)
open Float.Model.UnpackedFloat

/-! ## Exponents -/

/-- The exponent is small enough for a finite number. -/
def Fits : UnpackedFloat → Prop
  | .zero _ => True
  | .finite _ _ e _ => e ≤ 971
  | _ => False

theorem toNat_unpackExponent (b : BitVec Format.binary64.numBits) :
    (unpackExponent b).toNat = b.toNat / 2 ^ 52 % 2 ^ 11 := by
  rw [unpackExponent, BitVec.toNat_cast, BitVec.extractLsb_toNat, Nat.shiftRight_eq_div_pow]
  rfl

theorem ne_allOnes_iff {v : BitVec 11} : v ≠ -1#11 ↔ v.toNat < 2047 := by
  have hlt := v.isLt
  rw [Ne, ← BitVec.toNat_inj, BitVec.neg_one_eq_allOnes, BitVec.toNat_allOnes]
  omega

/-- A pattern stands for a finite number when not all bits of its exponent are set. -/
theorem isFinite_iff (x : Double) :
    Arith.isFinite x = true ↔
      (@unpackExponent Format.binary64 x.bits.toBitVec).toNat < 2047 := by
  have hbits := x.bits.toNat_lt
  rw [toNat_unpackExponent, UInt64.toNat_toBitVec]
  change decide (x.magnitude < 0x7FF0000000000000) = true ↔ _
  rw [decide_eq_true_iff, magnitude_eq_mod]
  omega

theorem unpackExponent_pack {u : UnpackedFloat} (h : Fits u) :
    (unpackExponent (pack Format.binary64 u)).toNat < 2047 := by
  cases u with
  | infinity s => exact h.elim
  | notANumber => exact h.elim
  | zero s =>
    rw [pack, packedZero, unpackExponent_packComponents]
    decide
  | finite s m e hm =>
    have he : e ≤ 971 := h
    have hbias : (e + Format.binary64.exponentBias +
        Format.binary64.mantissaBitsWithoutImplicit).toNat ≤ 2046 := by
      change (e + (1023 : ℕ) + (52 : ℕ)).toNat ≤ 2046
      omega
    rw [pack]
    dsimp only
    generalize (e + Format.binary64.exponentBias +
        Format.binary64.mantissaBitsWithoutImplicit).toNat = biased at *
    have hexp : 2 ^ Format.binary64.exponentBits = 2048 := rfl
    rw [if_neg (by omega)]
    split_ifs
    · rw [unpackExponent_packComponents, BitVec.toNat_ofNat]
      omega
    · rw [unpackExponent_packComponents]
      decide

theorem fits_unpack {b : BitVec Format.binary64.numBits}
    (h : (unpackExponent b).toNat < 2047) : Fits (unpack Format.binary64 b) := by
  rw [unpack]
  dsimp only
  rw [if_neg (ne_allOnes_iff.2 h)]
  split_ifs with hzero
  · trivial
  · have hexp : (unpackExponent b).toNat = 0 := by
      rw [hzero]
      rfl
    change ((unpackExponent b).toNat : Int) - (1075 : Int) + 1 ≤ 971
    omega
  · change ((unpackExponent b).toNat : Int) - (1075 : Int) ≤ 971
    omega

theorem fits_neg {u : UnpackedFloat} (h : Fits u) : Fits u.neg := by
  cases u <;> exact h

/-! ## Rounding -/

theorem mantissa_shiftRight_le (em : ExtendedMantissa) (n : ℕ) :
    (em >>> n).mantissa ≤ em.mantissa := by
  change (n.repeat ExtendedMantissa.shiftRightOne em).mantissa ≤ _
  induction n with
  | zero => exact Nat.le_refl _
  | succ n ih => exact (Nat.div_le_self _ 2).trans ih

theorem roundedMantissa_le (em : ExtendedMantissa) : em.roundedMantissa ≤ em.mantissa + 1 := by
  rw [ExtendedMantissa.roundedMantissa]
  cases em.accuracy with
  | exact => exact Nat.le_succ _
  | inexact o =>
    cases o with
    | lt => exact Nat.le_succ _
    | eq =>
      change em.mantissa + em.mantissa % 2 ≤ em.mantissa + 1
      omega
    | gt => exact Nat.le_refl _

theorem mantissa_ofMantissaAndAccuracy (m : ℕ) (a : Accuracy) :
    (ExtendedMantissa.ofMantissaAndAccuracy m a).mantissa = m := by
  cases a with
  | exact => rfl
  | inexact o => cases o <;> rfl

theorem log2_le_log2 {m n : ℕ} (h : m ≤ n) : m.log2 ≤ n.log2 := by
  rw [Nat.log2_eq_log_two, Nat.log2_eq_log_two]
  exact Nat.log_mono_right h

/-- Shifting to the exponent of the format makes no mantissa longer, and the exponent greater by no
more than the length of the mantissa. -/
theorem shiftToTargetExponent_le {m k : ℕ} {e : Int} (a : Accuracy) (hm : m.log2 ≤ k)
    (hlow : -1074 ≤ e + k) :
    (shiftToTargetExponent Format.binary64 m e a).1.mantissa ≤ m ∧
      (shiftToTargetExponent Format.binary64 m e a).2 ≤ e + k := by
  constructor
  · have hshift := mantissa_shiftRight_le (ExtendedMantissa.ofMantissaAndAccuracy m a)
      (Format.binary64.targetExponent (Float.Model.totalExponent m e) - e).toNat
    rwa [mantissa_ofMantissaAndAccuracy] at hshift
  · change e + ((max ((m.log2 : Int) + 1 + e - (53 : ℕ)) (-1074) - e).toNat : Int) ≤ e + k
    omega

/-- The exponent of what is rounded is bounded by the length of the mantissa. -/
theorem fits_roundWithAccuracy (s : Sign) {m k : ℕ} {e : Int} (a : Accuracy) (hm : m < 2 ^ k)
    (hlow : -1074 ≤ e) (hhigh : e + 2 * k ≤ 971) :
    Fits (roundWithAccuracy Format.binary64 s m e a) := by
  have hlog {n : ℕ} (hn : n ≤ 2 ^ k) : n.log2 ≤ k := by
    have h := log2_le_log2 hn
    rwa [Nat.log2_two_pow] at h
  rw [roundWithAccuracy]
  obtain ⟨hmantissa, hexponent⟩ :=
    shiftToTargetExponent_le (e := e) a (hlog hm.le) (by omega)
  have hge : e ≤ (shiftToTargetExponent Format.binary64 m e a).2 := by
    change e ≤ e + ((_ : Int).toNat : Int)
    omega
  generalize shiftToTargetExponent Format.binary64 m e a = shifted at *
  have hrounded := roundedMantissa_le shifted.1
  dsimp only
  split_ifs
  · trivial
  · have hlength : shifted.1.roundedMantissa.log2 ≤ k := hlog (by omega)
    have h := (shiftToTargetExponent_le (e := shifted.2) .exact hlength (by omega)).2
    exact h.trans (by omega)

theorem fits_ofNat {n : ℕ} (hn : n < 2 ^ 64) : Fits (UnpackedFloat.ofNat Format.binary64 n) := by
  rw [UnpackedFloat.ofNat, UnpackedFloat.ofInt, UnpackedFloat.normalize]
  cases hcompare : compare (n : Int) 0 with
  | lt => exact absurd (Int.compare_eq_lt.1 hcompare) (by omega)
  | eq => trivial
  | gt =>
    have hpos : 0 < n := by
      have h := Int.compare_eq_gt.1 hcompare
      omega
    have hlog : n.log2 < 64 := (Nat.log2_lt hpos.ne').2 hn
    let shift : ℕ := (0 - max ((n.log2 : Int) + 1 + 0 - (53 : ℕ)) (-1074)).toNat
    have hshift : shift ≤ 52 := by omega
    have hsmall : n <<< shift < 2 ^ 116 := by
      rw [Nat.shiftLeft_eq]
      calc n * 2 ^ shift < 2 ^ 64 * 2 ^ shift := Nat.mul_lt_mul_of_pos_right hn (by positivity)
        _ ≤ 2 ^ 64 * 2 ^ 52 := Nat.mul_le_mul_left _ (Nat.pow_le_pow_right (by decide) hshift)
        _ = 2 ^ 116 := by norm_num
    exact fits_roundWithAccuracy (e := 0 - shift) .positive .exact hsmall (by omega) (by omega)

/-- **Every integer of sixty-four bits is near a finite number.** -/
theorem isFinite_ofInt {i : Int} (hi : i.natAbs < 2 ^ 64) : Arith.isFinite (ofInt i) = true := by
  have hsize : i.natAbs.toUInt64.toNat = i.natAbs := Nat.mod_eq_of_lt hi
  have hfits : Fits (UnpackedFloat.ofNat Format.binary64 i.natAbs.toUInt64.toNat) :=
    fits_ofNat (hsize.trans_lt hi)
  rw [ofInt, if_pos (show i.natAbs < 0x10000000000000000 from hi), isFinite_iff]
  by_cases hneg : i < 0
  · simp only [hneg, if_true]
    exact unpackExponent_pack (fits_neg (fits_unpack (unpackExponent_pack hfits)))
  · simp only [hneg, if_false]
    exact unpackExponent_pack hfits

end Double

end Starfilm
