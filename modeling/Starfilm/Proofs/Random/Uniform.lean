import Starfilm.Proofs.Arith.Exact
import Starfilm.Proofs.Random.Draws
import Starfilm.Random.Uniform

/-!
# Exact uniform distributions

In exact numbers no scale has to be lowered: the largest fraction leads to the upper end of a range
that includes it (`Uniform.upTo_finite`), and stays below one that does not
(`Uniform.below_finite`). So a value lies between the offset of its distribution and the largest
value (`Uniform.ensures_sample`).
-/

namespace Starfilm

open Draws Exact

variable {K : Type} [Field K] [LinearOrder K] [IsStrictOrderedRing K] [FloorRing K]

namespace Fraction

theorem upper_mem (w : UInt64) : 0 ≤ upper w ∧ upper w ≤ 0xFFFFFFFFFFFFF := by
  have hw := w.toNat_lt
  have hshift : (w >>> 12).toNat = w.toNat / 2 ^ 12 := by
    rw [UInt64.toNat_shiftRight, Nat.shiftRight_eq_div_pow]
    rfl
  rw [upper, hshift]
  omega

/-- The largest fraction, as a number. -/
def largest (K : Type) [Field K] : K := ((0xFFFFFFFFFFFFF : ℤ) : K) / ((0x10000000000000 : ℤ) : K)

omit [FloorRing K] in
theorem largest_pos : 0 < largest K :=
  div_pos (Int.cast_pos.2 (by decide)) (Int.cast_pos.2 (by decide))

omit [FloorRing K] in
theorem largest_lt_one : largest K < 1 :=
  (div_lt_one (Int.cast_pos.2 (by decide))).2 (Int.cast_lt.2 (by decide))

theorem maxUnit_finite : (maxUnit : Exact K) = finite (largest K) :=
  finite_div _ _ (Int.cast_ne_zero.2 (by decide))

theorem exists_unit (w : UInt64) :
    ∃ u : K, (unit w : Exact K) = finite u ∧ 0 ≤ u ∧ u ≤ largest K := by
  have hunit : (0 : K) < ((0x10000000000000 : ℤ) : K) := Int.cast_pos.2 (by decide)
  obtain ⟨hnonneg, hle⟩ := upper_mem w
  refine ⟨_, finite_div _ _ hunit.ne', ?_, ?_⟩
  · exact div_nonneg (Int.cast_nonneg hnonneg) hunit.le
  · exact div_le_div_of_nonneg_right (Int.cast_le.2 hle) hunit.le

end Fraction

namespace Uniform

theorem lowered_of_fits {F : Type} [Arith F] {tooLarge : F → Bool} {scale : F}
    (h : tooLarge scale = false) (n : ℕ) : lowered tooLarge n scale = scale := by
  cases n with
  | zero => rfl
  | succ n => rw [lowered, h, if_neg Bool.false_ne_true]

variable {a b : K}

theorem largest_finite (c : K) :
    largest (finite a) (finite c) = finite (c * Fraction.largest K + a) := by
  rw [largest, Fraction.maxUnit_finite, finite_mul, finite_add]

theorem below_finite (h : a < b) :
    below (finite a) (finite b) = .ok ⟨finite a, finite (b - a)⟩ := by
  have hfits : (b - a) * Fraction.largest K + a < b := by
    have hlt := mul_lt_of_lt_one_right (sub_pos.2 h) Fraction.largest_lt_one
    linarith
  have hlowered : lowered (fun s => Arith.le (finite b) (largest (finite a) s)) maxSteps
      (finite (b - a)) = finite (b - a) :=
    lowered_of_fits (by rw [largest_finite, le_finite, decide_eq_false (not_le.2 hfits)]) _
  rw [below, finite_sub, lt_finite, decide_eq_true h, isFinite_finite, hlowered]
  rfl

theorem upTo_finite (h : a ≤ b) :
    upTo (finite a) (finite b) = .ok ⟨finite a, finite ((b - a) / Fraction.largest K)⟩ := by
  have hne : Fraction.largest K ≠ 0 := Fraction.largest_pos.ne'
  have hfits : (b - a) / Fraction.largest K * Fraction.largest K + a = b := by
    rw [div_mul_cancel₀ _ hne, sub_add_cancel]
  have hlowered : lowered (fun s => Arith.lt (finite b) (largest (finite a) s)) maxSteps
      (finite ((b - a) / Fraction.largest K)) = finite ((b - a) / Fraction.largest K) :=
    lowered_of_fits (by rw [largest_finite, hfits, lt_finite, decide_eq_false (lt_irrefl b)]) _
  rw [upTo, finite_sub, Fraction.maxUnit_finite, finite_div _ _ hne, le_finite, decide_eq_true h,
    isFinite_finite, hlowered]
  rfl

/-- **The values of a distribution** lie between its offset and the largest of them. -/
theorem ensures_sample {S : Type} [Source S] {E : Failure → Prop} {I : S → Prop}
    (hI : Source.Keeps I) {c : K} (hc : 0 ≤ c) :
    (sample ⟨finite a, finite c⟩ : Draws S (Exact K)).Ensures E I fun x =>
      ∃ y : K, x = finite y ∧ a ≤ y ∧ y ≤ c * Fraction.largest K + a := by
  refine (Ensures.word hI).bind fun w _ => .pure ?_
  obtain ⟨u, hu, hnonneg, hle⟩ := Fraction.exists_unit (K := K) w
  refine ⟨u * c + a, by rw [hu, finite_mul, finite_add], ?_, ?_⟩
  · exact le_add_of_nonneg_left (mul_nonneg hnonneg hc)
  · rw [mul_comm u c]
    exact add_le_add_left (mul_le_mul_of_nonneg_left hle hc) a

end Uniform

end Starfilm
