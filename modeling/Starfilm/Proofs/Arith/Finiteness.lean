import Starfilm.Proofs.Arith.Values

/-!
# Finite results

What is not finite stays so: the operands of a finite sum, difference or product are finite
(`Double.isFinite_of_add` and those that follow it). Finite operands, on the other hand, may have a
result that is too large. They have a finite one as long as powers of two bound them that are far
enough from the largest one (`Double.AtMost`).
-/

namespace Starfilm

namespace Double

open Float.Model (Format UnpackedFloat)
open Float.Model.UnpackedFloat

/-! ## What is not finite -/

/-- What the machine takes for an infinity or for no number. -/
def IsExceptional : UnpackedFloat → Prop
  | .notANumber => True
  | .infinity _ => True
  | .zero _ => False
  | .finite _ _ _ _ => False

section Exceptional

variable {u v : UnpackedFloat} {x y : Double}

theorem isExceptional_unpacked (hx : ¬Arith.isFinite x = true) : IsExceptional x.unpacked := by
  rw [unpacked_eq]
  by_cases hnumber : x.isNumber = true
  · rw [read_eq_infinite hnumber hx]
    trivial
  · rw [read_eq_nan (Bool.eq_false_of_not_eq_true hnumber)]
    trivial

theorem not_isFinite_ofUnpacked (hu : IsExceptional u) :
    ¬Arith.isFinite (ofUnpacked u) = true := by
  rw [isFinite_iff_magnitude_lt, not_lt]
  cases u with
  | notANumber => decide
  | infinity s => rw [magnitude_ofUnpacked_infinity]
  | zero s => exact hu.elim
  | finite s m e hm => exact hu.elim

theorem isExceptional_add (h : IsExceptional u ∨ IsExceptional v) :
    IsExceptional (UnpackedFloat.add Format.binary64 u v) := by
  cases u <;> cases v
  case infinity.infinity s t =>
    rw [UnpackedFloat.add]
    split_ifs <;> trivial
  case zero.zero | zero.finite | finite.zero | finite.finite => exact h.elim False.elim False.elim
  all_goals trivial

theorem isExceptional_neg (h : IsExceptional u) : IsExceptional u.neg := by
  cases u
  case zero | finite => exact h.elim
  all_goals trivial

theorem isExceptional_mul (h : IsExceptional u ∨ IsExceptional v) :
    IsExceptional (UnpackedFloat.mul Format.binary64 u v) := by
  cases u <;> cases v
  case zero.zero | zero.finite | finite.zero | finite.finite => exact h.elim False.elim False.elim
  all_goals trivial

/-- **What is not finite stays so** in sums. -/
theorem isFinite_of_add (h : Arith.isFinite (x + y) = true) :
    Arith.isFinite x = true ∧ Arith.isFinite y = true := by
  by_contra hxy
  rw [not_and_or] at hxy
  exact not_isFinite_ofUnpacked
    (isExceptional_add (hxy.imp isExceptional_unpacked isExceptional_unpacked)) h

theorem isFinite_of_sub (h : Arith.isFinite (x - y) = true) :
    Arith.isFinite x = true ∧ Arith.isFinite y = true := by
  by_contra hxy
  rw [not_and_or] at hxy
  refine not_isFinite_ofUnpacked (isExceptional_add (u := x.unpacked) (v := y.unpacked.neg) ?_) ?_
  · exact hxy.imp isExceptional_unpacked fun hy => isExceptional_neg (isExceptional_unpacked hy)
  · rwa [← unpacked_sub_eq, ← sub_eq]

theorem isFinite_of_mul (h : Arith.isFinite (x * y) = true) :
    Arith.isFinite x = true ∧ Arith.isFinite y = true := by
  by_contra hxy
  rw [not_and_or] at hxy
  exact not_isFinite_ofUnpacked
    (isExceptional_mul (hxy.imp isExceptional_unpacked isExceptional_unpacked)) h

end Exceptional

/-! ## Bounds -/

/-- Finite, and no larger than a power of two. -/
structure AtMost (x : Double) (k : ℕ) : Prop where
  isFinite : Arith.isFinite x = true
  size_le : x.size ≤ 2 ^ k

section Bounds

variable {x y : Double} {k l : ℕ}

/-- Nothing above the nearest double to a number that a power of two bounds. -/
theorem atMost_of_magnitude_le {q : ℚ} (hx : x.magnitude ≤ nearest q) (hq₀ : 0 ≤ q)
    (hq : q ≤ 2 ^ k) (hk : k ≤ 1023) : AtMost x k := by
  have hcanonical : Canonical (2 ^ 52) (k - 52 : ℤ) := ⟨by norm_num, by omega, .inl le_rfl⟩
  have hpow : ((2 ^ 52 : ℕ) : ℚ) * 2 ^ (k - 52 : ℤ) = 2 ^ k := by
    rw [Nat.cast_pow, Nat.cast_ofNat, ← zpow_natCast, ← zpow_natCast, ← zpow_add₀ two_ne_zero]
    congr 1
    push_cast
    ring
  have hmagnitude : x.magnitude ≤ place (2 ^ 52) (k - 52) := by
    rw [← nearest_of_canonical hcanonical, hpow]
    exact hx.trans (nearest_le_nearest hq₀ hq)
  obtain ⟨hx, hsize⟩ := size_le_of_magnitude_le_place hcanonical (by omega) hmagnitude
  exact ⟨hx, hsize.trans_eq hpow⟩

/-- A number that a power of two bounds is rounded to one that it bounds. -/
theorem Rounds.atMost {q : ℚ} (h : Rounds x q) (hq : |q| ≤ 2 ^ k) (hk : k ≤ 1023) : AtMost x k :=
  atMost_of_magnitude_le (h.magnitude_eq.trans_le (min_le_right _ _)) (abs_nonneg q) hq hk

theorem AtMost.mono (h : AtMost x k) (hkl : k ≤ l) : AtMost x l :=
  ⟨h.isFinite, h.size_le.trans (pow_le_pow_right₀ one_le_two hkl)⟩

theorem AtMost.neg (h : AtMost x k) : AtMost (-x) k :=
  ⟨(isFinite_neg x).2 h.isFinite, (size_neg x).trans_le h.size_le⟩

theorem AtMost.abs_value_le (h : AtMost x k) : |x.value| ≤ 2 ^ k := abs_value x ▸ h.size_le

variable (hx : AtMost x k)

include hx

/-- What lies between two such numbers is one. -/
theorem AtMost.of_le_of_le {z : Double} (hy : AtMost y k) (hxz : Arith.le x z = true)
    (hzy : Arith.le z y = true) : AtMost z k := by
  have hz : Arith.isFinite z = true := by
    have hxf := isFinite_iff_magnitude_lt.1 hx.isFinite
    have hyf := isFinite_iff_magnitude_lt.1 hy.isFinite
    have hxz' := (le_iff.1 hxz).2.2
    have hzy' := (le_iff.1 hzy).2.2
    rw [isFinite_iff_magnitude_lt]
    rw [← natAbs_valueKey] at hxf hyf ⊢
    omega
  refine ⟨hz, ?_⟩
  rw [le_iff_value_le hx.isFinite hz] at hxz
  rw [le_iff_value_le hz hy.isFinite] at hzy
  rw [← abs_value, abs_le]
  exact ⟨(abs_le.1 hx.abs_value_le).1.trans hxz, hzy.trans (abs_le.1 hy.abs_value_le).2⟩

theorem AtMost.add (hy : AtMost y k) (hk : k < 1023) : AtMost (x + y) (k + 1) := by
  refine (rounds_add hx.isFinite hy.isFinite).atMost ?_ hk
  calc |x.value + y.value| ≤ |x.value| + |y.value| := abs_add_le _ _
    _ ≤ 2 ^ k + 2 ^ k := add_le_add hx.abs_value_le hy.abs_value_le
    _ = 2 ^ (k + 1) := by ring

theorem AtMost.sub (hy : AtMost y k) (hk : k < 1023) : AtMost (x - y) (k + 1) := by
  refine (rounds_sub hx.isFinite hy.isFinite).atMost ?_ hk
  calc |x.value - y.value| ≤ |x.value| + |y.value| := abs_sub _ _
    _ ≤ 2 ^ k + 2 ^ k := add_le_add hx.abs_value_le hy.abs_value_le
    _ = 2 ^ (k + 1) := by ring

theorem AtMost.mul (hy : AtMost y l) (hkl : k + l ≤ 1023) : AtMost (x * y) (k + l) := by
  refine (rounds_mul hx.isFinite hy.isFinite).atMost ?_ hkl
  rw [abs_mul, pow_add]
  gcongr
  · exact hx.abs_value_le
  · exact hy.abs_value_le

omit hx in
theorem AtMost.div (hx : AtMost x (k + l)) (hy : Arith.isFinite y = true) (hyl : 2 ^ l ≤ y.size)
    (hk : k ≤ 1023) : AtMost (x / y) k := by
  have hpos : 0 < y.size := (by positivity : (0 : ℚ) < 2 ^ l).trans_le hyl
  refine atMost_of_magnitude_le (q := x.size / y.size) ?_ (div_nonneg x.size_nonneg hpos.le) ?_ hk
  · rw [magnitude_div hx.isFinite hy hpos.ne']
    exact min_le_right _ _
  · rw [div_le_iff₀ hpos]
    calc x.size ≤ 2 ^ k * 2 ^ l := hx.size_le.trans_eq (pow_add 2 k l)
      _ ≤ 2 ^ k * y.size := by gcongr

omit hx in
/-- A part of a finite number is finite. -/
theorem AtMost.isFinite_mul (hx : Arith.isFinite x = true) (hy : AtMost y 0) :
    Arith.isFinite (x * y) = true := by
  have hle : x.size * y.size ≤ x.size :=
    mul_le_of_le_one_right x.size_nonneg (hy.size_le.trans_eq (pow_zero 2))
  have hnearest := nearest_le_nearest (mul_nonneg x.size_nonneg y.size_nonneg) hle
  rw [nearest_size hx] at hnearest
  rw [isFinite_iff_magnitude_lt, magnitude_mul hx hy.isFinite]
  exact (min_le_right _ _).trans_lt (hnearest.trans_lt (isFinite_iff_magnitude_lt.1 hx))

end Bounds

end Double

end Starfilm
