import Starfilm.Proofs.Arith.Monotone

/-!
# The sign of zero

Double precision has two zeros, equal in value and different in their bits. Taking the sign from a
zero (`Double.plain`) may be done before or after an operation: a result depends on the sign of a
zero among its operands only by the sign of a zero (`Double.plain_add`, `Double.plain_sub`,
`Double.plain_mul`). Comparisons and integers do not depend on it at all.

A difference keeps all its bits unless both of its operands are zeros (`Double.sub_plain`). A factor
of one changes no bit of a finite number (`Double.nat_one_mul`), and a zero that is added to a
number no more than the sign of a zero (`Double.plain_add_zero`).
-/

namespace Starfilm

namespace Double

open Float.Model (Format UnpackedFloat)
open Float.Model.UnpackedFloat

/-- A double without the sign of a zero. -/
def plain (x : Double) : Double := if x.magnitude = 0 then ⟨0⟩ else x

/-- Doubles that are the same up to the sign of a zero. -/
theorem plain_eq_plain_iff {x y : Double} :
    x.plain = y.plain ↔ x = y ∨ x.magnitude = 0 ∧ y.magnitude = 0 := by
  have hzero : (⟨0⟩ : Double).magnitude = 0 := rfl
  unfold plain
  split_ifs with hx hy hy
  · simp [hx, hy]
  · refine iff_of_false (fun h => hy ?_) fun h => hy ?_
    · rw [← h, hzero]
    · rcases h with rfl | h
      · exact hx
      · exact h.2
  · refine iff_of_false (fun h => hx ?_) fun h => hx ?_
    · rw [h, hzero]
    · rcases h with rfl | h
      · exact hy
      · exact h.1
  · simp [hx]

section Plain

variable (x : Double)

@[simp] theorem magnitude_plain : x.plain.magnitude = x.magnitude := by
  unfold plain
  split_ifs with h
  · rw [h]
    rfl
  · rfl

@[simp] theorem plain_plain : x.plain.plain = x.plain :=
  plain_eq_plain_iff.2 (by
    unfold plain
    split_ifs with h
    · exact .inr ⟨rfl, h⟩
    · exact .inl rfl)

@[simp] theorem valueKey_plain : x.plain.valueKey = x.valueKey := by
  unfold plain
  split_ifs with h
  · rw [valueKey, valueKey, h]
    split_ifs <;> rfl
  · rfl

@[simp] theorem isNumber_plain : x.plain.isNumber = x.isNumber := by
  rw [isNumber, isNumber, magnitude_plain]

@[simp] theorem isFinite_plain : Arith.isFinite x.plain = Arith.isFinite x := by
  change decide (x.plain.magnitude < _) = decide (x.magnitude < _)
  rw [magnitude_plain]

@[simp] theorem arith_magnitude_plain : Arith.magnitude x.plain = Arith.magnitude x := by
  unfold plain
  split_ifs with h
  · have hbits : x.bits &&& 0x7FFFFFFFFFFFFFFF = 0 := UInt64.toNat_inj.1 h
    exact congrArg Double.mk hbits.symm
  · rfl

@[simp] theorem toInt_plain (r : Rounding) (lo hi : ℤ) :
    Arith.toInt r lo hi x.plain = Arith.toInt r lo hi x := by
  unfold plain
  split_ifs with h
  · change toInt r lo hi ⟨0⟩ = toInt r lo hi x
    rw [toInt, toInt, read_of_magnitude_eq_zero h, read_of_magnitude_eq_zero (x := ⟨0⟩) rfl]
    dsimp only
    rw [scaled_zero, scaled_zero]
  · rfl

variable (y : Double)

@[simp] theorem le_plain_left : Arith.le x.plain y = Arith.le x y := by
  change (x.plain.isNumber && y.isNumber && decide (x.plain.valueKey ≤ y.valueKey)) = _
  rw [isNumber_plain, valueKey_plain]
  rfl

@[simp] theorem le_plain_right : Arith.le x y.plain = Arith.le x y := by
  change (x.isNumber && y.plain.isNumber && decide (x.valueKey ≤ y.plain.valueKey)) = _
  rw [isNumber_plain, valueKey_plain]
  rfl

end Plain

/-! ## Operations -/

@[simp] theorem plain_ofUnpacked_zero (s : Sign) : (ofUnpacked (.zero s)).plain = ⟨0⟩ :=
  if_pos (magnitude_ofUnpacked_zero s)

/-- The sum of two zeros has a sign of its own, but is a zero. -/
@[simp] theorem plain_ofUnpacked_ite (c : Prop) [Decidable c] (s t : Sign) :
    (ofUnpacked (if c then .zero s else .zero t)).plain = ⟨0⟩ := by
  split_ifs <;> exact plain_ofUnpacked_zero _

/-- A double is plain already, or is a zero. -/
theorem plain_cases (x : Double) :
    x.plain = x ∨ (∃ s, x.unpacked = .zero s) ∧ x.plain.unpacked = .zero .positive := by
  unfold plain
  split_ifs with h
  · refine .inr ⟨⟨x.sign, ?_⟩, rfl⟩
    rw [unpacked_eq, read_of_magnitude_eq_zero h, unpacked_finite_zero]
  · exact .inl rfl

/-- A binary operation whose results depend on the sign of a zero only by the sign of a zero. -/
structure IgnoresZeroSign (f : UnpackedFloat → UnpackedFloat → UnpackedFloat) : Prop where
  left (s t : Sign) (u : UnpackedFloat) :
    (ofUnpacked (f (.zero s) u)).plain = (ofUnpacked (f (.zero t) u)).plain
  right (s t : Sign) (u : UnpackedFloat) :
    (ofUnpacked (f u (.zero s))).plain = (ofUnpacked (f u (.zero t))).plain

theorem IgnoresZeroSign.plain {f : UnpackedFloat → UnpackedFloat → UnpackedFloat}
    (hf : IgnoresZeroSign f) (x y : Double) :
    (ofUnpacked (f x.plain.unpacked y.plain.unpacked)).plain =
      (ofUnpacked (f x.unpacked y.unpacked)).plain := by
  have hleft : (ofUnpacked (f x.plain.unpacked y.plain.unpacked)).plain =
      (ofUnpacked (f x.unpacked y.plain.unpacked)).plain := by
    rcases plain_cases x with h | ⟨⟨s, hx⟩, hplain⟩
    · rw [h]
    · rw [hx, hplain]
      exact hf.left _ _ _
  rw [hleft]
  rcases plain_cases y with h | ⟨⟨s, hy⟩, hplain⟩
  · rw [h]
  · rw [hy, hplain]
    exact hf.right _ _ _

theorem ignoresZeroSign_add : IgnoresZeroSign (UnpackedFloat.add Format.binary64) where
  left s t u := by
    cases u with
    | zero r => simp only [UnpackedFloat.add, plain_ofUnpacked_ite]
    | _ => rfl
  right s t u := by
    cases u with
    | zero r => simp only [UnpackedFloat.add, plain_ofUnpacked_ite]
    | _ => rfl

theorem ignoresZeroSign_sub : IgnoresZeroSign (UnpackedFloat.sub Format.binary64) where
  left s t u := by
    cases u with
    | zero r => simp only [UnpackedFloat.sub, plain_ofUnpacked_ite]
    | _ => rfl
  right s t u := by
    cases u with
    | zero r => simp only [UnpackedFloat.sub, plain_ofUnpacked_ite]
    | _ => rfl

theorem ignoresZeroSign_mul : IgnoresZeroSign (UnpackedFloat.mul Format.binary64) where
  left s t u := by
    cases u with
    | zero r => simp only [UnpackedFloat.mul, plain_ofUnpacked_zero]
    | finite => simp only [UnpackedFloat.mul, plain_ofUnpacked_zero]
    | _ => rfl
  right s t u := by
    cases u with
    | zero r => simp only [UnpackedFloat.mul, plain_ofUnpacked_zero]
    | finite => simp only [UnpackedFloat.mul, plain_ofUnpacked_zero]
    | _ => rfl

section Operations

variable (x y : Double)

theorem plain_add : (x.plain + y.plain).plain = (x + y).plain := ignoresZeroSign_add.plain x y

theorem plain_sub : (x.plain - y.plain).plain = (x - y).plain := ignoresZeroSign_sub.plain x y

theorem plain_mul : (x.plain * y.plain).plain = (x * y).plain := ignoresZeroSign_mul.plain x y

variable {x y} {x' y' : Double} (hx : x.plain = x'.plain) (hy : y.plain = y'.plain)

include hx hy

theorem plain_add_congr : (x + y).plain = (x' + y').plain := by
  rw [← plain_add, hx, hy, plain_add]

theorem plain_sub_congr : (x - y).plain = (x' - y').plain := by
  rw [← plain_sub, hx, hy, plain_sub]

theorem plain_mul_congr : (x * y).plain = (x' * y').plain := by
  rw [← plain_mul, hx, hy, plain_mul]

end Operations

theorem unpacked_ne_zero {x : Double} (hx : x.magnitude ≠ 0) (s : Sign) :
    x.unpacked ≠ .zero s := by
  intro h
  by_cases hnumber : x.isNumber = true
  · rw [← ofUnpacked_unpacked hnumber, h, magnitude_ofUnpacked_zero] at hx
    exact hx rfl
  · rw [unpacked_eq, read_eq_nan (Bool.eq_false_of_not_eq_true hnumber)] at h
    cases h

/-- **A difference keeps all its bits**, unless both of its operands are zeros. -/
theorem sub_plain {x y : Double} (h : x.magnitude ≠ 0 ∨ y.magnitude ≠ 0) :
    x.plain - y.plain = x - y := by
  rcases plain_cases x with hx | ⟨⟨s, hx⟩, hxplain⟩ <;>
    rcases plain_cases y with hy | ⟨⟨t, hy⟩, hyplain⟩
  · rw [hx, hy]
  · rw [hx, sub_eq, sub_eq, hy, hyplain]
    have hne := unpacked_ne_zero (h.resolve_right fun hne => unpacked_ne_zero hne t hy)
    cases hu : x.unpacked with
    | zero s => exact absurd hu (hne s)
    | _ => rfl
  · rw [hy, sub_eq, sub_eq, hx, hxplain]
    have hne := unpacked_ne_zero (h.resolve_left fun hne => unpacked_ne_zero hne s hx)
    cases hu : y.unpacked with
    | zero t => exact absurd hu (hne t)
    | _ => rfl
  · rcases h with h | h
    · exact absurd hx (unpacked_ne_zero h s)
    · exact absurd hy (unpacked_ne_zero h t)

/-! ## Ones and zeros -/

theorem nat_one_mul {x : Double} (hx : Arith.isFinite x = true) : Arith.nat 1 * x = x := by
  have hone : Arith.isFinite (Arith.nat 1 : Double) = true := by decide +kernel
  have hsign : (Arith.nat 1 : Double).sign = .positive :=
    if_neg (by decide +kernel : ¬ (Arith.nat 1 : Double).negative = true)
  have hsize : (Arith.nat 1 : Double).size = 1 := by
    have hread : (Arith.nat 1 : Double).read = .finite (2 ^ 52) (-52) := by decide +kernel
    rw [size, hread, Binary.Reading.size]
    norm_num
  apply ext_of_sign
  · rw [sign_mul hone hx, hsign]
    cases x.sign <;> rfl
  · rw [magnitude_mul hone hx, hsize, one_mul, nearest_size hx]
    exact min_eq_right (isFinite_iff_magnitude_lt.1 hx).le

theorem plain_of_magnitude_eq_zero {x : Double} (hx : x.magnitude = 0) : x.plain = ⟨0⟩ := if_pos hx

theorem plain_zero_mul {x : Double} (hx : Arith.isFinite x = true) :
    (Arith.nat 0 * x).plain = ⟨0⟩ := by
  have hzero : Arith.isFinite (Arith.nat 0 : Double) = true := by decide +kernel
  have hsize : (Arith.nat 0 : Double).size = 0 := size_of_magnitude_eq_zero (by decide +kernel)
  apply plain_of_magnitude_eq_zero
  rw [magnitude_mul hzero hx, hsize, zero_mul, nearest_zero, Nat.min_zero]

theorem exists_unpacked_of_plain {x : Double} (hx : x.plain = ⟨0⟩) : ∃ s, x.unpacked = .zero s := by
  rcases plain_cases x with h | ⟨h, -⟩
  · rw [← h, hx]
    exact ⟨.positive, rfl⟩
  · exact h

section AddZero

variable {x y : Double} (hx : x.isNumber = true) (hy : y.plain = ⟨0⟩)

include hx hy

/-- A zero that is added to a number changes no more than the sign of a zero. -/
theorem plain_add_zero : (x + y).plain = x.plain := by
  have hadd (s : Sign) (u : UnpackedFloat) :
      (ofUnpacked (UnpackedFloat.add Format.binary64 u (.zero s))).plain =
        (ofUnpacked u).plain := by
    cases u with
    | zero t => rw [UnpackedFloat.add, plain_ofUnpacked_ite, plain_ofUnpacked_zero]
    | _ => rfl
  obtain ⟨s, hs⟩ := exists_unpacked_of_plain hy
  rw [add_eq, hs, hadd, ofUnpacked_unpacked hx]

theorem plain_zero_add : (y + x).plain = x.plain := by
  have hadd (s : Sign) (u : UnpackedFloat) :
      (ofUnpacked (UnpackedFloat.add Format.binary64 (.zero s) u)).plain =
        (ofUnpacked u).plain := by
    cases u with
    | zero t => rw [UnpackedFloat.add, plain_ofUnpacked_ite, plain_ofUnpacked_zero]
    | _ => rfl
  obtain ⟨s, hs⟩ := exists_unpacked_of_plain hy
  rw [add_eq, hs, hadd, ofUnpacked_unpacked hx]

end AddZero

end Double

end Starfilm
