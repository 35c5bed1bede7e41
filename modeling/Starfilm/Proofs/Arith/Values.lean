import Starfilm.Proofs.Arith.Monotone

/-!
# Sums, differences and products of either sign

A double with the value of a rational number, rounded, is told by an integer that grows with that
number (`Double.roundedKey`). Sums, differences and products of finite doubles are what exact
arithmetic makes of their values, rounded so (`Double.rounds_add`, `Double.rounds_sub`,
`Double.rounds_mul`), and therefore grow as the exact results do (`Double.Rounds.le`). A result that
needs no more digits than the format has is exact (`Double.Rounds.size_eq`).
-/

namespace Starfilm

namespace Double

open Float.Model (Format UnpackedFloat)
open Float.Model.UnpackedFloat

/-! ## Rounding with a sign -/

/-- The magnitude that a number that is not negative is rounded to: the nearest one, or infinity. -/
def roundedMagnitude (q : ℚ) : ℕ := min 0x7FF0000000000000 (nearest q)

/-- The key of what a number is rounded to. -/
def roundedKey (q : ℚ) : ℤ := if q < 0 then -(roundedMagnitude (-q) : ℤ) else roundedMagnitude q

/-- A double is what a number is rounded to, up to the sign of a zero. -/
structure Rounds (x : Double) (q : ℚ) : Prop where
  isNumber : x.isNumber = true
  valueKey_eq : x.valueKey = roundedKey q

section Keys

variable {p q : ℚ}

theorem roundedMagnitude_mono (hp : 0 ≤ p) (h : p ≤ q) : roundedMagnitude p ≤ roundedMagnitude q :=
  min_le_min_left _ (nearest_le_nearest hp h)

theorem roundedKey_of_nonneg (hq : 0 ≤ q) : roundedKey q = roundedMagnitude q := if_neg hq.not_gt

@[simp] theorem roundedMagnitude_zero : roundedMagnitude 0 = 0 := by
  rw [roundedMagnitude, nearest_zero, Nat.min_zero]

@[simp] theorem roundedKey_zero : roundedKey 0 = 0 := by
  rw [roundedKey_of_nonneg le_rfl, roundedMagnitude_zero, Nat.cast_zero]

theorem roundedKey_neg (q : ℚ) : roundedKey (-q) = -roundedKey q := by
  rcases lt_trichotomy q 0 with h | rfl | h
  · rw [roundedKey_of_nonneg (by linarith), roundedKey, if_pos h, neg_neg]
  · rw [neg_zero, roundedKey_zero, neg_zero]
  · rw [roundedKey, if_pos (by linarith), neg_neg, roundedKey_of_nonneg h.le]

/-- **What numbers are rounded to grows with them.** -/
theorem roundedKey_mono (h : p ≤ q) : roundedKey p ≤ roundedKey q := by
  rcases lt_or_ge p 0 with hp | hp
  · rcases lt_or_ge q 0 with hq | hq
    · rw [roundedKey, roundedKey, if_pos hp, if_pos hq, neg_le_neg_iff, Nat.cast_le]
      exact roundedMagnitude_mono (by linarith) (by linarith)
    · rw [roundedKey, if_pos hp, roundedKey_of_nonneg hq]
      omega
  · rw [roundedKey_of_nonneg hp, roundedKey_of_nonneg (hp.trans h), Nat.cast_le]
    exact roundedMagnitude_mono hp h

theorem natAbs_roundedKey (q : ℚ) : (roundedKey q).natAbs = roundedMagnitude |q| := by
  rcases lt_or_ge q 0 with hq | hq
  · rw [roundedKey, if_pos hq, abs_of_neg hq, Int.natAbs_neg, Int.natAbs_natCast]
  · rw [roundedKey_of_nonneg hq, abs_of_nonneg hq, Int.natAbs_natCast]

end Keys

theorem natAbs_valueKey (x : Double) : x.valueKey.natAbs = x.magnitude := by
  rw [valueKey]
  split_ifs
  · rw [Int.natAbs_neg, Int.natAbs_natCast]
  · rw [Int.natAbs_natCast]

section Rounds

variable {x y : Double} {p q : ℚ}

theorem Rounds.magnitude_eq (h : Rounds x q) : x.magnitude = roundedMagnitude |q| := by
  rw [← natAbs_valueKey, h.valueKey_eq, natAbs_roundedKey]

/-- A double of the nearest magnitude and the sign of a number. The sign does not count for `0`. -/
theorem rounds_of_sign (hm : x.magnitude = roundedMagnitude |q|)
    (hs : q = 0 ∨ (x.sign = .negative ↔ q < 0)) : Rounds x q := by
  refine ⟨isNumber_iff_magnitude_le.2 (hm.trans_le (min_le_left _ _)), ?_⟩
  rcases hs with rfl | hs
  · have hzero : x.valueKey.natAbs = 0 := by
      rw [natAbs_valueKey, hm, abs_zero, roundedMagnitude_zero]
    rw [Int.natAbs_eq_zero.1 hzero, roundedKey_zero]
  · rw [valueKey, roundedKey, hm]
    by_cases hq : q < 0
    · rw [if_pos (negative_iff_sign.2 (hs.2 hq)), if_pos hq, abs_of_neg hq]
    · rw [if_neg (mt negative_iff_sign.1 (mt hs.1 hq)), if_neg hq, abs_of_nonneg (not_lt.1 hq)]

/-- **Rounding keeps the order.** -/
theorem Rounds.le (hx : Rounds x p) (hy : Rounds y q) (h : p ≤ q) : Arith.le x y = true := by
  rw [le_iff, hx.valueKey_eq, hy.valueKey_eq]
  exact ⟨hx.isNumber, hy.isNumber, roundedKey_mono h⟩

theorem Rounds.lt (hx : Rounds x p) (hy : Rounds y q) (h : roundedKey p < roundedKey q) :
    Arith.lt x y = true := by
  rw [Arith.lt, Bool.and_eq_true, Bool.not_eq_true', ← Bool.not_eq_true, le_iff, le_iff,
    hx.valueKey_eq, hy.valueKey_eq]
  exact ⟨⟨hx.isNumber, hy.isNumber, h.le⟩, fun h' => h.not_ge h'.2.2⟩

/-- What is rounded to something smaller is smaller. -/
theorem Rounds.lt_of_valueKey_lt (hx : Rounds x p) (hy : Rounds y q)
    (h : x.valueKey < y.valueKey) : p < q := by
  by_contra hle
  have := roundedKey_mono (not_lt.1 hle)
  rw [hx.valueKey_eq, hy.valueKey_eq] at h
  omega

end Rounds

/-! ## Values -/

section Values

variable {x y : Double} (hx : Arith.isFinite x = true) (hy : Arith.isFinite y = true)

include hx

/-- A finite double is its value, rounded. -/
theorem rounds_value : Rounds x x.value := by
  apply rounds_of_sign
  · rw [abs_value, roundedMagnitude, nearest_size hx]
    exact (min_eq_right (isFinite_iff_magnitude_lt.1 hx).le).symm
  · rcases x.size_nonneg.eq_or_lt with hzero | hpos
    · left
      rw [value, ← hzero, neg_zero, ite_self]
    · right
      rw [← negative_iff_sign, value]
      split_ifs with h
      · exact iff_of_true h (neg_neg_of_pos hpos)
      · exact iff_of_false h hpos.not_gt

include hy

/-- **The order of finite doubles is that of their values.** -/
theorem le_iff_value_le : Arith.le x y = true ↔ x.value ≤ y.value := by
  refine ⟨fun h => ?_, (rounds_value hx).le (rounds_value hy)⟩
  have hkey : x.valueKey ≤ y.valueKey := (le_iff.1 h).2.2
  rcases hkey.eq_or_lt with heq | hlt
  · -- one key has one magnitude, and one sign unless that is zero
    have hmagnitude : x.magnitude = y.magnitude := by
      rw [← natAbs_valueKey, heq, natAbs_valueKey]
    have hsize := size_congr hmagnitude
    by_cases hzero : y.magnitude = 0
    · rw [value_of_magnitude_eq_zero (hmagnitude.trans hzero), value_of_magnitude_eq_zero hzero]
    · have hnegative : x.negative = y.negative := by
        rw [valueKey, valueKey, hmagnitude] at heq
        cases hxn : x.negative <;> cases hyn : y.negative <;> simp only [hxn, hyn] at heq ⊢
        all_goals simp only [Bool.false_eq_true, if_true, if_false] at heq
        all_goals omega
      rw [value, value, hsize, hnegative]
  · exact ((rounds_value hx).lt_of_valueKey_lt (rounds_value hy) hlt).le

theorem eqv_iff_value_eq : Arith.eqv x y = true ↔ x.value = y.value := by
  rw [Arith.eqv, Bool.and_eq_true, le_iff_value_le hx hy, le_iff_value_le hy hx, le_antisymm_iff]

theorem lt_iff_value_lt : Arith.lt x y = true ↔ x.value < y.value := by
  rw [Arith.lt, Bool.and_eq_true, Bool.not_eq_true', ← Bool.not_eq_true, le_iff_value_le hx hy,
    le_iff_value_le hy hx, lt_iff_le_not_ge]

end Values

/-- What a value is rounded to has that value. -/
theorem Rounds.value_eq {x y : Double} (h : Rounds x y.value) (hy : Arith.isFinite y = true) :
    Arith.isFinite x = true ∧ x.value = y.value := by
  have hx : Arith.isFinite x = true := by
    rw [isFinite_iff_magnitude_lt] at *
    rwa [h.magnitude_eq, ← (rounds_value (isFinite_iff_magnitude_lt.2 hy)).magnitude_eq]
  have hround := rounds_value hy
  exact ⟨hx, le_antisymm ((le_iff_value_le hx hy).1 (h.le hround le_rfl))
    ((le_iff_value_le hy hx).1 (hround.le h le_rfl))⟩

/-- A double of the magnitude of `m * 2 ^ e` has that size. -/
theorem size_of_magnitude_eq_place {x : Double} {m : ℕ} {e : ℤ} (h : Canonical m e) (he : e ≤ 971)
    (hx : x.magnitude = place m e) : x.size = m * 2 ^ e := by
  rw [size, read_of_eq_place h he hx, Binary.Reading.size]

/-- What has no greater magnitude than `m * 2 ^ e` is not larger. -/
theorem size_le_of_magnitude_le_place {x : Double} {m : ℕ} {e : ℤ} (h : Canonical m e)
    (he : e ≤ 971) (hx : x.magnitude ≤ place m e) :
    Arith.isFinite x = true ∧ x.size ≤ m * 2 ^ e := by
  have hplace := h.place_lt_iff.2 he
  have hxf : Arith.isFinite x = true := isFinite_iff_magnitude_lt.2 (by omega)
  refine ⟨hxf, ?_⟩
  rcases hx.eq_or_lt with heq | hlt
  · exact (size_of_magnitude_eq_place h he heq).le
  · by_contra hlarge
    have hle := nearest_le_nearest (by positivity) (not_le.1 hlarge).le
    rw [nearest_of_canonical h, nearest_size hxf] at hle
    omega

/-- What has no smaller magnitude than `m * 2 ^ e` is no smaller. -/
theorem le_size_of_place_le_magnitude {x : Double} (hx : Arith.isFinite x = true) {m : ℕ} {e : ℤ}
    (h : Canonical m e) (hle : place m e ≤ x.magnitude) : m * 2 ^ e ≤ x.size := by
  have he : e ≤ 971 := h.place_lt_iff.1 (hle.trans_lt (isFinite_iff_magnitude_lt.1 hx))
  rcases hle.eq_or_lt with heq | hlt
  · exact (size_of_magnitude_eq_place h he heq.symm).ge
  · by_contra hsmall
    have hnearest := nearest_le_nearest x.size_nonneg (not_le.1 hsmall).le
    rw [nearest_of_canonical h, nearest_size hx] at hnearest
    omega

/-! ## Exact results -/

/-- A whole number of places below the smallest normal number or with no more digits than the format
has can be written with as many digits. -/
theorem exists_canonical {k : ℕ} (hk : k < 2 ^ 53) {e : ℤ} (he : -1074 ≤ e) :
    ∃ m e', Canonical m e' ∧ e' ≤ e ∧ (m : ℚ) * 2 ^ e' = k * 2 ^ e := by
  rcases Nat.eq_zero_or_pos k with rfl | hpos
  · exact ⟨0, -1074, ⟨by norm_num, le_rfl, .inr rfl⟩, he, by simp⟩
  have hlog : k.log2 ≤ 52 := Nat.le_of_lt_succ ((Nat.log2_lt hpos.ne').2 hk)
  obtain ⟨j, hj⟩ : ∃ j : ℕ, (j : ℤ) = min (52 - (k.log2 : ℤ)) (e + 1074) :=
    Int.eq_ofNat_of_zero_le (by omega) |>.imp fun _ h => h.symm
  refine ⟨k * 2 ^ j, e - j, ⟨?_, by omega, ?_⟩, by omega, ?_⟩
  · calc k * 2 ^ j < 2 ^ (k.log2 + 1) * 2 ^ j :=
          Nat.mul_lt_mul_of_pos_right Nat.lt_log2_self (by positivity)
      _ = 2 ^ (k.log2 + 1 + j) := (pow_add _ _ _).symm
      _ ≤ 2 ^ 53 := Nat.pow_le_pow_right two_pos (by omega)
  · by_cases hlow : e - j = -1074
    · exact .inr hlow
    · left
      have hj' : k.log2 + j = 52 := by omega
      calc 2 ^ 52 = 2 ^ k.log2 * 2 ^ j := by rw [← pow_add, hj']
        _ ≤ k * 2 ^ j := Nat.mul_le_mul_right _ (Nat.log2_self_le hpos.ne')
  · push_cast
    rw [zpow_sub₀ two_ne_zero, zpow_natCast]
    field_simp

/-- A result that needs no rounding has the exact size. -/
theorem Rounds.size_eq {x : Double} {q : ℚ} (h : Rounds x q) {k : ℕ} (hk : k < 2 ^ 53) {e : ℤ}
    (he : -1074 ≤ e) (he' : e ≤ 971) (hq : |q| = k * 2 ^ e) :
    Arith.isFinite x = true ∧ x.size = |q| := by
  obtain ⟨m, e', hcanonical, hle, hvalue⟩ := exists_canonical hk he
  have hmagnitude : x.magnitude = place m e' := by
    rw [h.magnitude_eq, hq, ← hvalue, roundedMagnitude, nearest_of_canonical hcanonical]
    exact min_eq_right (hcanonical.place_lt_iff.2 (hle.trans he')).le
  refine ⟨(size_le_of_magnitude_le_place hcanonical (hle.trans he') hmagnitude.le).1, ?_⟩
  rw [size_of_magnitude_eq_place hcanonical (hle.trans he') hmagnitude, hvalue, hq]

/-! ## Signs -/

/-- A number with a sign. -/
def signed : Sign → ℚ → ℚ
  | .negative, q => -q
  | .positive, q => q

section Signs

variable (s t : Sign) (p q : ℚ)

@[simp] theorem signed_zero : signed s 0 = 0 := by
  cases s
  · exact neg_zero
  · rfl

@[simp] theorem abs_signed : |signed s q| = |q| := by
  cases s
  · exact abs_neg q
  · rfl

theorem signed_neg : signed (-s) q = -signed s q := by
  cases s
  · exact (neg_neg q).symm
  · rfl

theorem signed_mul : signed s p * q = signed s (p * q) := by
  cases s
  · exact neg_mul p q
  · rfl

theorem signed_mul_signed : signed s p * signed t q = signed (s * t) (p * q) := by
  cases s <;> cases t
  · exact neg_mul_neg p q
  · exact neg_mul p q
  · exact mul_neg p q
  · rfl

variable {q} in
theorem signed_lt_zero_iff (hq : 0 < q) : signed s q < 0 ↔ s = .negative := by
  cases s
  · exact iff_of_true (neg_neg_of_pos hq) rfl
  · exact iff_of_false hq.not_gt fun h => by cases h

theorem apply_cast (m : ℕ) : ((s.apply m : ℤ) : ℚ) = signed s m := by
  cases s
  · exact Int.cast_neg _
  · rfl

theorem value_eq_signed (x : Double) : x.value = signed x.sign x.size := by
  rw [value, sign]
  by_cases h : x.negative = true
  · rw [if_pos h, if_pos h]
    rfl
  · rw [if_neg h, if_neg h]
    rfl

/-- A double of a sign and of the nearest magnitude to a size. -/
theorem rounds_signed {x : Double} {s : Sign} {q : ℚ} (hq : 0 ≤ q) (hs : x.sign = s)
    (hx : x.magnitude = roundedMagnitude q) : Rounds x (signed s q) := by
  refine rounds_of_sign (by rw [hx, abs_signed, abs_of_nonneg hq]) ?_
  rcases hq.eq_or_lt with rfl | hpos
  · exact .inl (signed_zero s)
  · rw [signed_lt_zero_iff s hpos, hs]
    exact .inr Iff.rfl

end Signs

/-! ## Negatives -/

section Negatives

variable (x : Double)

theorem magnitude_neg : (-x).magnitude = x.magnitude := by
  change ((x.bits ^^^ 0x8000000000000000) &&& 0x7FFFFFFFFFFFFFFF).toNat =
    (x.bits &&& 0x7FFFFFFFFFFFFFFF).toNat
  rw [UInt64.toNat_and, UInt64.toNat_xor, UInt64.toNat_and, Nat.and_xor_distrib_right]
  exact Nat.xor_zero _

theorem negative_neg : (-x).negative = !x.negative := by
  have hshift : (x.bits ^^^ 0x8000000000000000) >>> 63 = (x.bits >>> 63) ^^^ 1 := by
    rw [UInt64.shiftRight_xor]
    rfl
  have hbit : x.bits >>> 63 = 0 ∨ x.bits >>> 63 = 1 := by
    have hlt := x.bits.toNat_lt
    rw [← UInt64.toNat_inj, ← UInt64.toNat_inj, toNat_signBit]
    change _ = 0 ∨ _ = 1
    omega
  change (((x.bits ^^^ 0x8000000000000000) >>> 63) != 0) = !(x.bits >>> 63 != 0)
  rw [hshift]
  rcases hbit with h | h <;> rw [h] <;> rfl

theorem size_neg : (-x).size = x.size := size_congr (magnitude_neg x)

theorem isFinite_neg : Arith.isFinite (-x) = true ↔ Arith.isFinite x = true := by
  rw [isFinite_iff_magnitude_lt, isFinite_iff_magnitude_lt, magnitude_neg]

theorem value_neg : (-x).value = -x.value := by
  rw [value, value, negative_neg, size_neg]
  cases x.negative
  · rfl
  · exact (neg_neg _).symm

end Negatives

/-! ## Operations -/

section Unpacked

variable (s t : Sign)

theorem rounds_zero : Rounds (ofUnpacked (.zero s)) 0 :=
  rounds_of_sign (by rw [magnitude_ofUnpacked_zero, abs_zero, roundedMagnitude_zero]) (.inl rfl)

theorem rounds_finite {m : ℕ} {e : ℤ} (hm : 0 < m) (h : Canonical m e) :
    Rounds (ofUnpacked (.finite s m e hm)) (signed s (m * 2 ^ e)) := by
  refine rounds_signed (by positivity) (sign_ofUnpacked_finite s hm) ?_
  rw [magnitude_ofUnpacked_finite s hm h, roundedMagnitude, nearest_of_canonical h]

theorem rounds_normalize (M e : ℤ) :
    Rounds (ofUnpacked (UnpackedFloat.normalize Format.binary64 M e s)) (M * 2 ^ e) := by
  have hpow : (0 : ℚ) < 2 ^ e := zpow_pos two_pos e
  have hsign (t : Sign) (m : ℕ) :
      (ofUnpacked (UnpackedFloat.round Format.binary64 t m e)).sign = t :=
    sign_roundWithAccuracy t _ _ _
  apply rounds_of_sign
  · rw [magnitude_normalize, abs_mul, abs_of_pos hpow]
    push_cast
    rfl
  · rw [mul_eq_zero, or_iff_left hpow.ne', Int.cast_eq_zero, UnpackedFloat.normalize]
    cases hM : compare M 0 with
    | lt =>
      refine .inr (iff_of_true (hsign _ _) (mul_neg_of_neg_of_pos ?_ hpow))
      exact_mod_cast Int.compare_eq_lt.1 hM
    | eq => exact .inl (Int.compare_eq_eq.1 hM)
    | gt =>
      refine .inr (iff_of_false ?_ (mul_pos ?_ hpow).not_gt)
      · rw [hsign]
        exact fun h => by cases h
      · exact_mod_cast Int.compare_eq_gt.1 hM

/-- A mantissa brought to a smaller exponent, with a sign. -/
theorem signed_decreaseExponent {m : ℕ} {e f : ℤ} (hf : f ≤ e) :
    ((s.apply (decreaseExponent m e f).1 : ℤ) : ℚ) * 2 ^ f = signed s (m * 2 ^ e) := by
  have hpow : (2 : ℚ) ^ (e - f).toNat * 2 ^ f = 2 ^ e := by
    rw [← zpow_natCast, ← zpow_add₀ two_ne_zero]
    congr 1
    omega
  rw [apply_cast, signed_mul, decreaseExponent, Nat.shiftLeft_eq, ← hpow]
  push_cast
  rw [mul_assoc]

/-- The sum of two finite numbers, as the machine adds them. -/
theorem rounds_unpacked_add {m m' : ℕ} {e e' : ℤ} (h : Canonical m e) (h' : Canonical m' e') :
    Rounds (ofUnpacked (UnpackedFloat.add Format.binary64
        ((Binary.Reading.finite m e).unpacked s) ((Binary.Reading.finite m' e').unpacked t)))
      (signed s (m * 2 ^ e) + signed t (m' * 2 ^ e')) := by
  have hnone (u : Sign) (f : ℤ) : signed u ((0 : ℕ) * 2 ^ f) = 0 := by
    rw [Nat.cast_zero, zero_mul, signed_zero]
  rcases Nat.eq_zero_or_pos m with rfl | hm <;> rcases Nat.eq_zero_or_pos m' with rfl | hm'
  · rw [unpacked_finite_zero, unpacked_finite_zero, hnone, hnone, add_zero, UnpackedFloat.add]
    split_ifs <;> exact rounds_zero _
  · rw [unpacked_finite_zero, unpacked_finite _ hm', hnone, zero_add]
    exact rounds_finite t hm' h'
  · rw [unpacked_finite_zero, unpacked_finite _ hm, hnone, add_zero]
    exact rounds_finite s hm h
  · rw [unpacked_finite _ hm, unpacked_finite _ hm', UnpackedFloat.add]
    dsimp only
    rw [← signed_decreaseExponent s (min_le_left e e'),
      ← signed_decreaseExponent t (min_le_right e e'), ← add_mul, ← Int.cast_add]
    exact rounds_normalize _ _ _

/-- A difference is the sum with the negative. -/
theorem unpacked_sub_eq (u v : UnpackedFloat) :
    UnpackedFloat.sub Format.binary64 u v = UnpackedFloat.add Format.binary64 u v.neg := by
  have happly (t : Sign) (n : ℤ) : (-t).apply n = -t.apply n := by
    cases t
    · exact (neg_neg n).symm
    · rfl
  cases u <;> cases v
  case infinity.infinity s t => cases t <;> rfl
  case zero.zero s t => cases t <;> rfl
  case finite.finite s m e hm t m' e' hm' =>
    rw [UnpackedFloat.sub, UnpackedFloat.neg, UnpackedFloat.add]
    dsimp only
    rw [happly, sub_eq_add_neg]
  all_goals rfl

end Unpacked

section Operations

variable {x y : Double} (hx : Arith.isFinite x = true) (hy : Arith.isFinite y = true)

include hx hy

/-- **A sum is the exact sum, rounded.** -/
theorem rounds_add : Rounds (x + y) (x.value + y.value) := by
  obtain ⟨m, e, h, -, -, hread⟩ := exists_read hx
  obtain ⟨m', e', h', -, -, hread'⟩ := exists_read hy
  rw [add_eq, unpacked_eq, unpacked_eq, value_eq_signed, value_eq_signed, size, size, hread, hread']
  exact rounds_unpacked_add _ _ h h'

/-- **A difference is the exact difference, rounded.** -/
theorem rounds_sub : Rounds (x - y) (x.value - y.value) := by
  obtain ⟨m, e, h, -, -, hread⟩ := exists_read hx
  obtain ⟨m', e', h', -, -, hread'⟩ := exists_read hy
  have hneg : ((Binary.Reading.finite m' e').unpacked y.sign).neg =
      (Binary.Reading.finite m' e').unpacked (-y.sign) := by
    rcases Nat.eq_zero_or_pos m' with rfl | hm'
    · rfl
    · rw [unpacked_finite _ hm', unpacked_finite _ hm', UnpackedFloat.neg]
  rw [sub_eq, unpacked_eq, unpacked_eq, value_eq_signed, value_eq_signed, size, size, hread, hread',
    unpacked_sub_eq, hneg, sub_eq_add_neg, ← signed_neg]
  exact rounds_unpacked_add _ _ h h'

/-- **A product is the exact product, rounded.** -/
theorem rounds_mul : Rounds (x * y) (x.value * y.value) := by
  rw [value_eq_signed, value_eq_signed, signed_mul_signed]
  exact rounds_signed (mul_nonneg x.size_nonneg y.size_nonneg) (sign_mul hx hy)
    (magnitude_mul hx hy)

end Operations

/-! ## Multiples of the smallest number -/

section Multiples

variable {x y : Double} (hx : Arith.isFinite x = true)

include hx

/-- Finite doubles are whole multiples of the smallest one. -/
theorem exists_value : ∃ k : ℤ, x.value = k * 2 ^ (-1074 : ℤ) := by
  obtain ⟨m, e, h, -, -, hread⟩ := exists_read hx
  rw [value_eq_signed, size, hread]
  exact ⟨_, (signed_decreaseExponent x.sign h.le).symm⟩

/-- A difference of finite numbers is zero only if they are equal. -/
theorem magnitude_sub_ne_zero (hy : Arith.isFinite y = true) (h : x.value ≠ y.value) :
    (x - y).magnitude ≠ 0 := by
  obtain ⟨k, hk⟩ := exists_value hx
  obtain ⟨l, hl⟩ := exists_value hy
  have hpow : (0 : ℚ) < 2 ^ (-1074 : ℤ) := zpow_pos two_pos _
  have hne : k - l ≠ 0 := by
    intro heq
    rw [hk, hl, sub_eq_zero.1 heq] at h
    exact h rfl
  have hdiff : 2 ^ (-1074 : ℤ) ≤ |x.value - y.value| := by
    rw [hk, hl, ← sub_mul, abs_mul, abs_of_pos hpow, ← Int.cast_sub, ← Int.cast_abs]
    refine le_mul_of_one_le_left hpow.le ?_
    exact_mod_cast Int.one_le_abs hne
  have hone := one_le_nearest hdiff
  rw [(rounds_sub hx hy).magnitude_eq, roundedMagnitude]
  omega

end Multiples

end Double

end Starfilm
