import Starfilm.Proofs.Arith.Rounding

/-!
# Operations on doubles

Products and quotients of finite doubles are what exact arithmetic makes of their values, rounded to
the nearest magnitude (`Double.magnitude_mul`, `Double.magnitude_div`), and so is a mantissa of
either sign that is brought into the format (`Double.magnitude_normalize`).
-/

namespace Starfilm

/-- The number that a finite magnitude is read as. -/
def Binary.Reading.size : Binary.Reading → ℚ
  | .finite m e => m * 2 ^ e
  | .infinite => 0
  | .nan => 0

namespace Double

open Float.Model (Format UnpackedFloat)
open Float.Model.UnpackedFloat

/-! ## Finite doubles -/

/-- The value of a finite double without its sign. -/
def size (x : Double) : ℚ := x.read.size

/-- A finite double is read as a mantissa and an exponent that the format keeps. -/
theorem exists_read {x : Double} (hx : Arith.isFinite x = true) :
    ∃ m e, Canonical m e ∧ e ≤ 971 ∧ x.magnitude = place m e ∧ x.read = .finite m e := by
  obtain ⟨m, e, h, hplace⟩ := exists_place (decide_eq_true_iff.1 hx)
  have he := h.place_lt_iff.1 (hplace.trans_lt (decide_eq_true_iff.1 hx))
  exact ⟨m, e, h, he, hplace.symm, read_of_eq_place h he hplace.symm⟩

theorem size_nonneg (x : Double) : 0 ≤ x.size := by
  rw [size]
  cases x.read with
  | finite m e => exact mul_nonneg (Nat.cast_nonneg m) (zpow_nonneg two_pos.le e)
  | infinite => exact le_rfl
  | nan => exact le_rfl

theorem size_congr {x y : Double} (h : x.magnitude = y.magnitude) : x.size = y.size := by
  rw [size, size, read, read, h]

theorem nearest_size {x : Double} (hx : Arith.isFinite x = true) :
    nearest x.size = x.magnitude := by
  obtain ⟨m, e, h, -, hplace, hread⟩ := exists_read hx
  rw [size, hread, hplace]
  exact nearest_of_canonical h

theorem size_le_of_magnitude_lt {x y : Double} (hx : Arith.isFinite x = true)
    (hy : Arith.isFinite y = true) (h : x.magnitude < y.magnitude) : x.size ≤ y.size := by
  by_contra hlt
  have hle := nearest_le_nearest y.size_nonneg (not_le.1 hlt).le
  rw [nearest_size hx, nearest_size hy] at hle
  omega

/-- **Magnitudes are ordered as the values that they stand for.** -/
theorem size_le_size_iff {x y : Double} (hx : Arith.isFinite x = true)
    (hy : Arith.isFinite y = true) : x.size ≤ y.size ↔ x.magnitude ≤ y.magnitude := by
  constructor
  · intro h
    rw [← nearest_size hx, ← nearest_size hy]
    exact nearest_le_nearest x.size_nonneg h
  · intro h
    rcases h.eq_or_lt with heq | hlt
    · exact (size_congr heq).le
    · exact size_le_of_magnitude_lt hx hy hlt

theorem size_of_magnitude_eq_zero {x : Double} (hx : x.magnitude = 0) : x.size = 0 := by
  rw [size, read_of_magnitude_eq_zero hx, Binary.Reading.size, Nat.cast_zero, zero_mul]

theorem size_eq_zero_iff {x : Double} (hx : Arith.isFinite x = true) :
    x.size = 0 ↔ x.magnitude = 0 := by
  refine ⟨fun h => ?_, size_of_magnitude_eq_zero⟩
  rw [← nearest_size hx, h, nearest_zero]

theorem Canonical.place_zero {e : ℤ} (h : Canonical 0 e) : place 0 e = 0 := by
  have he : e = -1074 := h.normal.resolve_left (by norm_num)
  rw [he]
  rfl

/-- A finite double that is not a zero has a positive mantissa. -/
theorem exists_read_pos {x : Double} (hx : Arith.isFinite x = true) (hne : x.magnitude ≠ 0) :
    ∃ m e, 0 < m ∧ Canonical m e ∧ x.magnitude = place m e ∧ x.read = .finite m e := by
  obtain ⟨m, e, h, -, hplace, hread⟩ := exists_read hx
  refine ⟨m, e, Nat.pos_of_ne_zero fun hzero => hne ?_, h, hplace, hread⟩
  subst hzero
  rw [hplace, h.place_zero]

/-- The nearest magnitude to half of a number is smaller than that of the number. -/
theorem nearest_half_lt {x : Double} (hx : Arith.isFinite x = true) (hne : x.magnitude ≠ 0) :
    nearest (x.size / 2) < x.magnitude := by
  obtain ⟨m, e, hm, h, hplace, hread⟩ := exists_read_pos hx hne
  have hhalf : x.size / 2 = m * 2 ^ (e - 1) := by
    rw [size, hread, Binary.Reading.size, zpow_sub_one₀ two_ne_zero]
    ring
  rcases h.le.eq_or_lt with rfl | hlow
  · -- in the last place of all the mantissa is halved
    have hpow : (0 : ℚ) < 2 ^ (-1074 : ℤ) := zpow_pos two_pos _
    have hhalf' : x.size / 2 = (m : ℚ) / 2 * 2 ^ (-1074 : ℤ) := by
      rw [size, hread, Binary.Reading.size]
      ring
    have hlast : lastPlace (x.size / 2) = -1074 := by
      have hpos : 0 < x.size / 2 := by
        rw [hhalf']
        positivity
      have hlt : (m : ℚ) / 2 < 2 ^ 52 := by
        have : (m : ℚ) < 2 ^ 53 := by exact_mod_cast h.lt
        linarith
      refine lastPlace_eq_lowest hpos ?_
      calc x.size / 2 = (m : ℚ) / 2 * 2 ^ (-1074 : ℤ) := hhalf'
        _ < 2 ^ 52 * 2 ^ (-1074 : ℤ) := by gcongr
        _ = 2 ^ (-1022 : ℤ) := by
          rw [← zpow_natCast, ← zpow_add₀ two_ne_zero]
          rfl
    have hround := roundEven_half_lt hm
    rw [nearest, hlast, hhalf', mul_div_cancel_right₀ _ hpow.ne', hplace]
    unfold place
    omega
  · -- elsewhere half of a number is the number with an exponent smaller by one
    have hcanonical : Canonical m (e - 1) :=
      ⟨h.lt, by omega, .inl (h.normal.resolve_right hlow.ne')⟩
    rw [hhalf, nearest_of_canonical hcanonical, hplace]
    unfold place
    omega

/-! ## Products -/

theorem unpacked_finite_zero (s : Sign) (e : ℤ) :
    (Binary.Reading.finite 0 e).unpacked s = .zero s :=
  rfl

/-- A product of two mantissas leaves bits to be dropped, unless it is smaller than all normal
numbers. -/
theorem Canonical.mul_exponent_le {m m' : ℕ} {e e' : ℤ} (h : Canonical m e) (h' : Canonical m' e')
    (hm : 0 < m) (hm' : 0 < m') : e + e' ≤ max (((m * m').log2 : ℤ) + (e + e') - 52) (-1074) := by
  have hlog := log2_eq_iff h.lt hm
  have hlog' := log2_eq_iff h'.lt hm'
  have hsum : m.log2 + m'.log2 ≤ (m * m').log2 := by
    rw [Nat.le_log2 (Nat.mul_pos hm hm').ne', pow_add]
    exact Nat.mul_le_mul (Nat.log2_self_le hm.ne') (Nat.log2_self_le hm'.ne')
  obtain ⟨-, hle, hnormal⟩ := h
  obtain ⟨-, hle', hnormal'⟩ := h'
  omega

theorem magnitude_mul {x y : Double} (hx : Arith.isFinite x = true) (hy : Arith.isFinite y = true) :
    (x * y).magnitude = min 0x7FF0000000000000 (nearest (x.size * y.size)) := by
  obtain ⟨m, e, h, -, -, hread⟩ := exists_read hx
  obtain ⟨m', e', h', -, -, hread'⟩ := exists_read hy
  rw [mul_eq, unpacked_eq, unpacked_eq, size, size, hread, hread']
  dsimp only [Binary.Reading.size]
  rcases Nat.eq_zero_or_pos m with rfl | hm <;> rcases Nat.eq_zero_or_pos m' with rfl | hm'
  · rw [unpacked_finite_zero, unpacked_finite_zero, UnpackedFloat.mul, magnitude_ofUnpacked_zero]
    simp
  · rw [unpacked_finite_zero, unpacked_finite _ hm', UnpackedFloat.mul, magnitude_ofUnpacked_zero]
    simp
  · rw [unpacked_finite_zero, unpacked_finite _ hm, UnpackedFloat.mul, magnitude_ofUnpacked_zero]
    simp
  · rw [unpacked_finite _ hm, unpacked_finite _ hm', UnpackedFloat.mul,
      magnitude_roundWithAccuracy _ (represents_exact (m * m'))
        (by exact_mod_cast Nat.mul_pos hm hm') (h.mul_exponent_le h' hm hm')
        (.inl (Nat.mul_pos hm hm')), zpow_add₀ two_ne_zero]
    push_cast
    congr 2
    ring

theorem sign_mul {x y : Double} (hx : Arith.isFinite x = true) (hy : Arith.isFinite y = true) :
    (x * y).sign = x.sign * y.sign := by
  obtain ⟨m, e, -, -, -, hread⟩ := exists_read hx
  obtain ⟨m', e', -, -, -, hread'⟩ := exists_read hy
  rw [mul_eq, unpacked_eq, unpacked_eq, hread, hread']
  rcases Nat.eq_zero_or_pos m with rfl | hm <;> rcases Nat.eq_zero_or_pos m' with rfl | hm' <;>
    simp only [unpacked_finite_zero, unpacked_finite, UnpackedFloat.mul, sign_ofUnpacked_zero,
      sign_roundWithAccuracy, *]

/-! ## Quotients -/

/-- The exponent to which the machine divides. -/
def quotientExponent (m : ℕ) (e : ℤ) (m' : ℕ) (e' : ℤ) : ℤ :=
  min (e - e') (max ((m.log2 : ℤ) + e - (m'.log2 + e') - 53) (-1074))

/-- What the machine divides by `m'`. -/
def dividend (m : ℕ) (e : ℤ) (m' : ℕ) (e' : ℤ) : ℕ :=
  m * 2 ^ (e - e' - quotientExponent m e m' e').toNat

theorem divCore_eq (m : ℕ) (e : ℤ) (m' : ℕ) (e' : ℤ) :
    divCore Format.binary64 m e m' e' = (dividend m e m' e' / m', quotientExponent m e m' e',
      accuracyOfFraction (dividend m e m' e' % m') m') := by
  have hexponent : min (e - e') (Format.binary64.targetExponent
      (Float.Model.totalExponent m e - Float.Model.totalExponent m' e')) =
      quotientExponent m e m' e' := by
    change min (e - e') (max ((m.log2 : ℤ) + 1 + e - ((m'.log2 : ℤ) + 1 + e') - (53 : ℕ)) (-1074)) =
      _
    rw [quotientExponent]
    congr 2
    push_cast
    ring
  rw [divCore, hexponent, Nat.shiftLeft_eq]
  rfl

section Quotient

variable {m m' : ℕ} {e e' : ℤ} (hm : 0 < m) (hm' : 0 < m')

include hm hm'

/-- A quotient has as many places as the format keeps, or reaches down to its last one. -/
theorem le_quotient (h : -1074 < quotientExponent m e m' e') :
    2 ^ 52 ≤ dividend m e m' e' / m' := by
  rw [Nat.le_div_iff_mul_le hm']
  have hk : m'.log2 + 53 ≤ m.log2 + (e - e' - quotientExponent m e m' e').toNat := by
    unfold quotientExponent at *
    omega
  calc 2 ^ 52 * m' ≤ 2 ^ 52 * 2 ^ (m'.log2 + 1) := Nat.mul_le_mul_left _ Nat.lt_log2_self.le
    _ = 2 ^ (m'.log2 + 53) := by ring
    _ ≤ 2 ^ (m.log2 + (e - e' - quotientExponent m e m' e').toNat) :=
        Nat.pow_le_pow_right two_pos hk
    _ ≤ dividend m e m' e' := by
        rw [pow_add, dividend]
        exact Nat.mul_le_mul_right _ (Nat.log2_self_le hm.ne')

theorem quotientExponent_le : quotientExponent m e m' e' ≤
    max (((dividend m e m' e' / m').log2 : ℤ) + quotientExponent m e m' e' - 52) (-1074) := by
  by_cases h : -1074 < quotientExponent m e m' e'
  · have hle := le_quotient hm hm' h
    have hlog : 52 ≤ (dividend m e m' e' / m').log2 :=
      (Nat.le_log2 (by omega)).2 hle
    omega
  · omega

variable (m e e') in
omit hm in
theorem quotient_eq : ((dividend m e m' e' / m' : ℕ) +
      (dividend m e m' e' % m' : ℕ) / (m' : ℚ)) * 2 ^ quotientExponent m e m' e' =
    m * 2 ^ e / (m' * 2 ^ e') := by
  have hdiv : ((dividend m e m' e' / m' : ℕ) : ℚ) + (dividend m e m' e' % m' : ℕ) / (m' : ℚ) =
      dividend m e m' e' / m' := by
    have hsplit : ((m' * (dividend m e m' e' / m') + dividend m e m' e' % m' : ℕ) : ℚ) =
        dividend m e m' e' := by exact_mod_cast Nat.div_add_mod _ _
    have hne : (m' : ℚ) ≠ 0 := by exact_mod_cast hm'.ne'
    rw [← hsplit]
    push_cast
    field_simp
  have hshift : (2 : ℚ) ^ (e - e' - quotientExponent m e m' e').toNat *
      2 ^ quotientExponent m e m' e' = 2 ^ (e - e') := by
    rw [← zpow_natCast, ← zpow_add₀ two_ne_zero]
    congr 1
    unfold quotientExponent
    omega
  rw [hdiv, dividend]
  push_cast
  rw [div_mul_eq_mul_div, mul_assoc, hshift, zpow_sub₀ two_ne_zero, mul_div_assoc', div_div,
    mul_comm (2 ^ e') (m' : ℚ)]

end Quotient

theorem magnitude_div {x y : Double} (hx : Arith.isFinite x = true) (hy : Arith.isFinite y = true)
    (hpos : y.size ≠ 0) :
    (x / y).magnitude = min 0x7FF0000000000000 (nearest (x.size / y.size)) := by
  obtain ⟨m, e, -, -, -, hread⟩ := exists_read hx
  obtain ⟨m', e', hm', -, -, hread'⟩ := exists_read_pos hy (mt size_of_magnitude_eq_zero hpos)
  rw [div_eq, unpacked_eq, unpacked_eq, size, size, hread, hread']
  dsimp only [Binary.Reading.size]
  rw [unpacked_finite _ hm']
  rcases Nat.eq_zero_or_pos m with rfl | hm
  · rw [unpacked_finite_zero, UnpackedFloat.div, magnitude_ofUnpacked_zero]
    simp
  · rw [unpacked_finite _ hm, UnpackedFloat.div, divCore_eq]
    dsimp only
    have hvalue := quotient_eq m e e' hm'
    have hquotient : (0 : ℚ) < (dividend m e m' e' / m' : ℕ) +
        (dividend m e m' e' % m' : ℕ) / (m' : ℚ) := by
      refine (mul_pos_iff_of_pos_right (zpow_pos two_pos (quotientExponent m e m' e'))).1 ?_
      rw [hvalue]
      positivity
    have hlong : 0 < dividend m e m' e' / m' ∨ quotientExponent m e m' e' ≤ -1074 := by
      rcases lt_or_ge (-1074) (quotientExponent m e m' e') with hlow | hlow
      · exact .inl ((by norm_num : 0 < 2 ^ 52).trans_le (le_quotient hm hm' hlow))
      · exact .inr hlow
    rw [magnitude_roundWithAccuracy _ (represents_fraction _ (Nat.mod_lt _ hm')) hquotient
      (quotientExponent_le hm hm') hlong, hvalue]

theorem sign_div {x y : Double} (hx : Arith.isFinite x = true) (hy : Arith.isFinite y = true)
    (hpos : y.size ≠ 0) : (x / y).sign = x.sign / y.sign := by
  obtain ⟨m, e, -, -, -, hread⟩ := exists_read hx
  obtain ⟨m', e', hm', -, -, hread'⟩ := exists_read_pos hy (mt size_of_magnitude_eq_zero hpos)
  rw [div_eq, unpacked_eq, unpacked_eq, hread, hread']
  rcases Nat.eq_zero_or_pos m with rfl | hm <;>
    simp only [unpacked_finite_zero, unpacked_finite, UnpackedFloat.div, divCore_eq,
      sign_ofUnpacked_zero, sign_roundWithAccuracy, *]

/-! ## Differences -/

/-- A mantissa that is short is made longer before it is rounded. -/
theorem magnitude_round (s : Sign) {m : ℕ} (hm : 0 < m) (e : ℤ) :
    (ofUnpacked (UnpackedFloat.round Format.binary64 s m e)).magnitude =
      min 0x7FF0000000000000 (nearest (m * 2 ^ e)) := by
  rw [UnpackedFloat.round, targetExponent_eq, decreaseExponent]
  dsimp only
  generalize hk : (e - max ((m.log2 : ℤ) + e - 52) (-1074)).toNat = k
  have hlog : (m <<< k).log2 = m.log2 + k := by
    rw [Nat.shiftLeft_eq, Nat.log2_eq_iff (by positivity), add_right_comm, pow_add, pow_add _ _ k]
    exact ⟨Nat.mul_le_mul_right _ (Nat.log2_self_le hm.ne'),
      Nat.mul_lt_mul_of_pos_right Nat.lt_log2_self (by positivity)⟩
  have hvalue : ((m <<< k : ℕ) : ℚ) * 2 ^ (e - k) = m * 2 ^ e := by
    rw [Nat.shiftLeft_eq, zpow_sub₀ two_ne_zero, zpow_natCast]
    push_cast
    field_simp
  have hpos : 0 < m <<< k := by
    rw [Nat.shiftLeft_eq]
    positivity
  rw [magnitude_roundWithAccuracy _ (represents_exact _) (by exact_mod_cast hpos) _ (.inl hpos),
    hvalue]
  rw [hlog]
  push_cast
  omega

theorem magnitude_normalize (M e : ℤ) (s : Sign) :
    (ofUnpacked (UnpackedFloat.normalize Format.binary64 M e s)).magnitude =
      min 0x7FF0000000000000 (nearest (|M| * 2 ^ e)) := by
  rw [UnpackedFloat.normalize]
  cases hM : compare M 0 with
  | lt =>
    have hneg := Int.compare_eq_lt.1 hM
    have hsize : (((-M).toNat : ℤ) : ℚ) = |M| := by
      rw [Int.toNat_of_nonneg (by omega), abs_of_neg hneg]
    rw [magnitude_round _ (by omega), ← hsize, Int.cast_natCast]
  | eq =>
    rw [Int.compare_eq_eq.1 hM, magnitude_ofUnpacked_zero]
    simp
  | gt =>
    have hpos := Int.compare_eq_gt.1 hM
    have hsize : ((M.toNat : ℤ) : ℚ) = |M| := by
      rw [Int.toNat_of_nonneg hpos.le, abs_of_pos hpos]
    rw [magnitude_round _ (by omega), ← hsize, Int.cast_natCast]

/-- The value of a finite double. -/
def value (x : Double) : ℚ := if x.negative then -x.size else x.size

theorem abs_value (x : Double) : |x.value| = x.size := by
  rw [value]
  split_ifs
  · rw [abs_neg, abs_of_nonneg x.size_nonneg]
  · exact abs_of_nonneg x.size_nonneg

theorem value_of_magnitude_eq_zero {x : Double} (hx : x.magnitude = 0) : x.value = 0 := by
  rw [value, size_of_magnitude_eq_zero hx, neg_zero, ite_self]

end Double

end Starfilm
