import Starfilm.Proofs.Arith.Finiteness
import Starfilm.Window.Estimate

/-!
# Shares of a number in double precision

A range without a width is widened by a twentieth of its place at both ends. Of a number that is ten
times the smallest one, or larger, a twentieth is enough to get to another number
(`Double.nearest_sub_share_lt`). Of a smaller one it is less than half of the smallest number, and
is rounded to zero (`Double.magnitude_share_eq_zero`).
-/

namespace Starfilm

namespace Double

/-- The share of its place that a range without a width is widened by. -/
def share (x : Double) : Double := Arith.decimal 5 2 * Arith.magnitude x

theorem nonsingular_eq (lo hi : Double) : nonsingular lo hi =
    if Arith.lt lo hi = true then (lo, hi)
    else if Arith.eqv lo (Arith.nat 0) = true then (-Arith.decimal 5 2, Arith.decimal 5 2)
    else (lo - lo.share, hi + hi.share) :=
  rfl

theorem twentieth_eq : Arith.isFinite (Arith.decimal 5 2 : Double) = true ∧
    Arith.le (Arith.nat 0) (Arith.decimal 5 2 : Double) = true ∧
      (Arith.decimal 5 2 : Double).size = 7205759403792794 / 2 ^ 57 := by
  have hread : (Arith.decimal 5 2 : Double).read = .finite 7205759403792794 (-57) := by
    decide +kernel
  refine ⟨by decide +kernel, by decide +kernel, ?_⟩
  rw [size, hread, Binary.Reading.size, zpow_neg, ← div_eq_mul_inv]
  norm_num

theorem magnitude_magnitude (x : Double) : (Arith.magnitude x).magnitude = x.magnitude := by
  change (x.bits &&& 0x7FFFFFFFFFFFFFFF &&& 0x7FFFFFFFFFFFFFFF).toNat = _
  rw [UInt64.and_assoc, UInt64.and_self]
  rfl

theorem size_magnitude (x : Double) : (Arith.magnitude x).size = x.size :=
  size_congr (magnitude_magnitude x)

/-! ## The smallest numbers -/

theorem roundEven_eq_zero_iff {q : ℚ} (hq : 0 ≤ q) : roundEven q = 0 ↔ q ≤ 1 / 2 := by
  have hfloor := Nat.floor_le hq
  constructor
  · intro h
    have hzero : ⌊q⌋₊ = 0 := Nat.le_zero.1 ((floor_le_roundEven q).trans_eq h)
    by_contra hlarge
    rw [roundEven, hzero, Nat.cast_zero, zero_add, if_neg (by linarith), if_neg (by linarith)] at h
    cases h
  · intro h
    have hzero : ⌊q⌋₊ = 0 := Nat.floor_eq_zero.2 (by linarith)
    rw [roundEven, hzero, Nat.cast_zero, zero_add]
    split_ifs with hlt heq
    · rfl
    · rfl
    · exact absurd (lt_of_le_of_ne h heq) hlt

theorem place_lowest (m : ℕ) : place m (-1074) = m := by
  rw [place]
  omega

theorem half_lowest : (2 : ℚ) ^ (-1075 : ℤ) = 1 / 2 * 2 ^ (-1074 : ℤ) := by
  rw [one_div, ← zpow_neg_one, ← zpow_add₀ two_ne_zero]
  rfl

/-- Only what is at most half of the smallest number is rounded to zero. -/
theorem nearest_eq_zero_iff {q : ℚ} (hq : 0 ≤ q) : nearest q = 0 ↔ q ≤ 2 ^ (-1075 : ℤ) := by
  have hpow : (0 : ℚ) < 2 ^ (-1074 : ℤ) := zpow_pos two_pos _
  have hround : roundEven (q / 2 ^ (-1074 : ℤ)) = 0 ↔ q ≤ 2 ^ (-1075 : ℤ) := by
    rw [roundEven_eq_zero_iff (by positivity), div_le_iff₀ hpow, half_lowest]
  have hlow := neg_le_lastPlace q
  constructor
  · intro h
    have hlast : lastPlace q = -1074 := by
      unfold nearest place at h
      omega
    rw [nearest, hlast, place_lowest] at h
    exact hround.1 h
  · intro h
    have hlast : lastPlace q = -1074 := by
      rcases hq.eq_or_lt with rfl | hpos
      · exact if_pos rfl
      · exact lastPlace_eq_lowest hpos
          (h.trans_lt (zpow_lt_zpow_right₀ one_lt_two (by norm_num)))
    rw [nearest, hlast, place_lowest]
    exact hround.2 h

/-- One place below a number is a smaller one. -/
theorem nearest_pred_lt {m : ℕ} {e : ℤ} (h : Canonical m e) (hm : 0 < m) :
    nearest ((m - 1 : ℕ) * 2 ^ e) < place m e := by
  obtain ⟨hlt, hle, hnormal⟩ := h
  by_cases hsame : 2 ^ 52 ≤ m - 1 ∨ e = -1074
  · rw [nearest_of_canonical ⟨(Nat.sub_le m 1).trans_lt hlt, hle, hsame⟩]
    unfold place
    omega
  · -- below a power of two there is one more digit
    obtain ⟨hm', he⟩ := not_or.1 hsame
    obtain rfl : m = 2 ^ 52 := by omega
    have hcanonical : Canonical (2 ^ 53 - 2) (e - 1) :=
      ⟨by norm_num, by omega, .inl (by norm_num)⟩
    have hvalue : ((2 ^ 52 - 1 : ℕ) : ℚ) * 2 ^ e = ((2 ^ 53 - 2 : ℕ) : ℚ) * 2 ^ (e - 1) := by
      rw [zpow_sub_one₀ two_ne_zero]
      norm_num
      ring
    rw [hvalue, nearest_of_canonical hcanonical]
    unfold place
    omega

/-! ## Shares -/

section Share

variable {x : Double} (hx : Arith.isFinite x = true)

include hx

/-- A finite size is a whole number of places. -/
theorem exists_size : ∃ k : ℕ, x.size = k * 2 ^ (-1074 : ℤ) := by
  obtain ⟨k, hk⟩ := exists_value hx
  refine ⟨k.natAbs, ?_⟩
  rw [← abs_value, hk, abs_mul, abs_of_pos (zpow_pos two_pos _ : (0 : ℚ) < _), Nat.cast_natAbs,
    Int.cast_abs]

theorem isFinite_magnitude : Arith.isFinite (Arith.magnitude x) = true := by
  rw [isFinite_iff_magnitude_lt, magnitude_magnitude]
  exact isFinite_iff_magnitude_lt.1 hx

theorem magnitude_share :
    x.share.magnitude = roundedMagnitude (7205759403792794 / 2 ^ 57 * x.size) := by
  obtain ⟨hfinite, -, hsize⟩ := twentieth_eq
  rw [share, magnitude_mul hfinite (isFinite_magnitude hx), hsize, size_magnitude, roundedMagnitude]

theorem magnitude_share_le : x.share.magnitude ≤ x.magnitude := by
  rw [magnitude_share hx, ← nearest_size hx]
  refine (min_le_right _ _).trans (nearest_le_nearest ?_ ?_)
  · have := x.size_nonneg
    positivity
  · refine mul_le_of_le_one_left x.size_nonneg ?_
    norm_num

theorem isFinite_share : Arith.isFinite x.share = true := by
  have hle := magnitude_share_le hx
  rw [isFinite_iff_magnitude_lt] at *
  omega

/-- A share of the smallest numbers is nothing. -/
theorem magnitude_share_eq_zero (hsmall : x.size < 10 * 2 ^ (-1074 : ℤ)) :
    x.share.magnitude = 0 := by
  have hpow : (0 : ℚ) < 2 ^ (-1074 : ℤ) := zpow_pos two_pos _
  obtain ⟨k, hk⟩ := exists_size hx
  rw [hk, mul_lt_mul_iff_left₀ hpow] at hsmall
  have hk' : (k : ℚ) ≤ 9 := by
    have : k < 10 := by exact_mod_cast hsmall
    exact_mod_cast Nat.le_of_lt_succ this
  have hnearest : nearest (7205759403792794 / 2 ^ 57 * x.size) = 0 := by
    have := x.size_nonneg
    rw [nearest_eq_zero_iff (by positivity), half_lowest, hk, ← mul_assoc]
    gcongr
    linarith
  rw [magnitude_share hx, roundedMagnitude, hnearest, Nat.min_zero]

/-- A share of any other number reaches to the next one. -/
theorem le_size_share {m : ℕ} {e : ℤ} (h : Canonical m e) (he : e ≤ 971)
    (hsize : x.size = m * 2 ^ e) (hlarge : 10 * 2 ^ (-1074 : ℤ) ≤ x.size) :
    2 ^ e ≤ x.share.size := by
  have hpow : (0 : ℚ) < 2 ^ e := zpow_pos two_pos _
  obtain ⟨m', e', h', he', hvalue⟩ := exists_canonical (k := 1) (by norm_num) h.le
  rw [Nat.cast_one, one_mul] at hvalue
  rw [← hvalue]
  refine le_size_of_place_le_magnitude (isFinite_share hx) h' ?_
  rw [magnitude_share hx]
  refine le_min (h'.place_lt_iff.2 (he'.trans he)).le ?_
  rw [← nearest_of_canonical h', hvalue]
  rcases h.normal with hnormal | rfl
  · refine nearest_le_nearest hpow.le ?_
    have hm : (2 : ℚ) ^ 52 ≤ m := by exact_mod_cast hnormal
    rw [hsize, ← mul_assoc]
    refine le_mul_of_one_le_left hpow.le ?_
    linarith
  · have hone : nearest (2 ^ (-1074 : ℤ)) = 1 := by
      have h := nearest_of_canonical (m := 1) (e := -1074) ⟨by norm_num, le_rfl, .inr rfl⟩
      rwa [Nat.cast_one, one_mul, place_lowest] at h
    have hne : nearest (7205759403792794 / 2 ^ 57 * x.size) ≠ 0 := by
      have := x.size_nonneg
      rw [Ne, nearest_eq_zero_iff (by positivity), half_lowest, not_le]
      linarith
    omega

/-- Less by its share, a number is rounded to a smaller one. -/
theorem nearest_sub_share_lt (hlarge : 10 * 2 ^ (-1074 : ℤ) ≤ x.size) :
    nearest (x.size - x.share.size) < x.magnitude := by
  obtain ⟨m, e, h, he, hplace, hread⟩ := exists_read hx
  have hsize : x.size = m * 2 ^ e := by rw [size, hread, Binary.Reading.size]
  have hm : 0 < m := by
    rw [Nat.pos_iff_ne_zero]
    rintro rfl
    rw [hsize, Nat.cast_zero, zero_mul] at hlarge
    exact hlarge.not_gt (by positivity)
  have hshare := le_size_share hx h he hsize hlarge
  have hle := (size_le_size_iff (isFinite_share hx) hx).2 (magnitude_share_le hx)
  rw [hplace]
  refine (nearest_le_nearest (sub_nonneg.2 hle) ?_).trans_lt (nearest_pred_lt h hm)
  rw [hsize, Nat.cast_pred hm, sub_one_mul]
  linarith

end Share

end Double

end Starfilm
