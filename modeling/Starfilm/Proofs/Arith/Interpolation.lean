import Starfilm.Proofs.Arith.Values

/-!
# Interpolation in double precision

Between two numbers `x` and `y` a third one is interpolated as `x + f * (y - x)`. All three
operations round, and the result lies between `x` and `y` nevertheless (`Double.le_between`), as
long as `f` is less than one: a part of the distance that has all the digits of the format is
smaller than the distance, also when both are rounded, and a distance with fewer digits is exact.

The part is in practice what a number has behind the point, which is exact (`Double.size_fraction`).
-/

namespace Starfilm

namespace Double

/-! ## Whole numbers and what is behind the point -/

theorem rounds_nat {n : ℕ} (hn : n ≤ 2 ^ 53) : Rounds (Arith.nat n) n := by
  have hword : (n.toUInt64.toNat : ℤ) = n := by
    rw [UInt64.toNat_ofNat', Nat.mod_eq_of_lt (by omega)]
  have hrounds := rounds_normalize .positive (n.toUInt64.toNat : ℤ) 0
  rw [hword, zpow_zero, mul_one, Int.cast_natCast, ← hword] at hrounds
  change Rounds (ofInt n) n
  rw [ofInt, Int.natAbs_natCast, if_pos (by omega)]
  dsimp only
  rw [if_neg (by omega)]
  exact hrounds

/-- Whole numbers are exact up to that size. -/
theorem size_nat {n : ℕ} (hn : n ≤ 2 ^ 53) :
    Arith.isFinite (Arith.nat n : Double) = true ∧ (Arith.nat n : Double).size = n := by
  have habs : |(n : ℚ)| = n := Nat.abs_cast n
  rcases hn.eq_or_lt with rfl | hlt
  · have h := (rounds_nat le_rfl).size_eq (k := 2 ^ 52) (by norm_num) (e := 1) (by norm_num)
      (by norm_num) (by norm_num)
    rwa [habs] at h
  · have h := (rounds_nat hn).size_eq hlt (e := 0) (by norm_num) (by norm_num)
      (by rw [habs, zpow_zero, mul_one])
    rwa [habs] at h

theorem value_of_zero_le {x : Double} (hx : Arith.le (Arith.nat 0) x = true) :
    x.value = x.size := by
  rcases sign_eq_or_size_eq_zero hx with hs | hsize
  · rw [value_eq_signed, hs]
    rfl
  · rw [value_eq_signed, hsize, signed_zero]

theorem Rounds.zero_le {x : Double} {q : ℚ} (h : Rounds x q) (hq : 0 ≤ q) :
    Arith.le (Arith.nat 0) x = true := by
  have hzero := rounds_nat (Nat.zero_le _)
  rw [Nat.cast_zero] at hzero
  exact hzero.le h hq

/-- What is less than one is less by the last place below one. -/
theorem size_le_of_lt_one {x : Double} (hx : Arith.isFinite x = true) (h : x.size < 1) :
    x.size ≤ (2 ^ 53 - 1) / 2 ^ 53 := by
  have hone : Canonical (2 ^ 52) (-52) := ⟨by norm_num, by norm_num, .inl le_rfl⟩
  have hbelow : Canonical (2 ^ 53 - 1) (-53) := ⟨by norm_num, by norm_num, .inl (by norm_num)⟩
  have hpow : ((2 ^ 52 : ℕ) : ℚ) * 2 ^ (-52 : ℤ) = 1 := by norm_num
  have hmagnitude : x.magnitude ≤ place (2 ^ 53 - 1) (-53) := by
    have hle := nearest_le_nearest x.size_nonneg (h.le.trans_eq hpow.symm)
    rw [nearest_size hx, nearest_of_canonical hone] at hle
    have hne : x.magnitude ≠ place (2 ^ 52) (-52) := by
      intro heq
      rw [size_of_magnitude_eq_place hone (by norm_num) heq, hpow] at h
      exact lt_irrefl _ h
    have hplace : place (2 ^ 53 - 1) (-53) + 1 = place (2 ^ 52) (-52) := by decide
    omega
  refine (size_le_of_magnitude_le_place hbelow (by norm_num) hmagnitude).2.trans_eq ?_
  norm_num

/-- What a number has behind the point has no more digits than the number. -/
theorem exists_fraction {r : Double} (hr : Arith.isFinite r = true) :
    ∃ (k : ℕ) (e : ℤ), k < 2 ^ 53 ∧ -1074 ≤ e ∧ e ≤ 971 ∧ r.size - ⌊r.size⌋₊ = k * 2 ^ e := by
  obtain ⟨m, e, h, he, -, hread⟩ := exists_read hr
  rw [size, hread, Binary.Reading.size]
  rcases le_or_gt 0 e with hpos | hneg
  · -- a whole number
    obtain ⟨n, rfl⟩ := Int.eq_ofNat_of_zero_le hpos
    have hwhole : (m : ℚ) * 2 ^ (n : ℤ) = (m * 2 ^ n : ℕ) := by
      push_cast
      rw [zpow_natCast]
    refine ⟨0, 0, by norm_num, by norm_num, by norm_num, ?_⟩
    rw [hwhole, Nat.floor_natCast, sub_self, Nat.cast_zero, zero_mul]
  · obtain ⟨n, hn⟩ := Int.eq_ofNat_of_zero_le (neg_nonneg.2 hneg.le)
    obtain rfl : e = -n := by omega
    have hshift : (m : ℚ) * 2 ^ (-n : ℤ) = (m : ℚ) / (2 ^ n : ℕ) := by
      rw [zpow_neg, zpow_natCast, div_eq_mul_inv]
      push_cast
      rfl
    have hsplit : (m : ℚ) = 2 ^ n * (m / 2 ^ n : ℕ) + (m % 2 ^ n : ℕ) := by
      exact_mod_cast (Nat.div_add_mod m (2 ^ n)).symm
    refine ⟨m % 2 ^ n, -n, (Nat.mod_le _ _).trans_lt h.lt, h.le, he, ?_⟩
    rw [hshift, Nat.floor_div_eq_div, zpow_neg, zpow_natCast, ← div_eq_mul_inv]
    push_cast
    rw [div_sub' (by positivity), div_left_inj' (by positivity)]
    linarith

/-- What a number has behind the point is exact. -/
theorem size_fraction {r : Double} (hr : Arith.le (Arith.nat 0) r = true)
    (hrf : Arith.isFinite r = true) (hsmall : ⌊r.size⌋₊ ≤ 2 ^ 53) :
    let f := r - Arith.nat ⌊r.size⌋₊
    Rounds f (r.size - ⌊r.size⌋₊) ∧ Arith.isFinite f = true ∧ f.size = r.size - ⌊r.size⌋₊ := by
  intro f
  have hround : Rounds f (r.size - ⌊r.size⌋₊) := by
    obtain ⟨hfinite, hsize⟩ := size_nat hsmall
    have h := rounds_sub hrf hfinite
    rwa [value_of_zero_le hr, value_of_zero_le (zero_le_nat _), hsize] at h
  have hnonneg : 0 ≤ r.size - ⌊r.size⌋₊ := sub_nonneg.2 (Nat.floor_le r.size_nonneg)
  obtain ⟨k, e, hk, he, he', hvalue⟩ := exists_fraction hrf
  have hexact := hround.size_eq hk he he' (by rw [abs_of_nonneg hnonneg, hvalue])
  rw [abs_of_nonneg hnonneg] at hexact
  exact ⟨hround, hexact⟩

/-! ## Between two numbers -/

/-- A part of a number that has all the digits of the format is smaller, also when it is rounded. -/
theorem nearest_part_lt {m : ℕ} {e : ℤ} (h : Canonical m e) (hm : 2 ^ 52 ≤ m) (he : -1074 < e)
    {c : ℚ} (hc : 0 ≤ c) (hc' : c ≤ (2 ^ 53 - 1) / 2 ^ 53) :
    nearest (c * (m * 2 ^ e)) < place m e := by
  have hpow : (0 : ℚ) < 2 ^ e := zpow_pos two_pos e
  have hm' : (2 : ℚ) ^ 52 ≤ m := by exact_mod_cast hm
  have hlt : (m : ℚ) < 2 ^ 53 := by exact_mod_cast h.lt
  have hle : c * (m * 2 ^ e) ≤ (m - m / 2 ^ 53) * 2 ^ e := by
    have hpart : c * m ≤ m - m / 2 ^ 53 := by
      calc c * m ≤ (2 ^ 53 - 1) / 2 ^ 53 * m := by gcongr
        _ = m - m / 2 ^ 53 := by ring
    rw [← mul_assoc]
    gcongr
  refine (nearest_le_nearest (by positivity) hle).trans_lt ?_
  rcases hm.eq_or_lt with rfl | hlarge
  · -- below a power of two there is one more digit
    have hcanonical : Canonical (2 ^ 53 - 1) (e - 1) :=
      ⟨by norm_num, by omega, .inl (by norm_num)⟩
    have hvalue : (((2 ^ 52 : ℕ) : ℚ) - ((2 ^ 52 : ℕ) : ℚ) / 2 ^ 53) * 2 ^ e =
        ((2 ^ 53 - 1 : ℕ) : ℚ) * 2 ^ (e - 1) := by
      rw [zpow_sub_one₀ two_ne_zero]
      norm_num
      ring
    rw [hvalue, nearest_of_canonical hcanonical]
    unfold place
    omega
  · -- elsewhere more than half a place is lost
    have hlow : ((m - 1 : ℕ) : ℚ) ≤ m - m / 2 ^ 53 := by
      rw [Nat.cast_pred (by omega)]
      linarith
    have hhalf : (m : ℚ) - m / 2 ^ 53 < (m - 1 : ℕ) + 1 / 2 := by
      have : (2 : ℚ) ^ 52 < m := by exact_mod_cast hlarge
      rw [Nat.cast_pred (by omega)]
      linarith
    have hfloor : ⌊(m : ℚ) - m / 2 ^ 53⌋₊ = m - 1 :=
      (Nat.floor_eq_iff ((Nat.cast_nonneg _).trans hlow)).2 ⟨hlow, by linarith⟩
    have hshort : m - 1 < 2 ^ 53 := (Nat.sub_le m 1).trans_lt h.lt
    have hlog := log2_eq_iff hshort (by omega)
    have hlast : lastPlace (((m : ℚ) - m / 2 ^ 53) * 2 ^ e) = e := by
      rw [lastPlace_mul_zpow (by linarith) hlow (by linarith) (.inl (by omega)),
        hlog.2 (by omega)]
      omega
    rw [nearest, hlast, mul_div_cancel_right₀ _ hpow.ne', roundEven, hfloor, if_pos hhalf]
    unfold place
    omega

/-- The same for the product of two doubles. -/
theorem magnitude_part_lt {f d : Double} (hf : Arith.isFinite f = true) (hf₁ : f.size < 1)
    (hd : Arith.isFinite d = true) (hlarge : 2 ^ 53 ≤ d.magnitude) :
    (f * d).magnitude < d.magnitude := by
  obtain ⟨m, e, h, -, hplace, hread⟩ := exists_read hd
  rw [hplace] at hlarge
  have hnormal : 2 ^ 52 ≤ m ∧ -1074 < e := by
    obtain ⟨hm, he, hnormal⟩ := h
    unfold place at hlarge
    omega
  rw [magnitude_mul hf hd, hplace, size, size, hread, Binary.Reading.size]
  exact (min_le_right _ _).trans_lt (nearest_part_lt h hnormal.1 hnormal.2 f.size_nonneg
    (size_le_of_lt_one hf hf₁))

section Between

variable {x y f : Double} (hx : Arith.isFinite x = true) (hy : Arith.isFinite y = true)

include hx hy

/-- A distance is a whole number of places. -/
theorem exists_distance : ∃ k : ℕ, |y.value - x.value| = k * 2 ^ (-1074 : ℤ) := by
  obtain ⟨i, hi⟩ := exists_value hx
  obtain ⟨j, hj⟩ := exists_value hy
  refine ⟨(j - i).natAbs, ?_⟩
  rw [hi, hj, ← sub_mul, ← Int.cast_sub, abs_mul, abs_of_pos (zpow_pos two_pos _ : (0 : ℚ) < _),
    Nat.cast_natAbs, Int.cast_abs]

variable (hd : Arith.isFinite (y - x) = true)

include hd

/-- A distance is exact, or it has all the digits of the format when it is rounded. -/
theorem distance_cases :
    (y - x).size = |y.value - x.value| ∨ 2 ^ 53 ≤ (y - x).magnitude := by
  have hround := rounds_sub hy hx
  obtain ⟨k, hk⟩ := exists_distance hx hy
  rcases lt_or_ge k (2 ^ 53) with hsmall | hlarge
  · exact .inl (hround.size_eq hsmall le_rfl (by norm_num) hk).2
  · right
    have hcanonical : Canonical (2 ^ 52) (-1073) := ⟨by norm_num, by norm_num, .inl le_rfl⟩
    have hdouble : (2 : ℚ) ^ (-1073 : ℤ) = 2 * 2 ^ (-1074 : ℤ) :=
      zpow_one_add₀ two_ne_zero (-1074)
    have hle : ((2 ^ 52 : ℕ) : ℚ) * 2 ^ (-1073 : ℤ) ≤ |y.value - x.value| := by
      have hlarge' : ((2 ^ 53 : ℕ) : ℚ) ≤ k := by exact_mod_cast hlarge
      calc ((2 ^ 52 : ℕ) : ℚ) * 2 ^ (-1073 : ℤ) = (2 ^ 53 : ℕ) * 2 ^ (-1074 : ℤ) := by
            rw [hdouble, ← mul_assoc]
            congr 1
            norm_num
        _ ≤ k * 2 ^ (-1074 : ℤ) := by gcongr
        _ = |y.value - x.value| := hk.symm
    have hnearest := nearest_le_nearest (by positivity) hle
    have hfinite := isFinite_iff_magnitude_lt.1 hd
    have hplace : place (2 ^ 52) (-1073) = 2 ^ 53 := by decide
    rw [nearest_of_canonical hcanonical, hplace] at hnearest
    rw [hround.magnitude_eq, roundedMagnitude] at *
    omega

variable (hxy : x.value ≤ y.value) (hf : Arith.isFinite f = true)
  (hf₀ : Arith.le (Arith.nat 0) f = true) (hf₁ : f.size < 1)

include hxy hf hf₀ hf₁

/-- A part of a rounded distance is no larger than the exact distance. -/
theorem value_part_le : Arith.isFinite (f * (y - x)) = true ∧ 0 ≤ (f * (y - x)).value ∧
    (f * (y - x)).value ≤ y.value - x.value := by
  have hnonneg : 0 ≤ y.value - x.value := sub_nonneg.2 hxy
  have hround := rounds_sub hy hx
  have hd₀ := hround.zero_le hnonneg
  have hpart := rounds_mul hf hd
  rw [value_of_zero_le hf₀, value_of_zero_le hd₀] at hpart
  have hpart₀ := hpart.zero_le (mul_nonneg f.size_nonneg (y - x).size_nonneg)
  have hle : Arith.le (f * (y - x)) (y - x) = true := by
    refine hpart.le (rounds_value hd) ?_
    rw [value_of_zero_le hd₀]
    exact mul_le_of_le_one_left (y - x).size_nonneg hf₁.le
  have hfinite := isFinite_of_le hpart₀ hle hd
  refine ⟨hfinite, ?_, ?_⟩
  · rw [value_of_zero_le hpart₀]
    exact size_nonneg _
  · rcases distance_cases hx hy hd with hexact | hlarge
    · rw [abs_of_nonneg hnonneg, ← value_of_zero_le hd₀] at hexact
      rw [← hexact]
      exact (le_iff_value_le hfinite hd).1 hle
    · -- the part is smaller than the rounded distance, and so than the exact one
      have hkey : (f * (y - x)).valueKey < (y - x).valueKey := by
        rw [valueKey_of_zero_le hpart₀, valueKey_of_zero_le hd₀, Nat.cast_lt]
        exact magnitude_part_lt hf hf₁ hd hlarge
      exact ((rounds_value hfinite).lt_of_valueKey_lt hround hkey).le

/-- **What is interpolated between two numbers lies between them.** -/
theorem le_between : Arith.le x (x + f * (y - x)) = true ∧ Arith.le (x + f * (y - x)) y = true := by
  obtain ⟨hpart, hpos, hle⟩ := value_part_le hx hy hd hxy hf hf₀ hf₁
  have hsum := rounds_add hx hpart
  exact ⟨(rounds_value hx).le hsum (by linarith), hsum.le (rounds_value hy) (by linarith)⟩

end Between

end Double

end Starfilm
