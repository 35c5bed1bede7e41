import Starfilm.Proofs.Arith.Unpacked

/-!
# Rounding to doubles

A positive rational number has a last place in double precision (`Double.lastPlace`); what is left
of it there is rounded to the nearest whole number, of two to the even one (`Double.roundEven`). The
magnitude so found (`Double.nearest`) grows with the number (`Double.nearest_le_nearest`), and of a
number that needs no rounding it is its place (`Double.nearest_of_canonical`).

The machine rounds so: it keeps of what it drops one bit and whether there was more
(`Double.Represents`), and rounds by these (`Double.magnitude_roundWithAccuracy`).
-/

namespace Starfilm

namespace Double

open Float.Model (Format UnpackedFloat)
open Float.Model.UnpackedFloat

/-! ## Ties to even -/

/-- The whole number nearest to `q`, of two the even one. -/
def roundEven (q : ℚ) : ℕ :=
  if q < ⌊q⌋₊ + 1 / 2 then ⌊q⌋₊ else if q = ⌊q⌋₊ + 1 / 2 then ⌊q⌋₊ + ⌊q⌋₊ % 2 else ⌊q⌋₊ + 1

theorem floor_le_roundEven (q : ℚ) : ⌊q⌋₊ ≤ roundEven q := by
  unfold roundEven
  split_ifs <;> omega

theorem roundEven_le (q : ℚ) : roundEven q ≤ ⌊q⌋₊ + 1 := by
  unfold roundEven
  split_ifs <;> omega

theorem roundEven_natCast (n : ℕ) : roundEven n = n := by
  rw [roundEven, Nat.floor_natCast, if_pos (by linarith)]

theorem roundEven_le_roundEven {p q : ℚ} (h : p ≤ q) : roundEven p ≤ roundEven q := by
  rcases (Nat.floor_mono h).eq_or_lt with hsame | hbelow
  · -- within one unit the parts above the whole decide
    unfold roundEven
    rw [hsame]
    split_ifs with hp hq hq' hp' hq hq' hq hq'
    all_goals first
      | omega
      | exact absurd (h.trans_lt hq) hp
      | exact absurd (le_antisymm (h.trans hq'.le) (not_lt.1 hp)) hp'
  · exact (roundEven_le p).trans (hbelow.trans_le (floor_le_roundEven q))

theorem le_roundEven {n : ℕ} {q : ℚ} (h : (n : ℚ) ≤ q) : n ≤ roundEven q := by
  rw [← roundEven_natCast n]
  exact roundEven_le_roundEven h

theorem roundEven_le_of_le {n : ℕ} {q : ℚ} (h : q ≤ n) : roundEven q ≤ n := by
  rw [← roundEven_natCast n]
  exact roundEven_le_roundEven h

/-- Half of a small whole number is rounded to a smaller one. -/
theorem roundEven_half_lt {m : ℕ} (hm : 0 < m) : roundEven ((m : ℚ) / 2) < m := by
  have hfloor : ⌊(m : ℚ) / 2⌋₊ = m / 2 := by
    have h := Nat.floor_div_eq_div (K := ℚ) m 2
    rwa [Nat.cast_ofNat] at h
  obtain ⟨k, rfl | rfl⟩ := Nat.even_or_odd' m
  · have hwhole : ((2 * k : ℕ) : ℚ) / 2 = k := by
      push_cast
      ring
    rw [hwhole, roundEven_natCast]
    omega
  · rcases Nat.eq_zero_or_pos k with rfl | hk
    · have hzero : roundEven (((2 * 0 + 1 : ℕ) : ℚ) / 2) = 0 := by
        norm_num [roundEven]
      omega
    · have hle := roundEven_le (((2 * k + 1 : ℕ) : ℚ) / 2)
      omega

/-! ## What the machine keeps -/

/-- A mantissa with its two bits stands for a rational number: the first bit tells whether half a
unit is left, and the second one whether something is left besides. -/
structure Represents (em : ExtendedMantissa) (q : ℚ) : Prop where
  le : (em.mantissa : ℚ) ≤ q
  lt : q < em.mantissa + 1
  roundBit : em.roundBit = true ↔ (em.mantissa : ℚ) + 1 / 2 ≤ q
  stickyBit : em.stickyBit = true ↔ q ≠ em.mantissa ∧ q ≠ em.mantissa + 1 / 2

theorem Represents.floor_eq {em : ExtendedMantissa} {q : ℚ} (h : Represents em q) :
    ⌊q⌋₊ = em.mantissa :=
  (Nat.floor_eq_iff ((Nat.cast_nonneg _).trans h.le)).2 ⟨h.le, h.lt⟩

theorem Represents.roundedMantissa_eq {em : ExtendedMantissa} {q : ℚ} (h : Represents em q) :
    em.roundedMantissa = roundEven q := by
  rw [roundEven, h.floor_eq]
  obtain ⟨m, r, t⟩ := em
  obtain ⟨hle, hlt, hround, hsticky⟩ := h
  dsimp only at *
  cases r with
  | false =>
    have hbelow : q < m + 1 / 2 := not_le.1 (mt hround.2 Bool.false_ne_true)
    rw [if_pos hbelow]
    cases t <;> rfl
  | true =>
    have hhalf : (m : ℚ) + 1 / 2 ≤ q := hround.1 rfl
    rw [if_neg (not_lt.2 hhalf)]
    cases t with
    | false =>
      have hq : q = m + 1 / 2 := by
        by_contra hne
        exact Bool.false_ne_true (hsticky.2 ⟨by linarith, hne⟩)
      rw [if_pos hq]
      rfl
    | true =>
      rw [if_neg (hsticky.1 rfl).2]
      rfl

theorem represents_exact (m : ℕ) :
    Represents (ExtendedMantissa.ofMantissaAndAccuracy m .exact) m where
  le := le_rfl
  lt := by simp [ExtendedMantissa.ofMantissaAndAccuracy]
  roundBit := by simp [ExtendedMantissa.ofMantissaAndAccuracy]
  stickyBit := by simp [ExtendedMantissa.ofMantissaAndAccuracy]

theorem represents_inexact (m : ℕ) {f : ℚ} (hpos : 0 < f) (hlt : f < 1) :
    Represents (ExtendedMantissa.ofMantissaAndAccuracy m (.inexact (compare f (1 / 2))))
      (m + f) := by
  have hne : (m : ℚ) + f ≠ m := by
    intro h
    linarith
  rcases lt_trichotomy f (1 / 2) with h | h | h
  · rw [compare_lt_iff_lt.2 h]
    refine ⟨?_, ?_, iff_of_false Bool.false_ne_true ?_, iff_of_true rfl ⟨hne, ?_⟩⟩ <;>
      dsimp only [ExtendedMantissa.ofMantissaAndAccuracy]
    all_goals linarith
  · rw [compare_eq_iff_eq.2 h, h]
    refine ⟨?_, ?_, iff_of_true rfl le_rfl, iff_of_false Bool.false_ne_true fun hs => hs.2 rfl⟩ <;>
      dsimp only [ExtendedMantissa.ofMantissaAndAccuracy] <;> linarith
  · rw [compare_gt_iff_gt.2 h]
    refine ⟨?_, ?_, iff_of_true rfl ?_, iff_of_true rfl ⟨hne, ?_⟩⟩ <;>
      dsimp only [ExtendedMantissa.ofMantissaAndAccuracy]
    all_goals linarith

theorem represents_fraction (m : ℕ) {num den : ℕ} (h : num < den) :
    Represents (ExtendedMantissa.ofMantissaAndAccuracy m (accuracyOfFraction num den))
      (m + num / den) := by
  have hden : (0 : ℚ) < den := by exact_mod_cast (Nat.zero_le num).trans_lt h
  rw [accuracyOfFraction]
  split_ifs with hzero
  · rw [hzero, Nat.cast_zero, zero_div, add_zero]
    exact represents_exact m
  · have hcompare : compare (2 * num) den = compare ((num : ℚ) / den) (1 / 2) := by
      have hlt : 2 * num < den ↔ (num : ℚ) / den < 1 / 2 := by
        rw [div_lt_div_iff₀ hden two_pos, one_mul, mul_comm]
        exact_mod_cast Iff.rfl
      have hgt : den < 2 * num ↔ 1 / 2 < (num : ℚ) / den := by
        rw [div_lt_div_iff₀ two_pos hden, one_mul, mul_comm]
        exact_mod_cast Iff.rfl
      rcases lt_trichotomy (2 * num) den with hcase | hcase | hcase
      · rw [compare_lt_iff_lt.2 hcase, compare_lt_iff_lt.2 (hlt.1 hcase)]
      · have heq : (num : ℚ) / den = 1 / 2 :=
          le_antisymm (not_lt.1 (mt hgt.2 hcase.not_gt)) (not_lt.1 (mt hlt.2 hcase.not_lt))
        rw [compare_eq_iff_eq.2 hcase, compare_eq_iff_eq.2 heq]
      · rw [compare_gt_iff_gt.2 hcase, compare_gt_iff_gt.2 (hgt.1 hcase)]
    rw [hcompare]
    refine represents_inexact m ?_ ((div_lt_one hden).2 (by exact_mod_cast h))
    have hnum : (0 : ℚ) < num := by exact_mod_cast Nat.pos_of_ne_zero hzero
    positivity

theorem Represents.shiftRightOne {em : ExtendedMantissa} {q : ℚ} (h : Represents em q) :
    Represents em.shiftRightOne (q / 2) := by
  obtain ⟨m, r, t⟩ := em
  obtain ⟨hle, hlt, hround, hsticky⟩ := h
  dsimp only at hle hlt hround hsticky
  have hm : (m : ℚ) = 2 * (m / 2 : ℕ) + (m % 2 : ℕ) := by exact_mod_cast (Nat.div_add_mod m 2).symm
  have hleft : (r || t) = true ↔ q ≠ m := by
    rw [Bool.or_eq_true, hround, hsticky]
    constructor
    · rintro (h | h)
      · intro heq
        linarith
      · exact h.1
    · intro hne
      by_cases hhalf : q = m + 1 / 2
      · exact .inl hhalf.ge
      · exact .inr ⟨hne, hhalf⟩
  refine ⟨?_, ?_, ?_, ?_⟩ <;> dsimp only [ExtendedMantissa.shiftRightOne]
  · linarith [Nat.cast_nonneg (α := ℚ) (m % 2)]
  · have hbit : ((m % 2 : ℕ) : ℚ) ≤ 1 := by exact_mod_cast Nat.le_of_lt_succ (Nat.mod_lt m two_pos)
    linarith
  · -- the new first bit is the last place of the mantissa
    rcases Nat.mod_two_eq_zero_or_one m with hbit | hbit <;> rw [hbit] at hm ⊢
    · refine iff_of_false (by decide) ?_
      push_cast at hm
      linarith
    · refine iff_of_true (by decide) ?_
      push_cast at hm
      linarith
  · rw [hleft]
    rcases Nat.mod_two_eq_zero_or_one m with hbit | hbit <;> rw [hbit] at hm <;> push_cast at hm
    · refine ⟨fun hne => ⟨fun h => hne (by linarith), fun h => by linarith⟩, fun h heq => ?_⟩
      exact h.1 (by linarith)
    · refine ⟨fun hne => ⟨fun h => by linarith, fun h => hne (by linarith)⟩, fun h heq => ?_⟩
      exact h.2 (by linarith)

theorem Represents.shiftRight {em : ExtendedMantissa} {q : ℚ} (h : Represents em q) (n : ℕ) :
    Represents (em >>> n) (q / 2 ^ n) := by
  change Represents (n.repeat ExtendedMantissa.shiftRightOne em) _
  induction n with
  | zero =>
    rw [pow_zero, div_one]
    exact h
  | succ n ih =>
    rw [pow_succ, ← div_div]
    exact ih.shiftRightOne

/-! ## The nearest magnitude -/

/-- The exponent of the last place that double precision keeps of a number that is not negative. -/
def lastPlace (v : ℚ) : ℤ := if v = 0 then -1074 else max (Int.log 2 v - 52) (-1074)

/-- The magnitude nearest to such a number, if magnitudes went on beyond infinity. -/
def nearest (v : ℚ) : ℕ := place (roundEven (v / 2 ^ lastPlace v)) (lastPlace v)

section Nearest

variable {v w : ℚ}

theorem lastPlace_of_pos (hv : 0 < v) : lastPlace v = max (Int.log 2 v - 52) (-1074) :=
  if_neg hv.ne'

/-- Below the normal numbers the last place is the smallest one. -/
theorem lastPlace_eq_lowest (hv : 0 < v) (h : v < 2 ^ (-1022 : ℤ)) : lastPlace v = -1074 := by
  have hlog : Int.log 2 v < -1022 :=
    (Int.lt_zpow_iff_log_lt one_lt_two hv).1 (by exact_mod_cast h)
  rw [lastPlace_of_pos hv]
  omega

theorem neg_le_lastPlace (v : ℚ) : -1074 ≤ lastPlace v := by
  unfold lastPlace
  split_ifs
  · exact le_rfl
  · exact le_max_right _ _

@[simp] theorem nearest_zero : nearest 0 = 0 := by
  have hfloor : roundEven 0 = 0 := roundEven_natCast 0
  rw [nearest, zero_div, hfloor, lastPlace, if_pos rfl]
  rfl

theorem lastPlace_le_lastPlace (hv : 0 < v) (h : v ≤ w) : lastPlace v ≤ lastPlace w := by
  rw [lastPlace_of_pos hv, lastPlace_of_pos (hv.trans_le h)]
  exact max_le_max (sub_le_sub_right (Int.log_mono_right hv h) 52) le_rfl

theorem div_lastPlace_lt (hv : 0 < v) : v / 2 ^ lastPlace v < 2 ^ 53 := by
  have hlog : v < 2 ^ (Int.log 2 v + 1) := by exact_mod_cast Int.lt_zpow_succ_log_self one_lt_two v
  rw [lastPlace_of_pos hv, div_lt_iff₀ (zpow_pos two_pos _), ← zpow_natCast,
    ← zpow_add₀ two_ne_zero]
  refine hlog.trans_le (zpow_le_zpow_right₀ one_le_two ?_)
  have := le_max_left (Int.log 2 v - 52) (-1074)
  push_cast
  linarith

theorem le_div_lastPlace (hv : 0 < v) (h : -1074 < lastPlace v) :
    2 ^ 52 ≤ v / 2 ^ lastPlace v := by
  have hlog : (2 : ℚ) ^ Int.log 2 v ≤ v := by exact_mod_cast Int.zpow_log_le_self one_lt_two hv
  rw [le_div_iff₀ (zpow_pos two_pos _), ← zpow_natCast, ← zpow_add₀ two_ne_zero]
  refine (zpow_le_zpow_right₀ one_le_two ?_).trans hlog
  rw [lastPlace_of_pos hv] at *
  push_cast
  omega

theorem roundEven_div_lastPlace_le (hv : 0 < v) : roundEven (v / 2 ^ lastPlace v) ≤ 2 ^ 53 :=
  roundEven_le_of_le (by exact_mod_cast (div_lastPlace_lt hv).le)

theorem le_roundEven_div_lastPlace (hv : 0 < v) (h : -1074 < lastPlace v) :
    2 ^ 52 ≤ roundEven (v / 2 ^ lastPlace v) :=
  le_roundEven (by exact_mod_cast le_div_lastPlace hv h)

/-- **The nearest magnitude grows with the number.** -/
theorem nearest_le_nearest (hv : 0 ≤ v) (h : v ≤ w) : nearest v ≤ nearest w := by
  rcases hv.eq_or_lt with rfl | hv
  · rw [nearest_zero]
    exact Nat.zero_le _
  have hlow := neg_le_lastPlace v
  unfold nearest place
  rcases (lastPlace_le_lastPlace hv h).eq_or_lt with hsame | hbelow
  · -- on one grid the mantissas are rounded alike
    rw [hsame]
    gcongr
    exact roundEven_le_roundEven (by gcongr)
  · -- a number with a last place further up reaches at least the end of the grid below
    have hv' := roundEven_div_lastPlace_le hv
    have hw := le_roundEven_div_lastPlace (hv.trans_le h) (hlow.trans_lt hbelow)
    omega

/-- The exponent of the first place. -/
theorem log_mul_zpow {m : ℕ} (hm : 0 < m) (e : ℤ) {q : ℚ} (hle : m ≤ q) (hlt : q < m + 1) :
    Int.log 2 (q * 2 ^ e) = m.log2 + e := by
  have hpos : 0 < q := lt_of_lt_of_le (by exact_mod_cast hm) hle
  have hq : 0 < q * (2 : ℚ) ^ e := by positivity
  have hlow : (2 : ℚ) ^ m.log2 ≤ q := le_trans (by exact_mod_cast Nat.log2_self_le hm.ne') hle
  have hhigh : q < (2 : ℚ) ^ (m.log2 + 1) :=
    hlt.trans_le (by exact_mod_cast Nat.succ_le_of_lt Nat.lt_log2_self)
  apply le_antisymm
  · rw [← Int.lt_add_one_iff, ← Int.lt_zpow_iff_log_lt one_lt_two hq]
    have : (2 : ℚ) ^ ((m.log2 : ℤ) + e + 1) = 2 ^ (m.log2 + 1) * 2 ^ e := by
      rw [← zpow_natCast, ← zpow_add₀ two_ne_zero]
      congr 1
      push_cast
      ring
    push_cast
    rw [this]
    gcongr
  · rw [← Int.zpow_le_iff_le_log one_lt_two hq]
    push_cast
    rw [zpow_add₀ two_ne_zero, zpow_natCast]
    gcongr

/-- The last place of a number whose whole part, at some exponent, is `m`. -/
theorem lastPlace_mul_zpow {m : ℕ} {e : ℤ} {q : ℚ} (hpos : 0 < q) (hle : m ≤ q) (hlt : q < m + 1)
    (hm : 0 < m ∨ e ≤ -1074) :
    lastPlace (q * 2 ^ e) = max ((m.log2 : ℤ) + e - 52) (-1074) := by
  have hv : 0 < q * (2 : ℚ) ^ e := by positivity
  rcases Nat.eq_zero_or_pos m with rfl | hm'
  · have he : e ≤ -1074 := hm.resolve_left (lt_irrefl 0)
    have hsmall : q * 2 ^ e < (2 : ℚ) ^ (-1022 : ℤ) := by
      calc q * 2 ^ e < 1 * 2 ^ e := by
            gcongr
            simpa using hlt
        _ ≤ 2 ^ (-1022 : ℤ) := by
            rw [one_mul]
            exact zpow_le_zpow_right₀ one_le_two (by omega)
    have hzero : (Nat.log2 0 : ℤ) = 0 := rfl
    rw [lastPlace_eq_lowest hv hsmall, hzero]
    omega
  · rw [lastPlace_of_pos hv, log_mul_zpow hm' e hle hlt]

theorem Canonical.log2_le {m : ℕ} {e : ℤ} (h : Canonical m e) : m.log2 ≤ 52 := by
  rcases Nat.eq_zero_or_pos m with rfl | hm
  · decide
  · exact Nat.le_of_lt_succ ((Nat.log2_lt hm.ne').2 h.lt)

/-- A number that needs no rounding is its own nearest one. -/
theorem nearest_of_canonical {m : ℕ} {e : ℤ} (h : Canonical m e) :
    nearest (m * 2 ^ e) = place m e := by
  have hlen := h.log2_le
  have hlast : lastPlace (m * 2 ^ e) = e := by
    rcases Nat.eq_zero_or_pos m with rfl | hm
    · have he : e = -1074 := h.normal.resolve_left (by norm_num)
      rw [Nat.cast_zero, zero_mul, lastPlace, if_pos rfl, he]
    · have hlog := log2_eq_iff h.lt hm
      obtain ⟨hlt, hle, hnormal⟩ := h
      rw [lastPlace_mul_zpow (by exact_mod_cast hm) le_rfl (lt_add_one _) (.inl hm)]
      omega
  rw [nearest, hlast, mul_div_cancel_right₀ _ (zpow_ne_zero e two_ne_zero), roundEven_natCast]

theorem one_le_nearest (hv : 2 ^ (-1074 : ℤ) ≤ v) : 1 ≤ nearest v := by
  have hone : nearest ((1 : ℕ) * 2 ^ (-1074 : ℤ)) = 1 :=
    nearest_of_canonical ⟨by norm_num, le_rfl, .inr rfl⟩
  rw [← hone]
  refine nearest_le_nearest (by positivity) ?_
  rwa [Nat.cast_one, one_mul]

end Nearest

/-! ## How the machine rounds -/

theorem targetExponent_eq (m : ℕ) (e : ℤ) :
    Format.binary64.targetExponent (Float.Model.totalExponent m e) =
      max ((m.log2 : ℤ) + e - 52) (-1074) := by
  change max ((m.log2 : ℤ) + 1 + e - (53 : ℕ)) (-1074) = _
  push_cast
  congr 1
  ring

theorem shiftToTargetExponent_eq (m : ℕ) (e : ℤ) (a : Accuracy) {k : ℕ}
    (hk : max ((m.log2 : ℤ) + e - 52) (-1074) = e + k) :
    shiftToTargetExponent Format.binary64 m e a =
      (ExtendedMantissa.ofMantissaAndAccuracy m a >>> k, e + k) := by
  have hshift : (e + k - e).toNat = k := by omega
  rw [shiftToTargetExponent, targetExponent_eq, hk, shiftToExponent, hshift]

/-- After rounding the mantissa may have become one place too long, and is shifted by it. Its place
stays what it was. -/
theorem exists_canonical_of_carry {r : ℕ} {e : ℤ} (hr : r ≤ 2 ^ 53) (he : -1074 ≤ e)
    (hnormal : 2 ^ 52 ≤ r ∨ e = -1074) :
    Canonical (shiftToTargetExponent Format.binary64 r e .exact).1.mantissa
        (shiftToTargetExponent Format.binary64 r e .exact).2 ∧
      place (shiftToTargetExponent Format.binary64 r e .exact).1.mantissa
        (shiftToTargetExponent Format.binary64 r e .exact).2 = place r e := by
  rcases hr.eq_or_lt with rfl | hlt
  · have hk : max (((2 ^ 53 : ℕ).log2 : ℤ) + e - 52) (-1074) = e + (1 : ℕ) := by
      rw [Nat.log2_two_pow]
      omega
    rw [shiftToTargetExponent_eq _ _ _ hk]
    change Canonical (2 ^ 53 / 2) (e + 1) ∧ place (2 ^ 53 / 2) (e + 1) = place (2 ^ 53) e
    refine ⟨⟨by norm_num, by omega, .inl (by norm_num)⟩, ?_⟩
    unfold place
    omega
  · have hcanonical : Canonical r e := ⟨hlt, he, hnormal⟩
    have hk : max ((r.log2 : ℤ) + e - 52) (-1074) = e + (0 : ℕ) := by
      have hlen := hcanonical.log2_le
      rcases Nat.eq_zero_or_pos r with rfl | hpos
      · have : (Nat.log2 0 : ℤ) = 0 := rfl
        omega
      · have hlog := log2_eq_iff hlt hpos
        omega
    rw [shiftToTargetExponent_eq _ _ _ hk, Nat.cast_zero, add_zero]
    exact ⟨hcanonical, rfl⟩

/-- **What the machine rounds to** has the nearest magnitude, or is infinite when that is too large.
The exponent must be no greater than that of the last place. -/
theorem magnitude_roundWithAccuracy (s : Sign) {m : ℕ} {e : ℤ} {a : Accuracy} {q : ℚ}
    (hq : Represents (ExtendedMantissa.ofMantissaAndAccuracy m a) q) (hpos : 0 < q)
    (he : e ≤ max ((m.log2 : ℤ) + e - 52) (-1074)) (hm : 0 < m ∨ e ≤ -1074) :
    (ofUnpacked (roundWithAccuracy Format.binary64 s m e a)).magnitude =
      min 0x7FF0000000000000 (nearest (q * 2 ^ e)) := by
  have hv : 0 < q * (2 : ℚ) ^ e := by positivity
  have hle : (m : ℚ) ≤ q := mantissa_ofMantissaAndAccuracy m a ▸ hq.le
  have hlt : q < m + 1 := mantissa_ofMantissaAndAccuracy m a ▸ hq.lt
  have hlast : lastPlace (q * 2 ^ e) = max ((m.log2 : ℤ) + e - 52) (-1074) :=
    lastPlace_mul_zpow hpos hle hlt hm
  obtain ⟨k, hk⟩ := Int.exists_add_of_le he
  have hk' : max ((m.log2 : ℤ) + e - 52) (-1074) = e + k := hk
  have hscaled : q * 2 ^ e / 2 ^ lastPlace (q * 2 ^ e) = q / 2 ^ k := by
    rw [hlast, hk', zpow_add₀ two_ne_zero, zpow_natCast, mul_comm (2 ^ e),
      mul_div_mul_right _ _ (zpow_ne_zero e two_ne_zero)]
  have hrounded : (ExtendedMantissa.ofMantissaAndAccuracy m a >>> k).roundedMantissa =
      roundEven (q * 2 ^ e / 2 ^ lastPlace (q * 2 ^ e)) := by
    rw [hscaled]
    exact (hq.shiftRight k).roundedMantissa_eq
  obtain ⟨hcanonical, hplace⟩ := exists_canonical_of_carry
    (roundEven_div_lastPlace_le hv) (neg_le_lastPlace (q * 2 ^ e)) (by
      rcases (neg_le_lastPlace (q * 2 ^ e)).eq_or_lt with h | h
      · exact .inr h.symm
      · exact .inl (le_roundEven_div_lastPlace hv h))
  rw [nearest, ← hplace, roundWithAccuracy, shiftToTargetExponent_eq m e a hk']
  dsimp only
  rw [hrounded, ← hk', ← hlast]
  split_ifs with hzero
  · obtain ⟨-, -, hnormal⟩ := hcanonical
    rw [magnitude_ofUnpacked_zero]
    unfold place
    omega
  · exact magnitude_ofUnpacked_finite s _ hcanonical

theorem sign_roundWithAccuracy (s : Sign) (m : ℕ) (e : ℤ) (a : Accuracy) :
    (ofUnpacked (roundWithAccuracy Format.binary64 s m e a)).sign = s := by
  rw [roundWithAccuracy]
  dsimp only
  split_ifs
  · exact sign_ofUnpacked_zero s
  · exact sign_ofUnpacked_finite s _

end Double

end Starfilm
