import Mathlib.Algebra.Order.Field.Rat
import Mathlib.Data.Rat.Floor
import Starfilm.Proofs.Window.Percentile

/-!
# Percentiles as quantiles

The percentiles of ascending values `v` lie on the broken line through the points `(i, v[i])`, which
is straight between neighbours (`OnBrokenLine`); `quantile` is its height at the rank of a
percentage. `IsQuantile` gathers what is true of such a function: it stays between neighbours,
begins with the first value, ends with the last and never falls. It also never falls when the values
rise (`quantile_le_quantile`).

That no value is read where there is none does not ask for finite numbers: an infinite percentage
has the first or the last rank, and one that is no number is read at the first value
(`upperIndex_rank_lt`). So only of no data there is no percentile (`percentile_eq_none_iff`).

**Main statement**: `percentile_quantile`.
-/

namespace Starfilm

variable {K : Type} [Field K] [LinearOrder K] [IsStrictOrderedRing K] [FloorRing K]

/-! ## The broken line -/

/-- `p` is the height at `r` of the broken line through the points `(i, v[i])`. -/
structure OnBrokenLine (v : List K) (r p : K) : Prop where
  corner (i : ℕ) (h : i < v.length) : r = i → p = v[i]
  segment (i : ℕ) (h : i + 1 < v.length) : i ≤ r → r ≤ i + 1 →
    p = (i + 1 - r) * v[i] + (r - i) * v[i + 1]

section Line

variable {v : List K} {r : K}

/-- A rank is that of a value or lies between those of two neighbours. -/
theorem exists_segment (h0 : 0 ≤ r) (hr : ⌈r⌉₊ < v.length) : (∃ i < v.length, r = i) ∨
    ∃ i, i + 1 < v.length ∧ (i : K) ≤ r ∧ r ≤ i + 1 := by
  rcases (Nat.floor_le h0).eq_or_lt with hwhole | hlt
  · exact .inl ⟨⌊r⌋₊, (Nat.floor_le_ceil r).trans_lt hr, hwhole.symm⟩
  · have hnext : ⌊r⌋₊ + 1 ≤ ⌈r⌉₊ := Nat.lt_ceil.2 hlt
    exact .inr ⟨⌊r⌋₊, hnext.trans_lt hr, hlt.le, (Nat.lt_floor_add_one r).le⟩

theorem atRank_natCast {i : ℕ} (h : i < v.length) :
    atRank v (i : K) = v[i] := by
  rw [atRank, Nat.floor_natCast, Nat.ceil_natCast, sub_self, zero_mul, add_zero,
    List.getD_eq_getElem _ _ h]

theorem atRank_of_mem_segment {i : ℕ} (h : i + 1 < v.length) (hlo : (i : K) ≤ r)
    (hhi : r ≤ i + 1) : atRank v r = (i + 1 - r) * v[i] + (r - i) * v[i + 1] := by
  rcases hhi.eq_or_lt with rfl | hlt
  · -- the end of a segment is a corner
    have hcorner := atRank_natCast (K := K) h
    rw [Nat.cast_add, Nat.cast_one] at hcorner
    rw [hcorner, sub_self, zero_mul, zero_add, add_sub_cancel_left, one_mul]
  · have hfloor : ⌊r⌋₊ = i := (Nat.floor_eq_iff ((Nat.cast_nonneg i).trans hlo)).2 ⟨hlo, hlt⟩
    rw [atRank_eq v ((Nat.cast_nonneg i).trans hlo), hfloor, List.getD_eq_getElem _ _ h,
      List.getD_eq_getElem _ _ ((Nat.lt_succ_self i).trans h)]
    ring

/-- **The value at a rank is the height of the broken line**, which has one height there. -/
theorem onBrokenLine_iff (h0 : 0 ≤ r) (hr : ⌈r⌉₊ < v.length) {p : K} :
    OnBrokenLine v r p ↔ p = atRank v r := by
  constructor
  · intro h
    rcases exists_segment h0 hr with ⟨i, hi, rfl⟩ | ⟨i, hi, hlo, hhi⟩
    · rw [h.corner i hi rfl, atRank_natCast hi]
    · rw [h.segment i hi hlo hhi, atRank_of_mem_segment hi hlo hhi]
  · rintro rfl
    refine ⟨?_, fun i hi hlo hhi => atRank_of_mem_segment hi hlo hhi⟩
    rintro i hi rfl
    exact atRank_natCast hi

/-- Higher values have a higher line. -/
theorem atRank_le_atRank {w : List K} (h : List.Forall₂ (· ≤ ·) v w) (h0 : 0 ≤ r)
    (hr : ⌈r⌉₊ < v.length) : atRank v r ≤ atRank w r := by
  have hlength : v.length = w.length := h.length_eq
  have hle (i : ℕ) (hi : i < v.length) (hi' : i < w.length) : v[i] ≤ w[i] := h.get hi hi'
  rcases exists_segment h0 hr with ⟨i, hi, rfl⟩ | ⟨i, hi, hlo, hhi⟩
  · rw [atRank_natCast hi, atRank_natCast (hlength ▸ hi)]
    exact hle i hi _
  · rw [atRank_of_mem_segment hi hlo hhi, atRank_of_mem_segment (hlength ▸ hi) hlo hhi]
    have hleft : 0 ≤ (i : K) + 1 - r := sub_nonneg.2 hhi
    have hright : 0 ≤ r - i := sub_nonneg.2 hlo
    gcongr
    · exact hle i _ _
    · exact hle (i + 1) hi _

end Line

/-! ## Indices -/

open Exact

section Ranks

omit [FloorRing K]

theorem rankOf_of_nonpos (n : ℕ) {q : K} (h : q ≤ 0) : rankOf n q = 0 := by
  have hle : ofPercent q ≤ 0 := div_nonpos_of_nonpos_of_nonneg h (by norm_num)
  rw [rankOf, max_eq_left ((min_le_right _ _).trans hle), zero_mul]

theorem rankOf_of_hundred_le (n : ℕ) {q : K} (h : 100 ≤ q) : rankOf n q = ((n - 1 : ℕ) : K) := by
  have hle : 1 ≤ ofPercent q := (one_le_div (by norm_num)).2 h
  rw [rankOf, min_eq_left hle, max_eq_right zero_le_one, one_mul]

end Ranks

theorem clamp_infinite (lo hi : K) (s : Bool) :
    Arith.clamp (finite lo) (finite hi) (infinite s) = finite (if s then lo else hi) := by
  cases s <;> rfl

/-- An infinite percentage has the rank of the first or of the last value. -/
theorem rank_infinite (n : ℕ) (s : Bool) :
    rank n (infinite s : Exact K) = finite (rankOf n (if s then 0 else 100)) := by
  have hdiv : (infinite s / finite ((100 : ℤ) : K) : Exact K) = infinite s := by
    change infinite (s ^^ decide (((100 : ℤ) : K) < 0)) = _
    rw [decide_eq_false (by norm_num), Bool.xor_false]
  simp only [rank, Arith.nat, ofInt_eq, Nat.cast_ofNat, hdiv, Nat.cast_zero, Int.cast_zero,
    Nat.cast_one, Int.cast_one, clamp_infinite, finite_mul, Int.cast_natCast]
  cases s with
  | true => rw [if_pos rfl, if_pos rfl, rankOf_of_nonpos n le_rfl, zero_mul]
  | false =>
    rw [if_neg Bool.false_ne_true, if_neg Bool.false_ne_true, rankOf_of_hundred_le n le_rfl,
      one_mul]

/-- **No value is read where there is none**, whatever the percentage is. -/
theorem upperIndex_rank_lt {n : ℕ} (hn : 0 < n) (q : Exact K) :
    lowerIndex n (rank n q) < n ∧ upperIndex n (rank n q) < n := by
  have hrank (q : K) : lowerIndex n (finite (rankOf n q)) < n ∧
      upperIndex n (finite (rankOf n q)) < n := by
    have hceil := ceil_rankOf_lt hn q
    rw [lowerIndex_finite (rankOf_nonneg n q) hceil, upperIndex_finite (rankOf_nonneg n q) hceil]
    exact ⟨(Nat.floor_le_ceil _).trans_lt hceil, hceil⟩
  cases q with
  | finite q =>
    rw [rank_finite]
    exact hrank q
  | infinite s =>
    rw [rank_infinite]
    exact hrank _
  | nan => exact ⟨hn, hn⟩

/-- There is a percentile of any data, except of none. -/
theorem percentile_eq_none_iff (values : List (Exact K)) (q : Exact K) :
    percentile values q = none ↔ values = [] := by
  constructor
  · intro h
    by_contra hne
    obtain ⟨hlo, hhi⟩ := upperIndex_rank_lt (List.length_pos_iff.2 hne) q
    simp only [percentile, List.getElem?_eq_getElem hlo, List.getElem?_eq_getElem hhi] at h
    cases h
  · rintro rfl
    rfl

/-! ## The quantile -/

/-- The height of the broken line at the rank of a percentage. -/
def quantile (v : List K) (q : K) : K := atRank v (rankOf v.length q)

/-- `f` gives the percentiles of the ascending values `v`. -/
structure IsQuantile (v : List K) (f : K → K) : Prop where
  percentile_eq (q : K) : percentile (v.map finite) (finite q) = some (finite (f q))
  /-- It is the height of the broken line, and there is one height only. -/
  onBrokenLine_iff (q p : K) : OnBrokenLine v (rankOf v.length q) p ↔ p = f q
  /-- It lies between the neighbours. -/
  between (q : K) : ∃ a b, v[⌊rankOf v.length q⌋₊]? = some a ∧ v[⌈rankOf v.length q⌉₊]? = some b ∧
    a ≤ f q ∧ f q ≤ b
  first (q : K) : q ≤ 0 → v.head? = some (f q)
  last (q : K) : 100 ≤ q → v.getLast? = some (f q)
  monotone : Monotone f

section Quantile

variable {v : List K} (hv : v ≠ [])

include hv

theorem quantile_of_nonpos {q : K} (h : q ≤ 0) : v.head? = some (quantile v q) := by
  have hpos : 0 < v.length := List.length_pos_iff.2 hv
  have hfirst := atRank_natCast (K := K) hpos
  rw [quantile, rankOf_of_nonpos _ h, ← Nat.cast_zero, hfirst, List.head?_eq_getElem?,
    List.getElem?_eq_getElem hpos]

theorem quantile_of_hundred_le {q : K} (h : 100 ≤ q) : v.getLast? = some (quantile v q) := by
  have hpos : 0 < v.length := List.length_pos_iff.2 hv
  have hlt : v.length - 1 < v.length := Nat.sub_lt hpos one_pos
  rw [quantile, rankOf_of_hundred_le _ h, atRank_natCast hlt, List.getLast?_eq_getElem?,
    List.getElem?_eq_getElem hlt]

theorem isQuantile_quantile (hsorted : v.Pairwise (· ≤ ·)) : IsQuantile v (quantile v) := by
  have hpos : 0 < v.length := List.length_pos_iff.2 hv
  have h0 (q : K) := rankOf_nonneg v.length q
  have hceil (q : K) := ceil_rankOf_lt hpos q
  refine ⟨percentile_map_finite hv, fun q p => onBrokenLine_iff (h0 q) (hceil q), fun q => ?_,
    fun q => quantile_of_nonpos hv, fun q => quantile_of_hundred_le hv, fun q q' h => ?_⟩
  · have hfloor := (Nat.floor_le_ceil (rankOf v.length q)).trans_lt (hceil q)
    have hlo := getD_floor_le_atRank hsorted (h0 q) (hceil q)
    have hhi := atRank_le_getD_ceil hsorted (hceil q)
    rw [List.getD_eq_getElem _ _ hfloor] at hlo
    rw [List.getD_eq_getElem _ _ (hceil q)] at hhi
    exact ⟨_, _, List.getElem?_eq_getElem hfloor, List.getElem?_eq_getElem (hceil q), hlo, hhi⟩
  · exact atRank_mono hsorted (h0 q) (rankOf_mono v.length h) (hceil q')

end Quantile

/-- Higher values have higher percentiles. -/
theorem quantile_le_quantile {v w : List K} (h : List.Forall₂ (· ≤ ·) v w) (q : K) :
    quantile v q ≤ quantile w q := by
  cases v with
  | nil =>
    obtain rfl := List.forall₂_nil_left_iff.1 h
    exact le_rfl
  | cons a v =>
    rw [quantile, quantile, ← h.length_eq]
    exact atRank_le_atRank h (rankOf_nonneg _ _) (ceil_rankOf_lt (Nat.succ_pos v.length) q)

/-- **Percentiles are linear quantiles.** Whatever the percentage is, no value is read where there
is none, and only of no data there is no percentile. Of ascending values the percentile is the
height of the broken line through them, with all that follows, and it rises with the values. -/
theorem percentile_quantile :
    (∀ (values : List (Exact K)) (q : Exact K), (percentile values q = none ↔ values = []) ∧
        (values ≠ [] → lowerIndex values.length (rank values.length q) < values.length ∧
          upperIndex values.length (rank values.length q) < values.length)) ∧
      (∀ v : List K, v ≠ [] → v.Pairwise (· ≤ ·) → IsQuantile v (quantile v)) ∧
      ∀ v w : List K, List.Forall₂ (· ≤ ·) v w → ∀ q, quantile v q ≤ quantile w q := by
  refine ⟨fun values q => ⟨percentile_eq_none_iff values q, fun hne => ?_⟩, fun v hv => ?_, ?_⟩
  · exact upperIndex_rank_lt (List.length_pos_iff.2 hne) q
  · exact isQuantile_quantile hv
  · exact fun v w h q => quantile_le_quantile h q

/-- The lower quarter of two values, beside that of higher values. -/
theorem percentile_quantile_quarter :
    let v : List ℚ := [0, 10]
    let w : List ℚ := [2, 10]
    ((v ≠ [] ∧ v.Pairwise (· ≤ ·)) ∧ List.Forall₂ (· ≤ ·) v w) ∧
      percentile (v.map finite) (finite 25) = some (finite (5 / 2)) ∧ IsQuantile v (quantile v) ∧
      quantile v 25 ≤ quantile w 25 := by
  intro v w
  have hne : v ≠ [] := List.cons_ne_nil _ _
  have hsorted : v.Pairwise (· ≤ ·) := by decide +kernel
  have hle : List.Forall₂ (· ≤ ·) v w :=
    .cons (by norm_num) (.cons le_rfl .nil)
  have hquarter : quantile v 25 = 5 / 2 := by decide +kernel
  obtain ⟨-, hquantile, hrises⟩ := percentile_quantile (K := ℚ)
  refine ⟨⟨⟨hne, hsorted⟩, hle⟩, ?_, hquantile v hne hsorted, hrises v w hle 25⟩
  rw [(hquantile v hne hsorted).percentile_eq, hquarter]

end Starfilm
