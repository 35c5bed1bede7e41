import Starfilm.Proofs.View.Scaling
import Starfilm.Proofs.Window.Exact

/-!
# The window in another unit of length

Percentiles are scaled with the values (`atRank_map_mul`), and so is the padded range around them.
The widening of a range without a width is a share of its place and scales too, save at zero, where
it is a length of its own: so the two percentiles of an axis must not both be zero
(`Framing.AtZero`). Then the window of scaled points is the scaled window (`estimate_scale`).
-/

namespace Starfilm

/-- Both percentiles of some values are zero. -/
def Framing.AtZero {F : Type} [Arith F] (s : Framing F) (values : List F) : Prop :=
  let sorted := values.mergeSort Arith.totalLe
  percentile sorted s.lowerPercentile = some (Arith.nat 0) ∧
    percentile sorted s.upperPercentile = some (Arith.nat 0)

variable {K : Type} [Field K] [LinearOrder K] [IsStrictOrderedRing K] [FloorRing K]

/-! ## Ranges -/

omit [LinearOrder K] [IsStrictOrderedRing K] [FloorRing K] in
theorem getD_map_mul (a : K) (v : List K) (i : ℕ) :
    (v.map (a * ·)).getD i 0 = a * v.getD i 0 := by
  have h := List.getD_map (n := i) (l := v) (d := 0) (a * ·)
  rwa [mul_zero] at h

omit [IsStrictOrderedRing K] in
/-- **A percentile is scaled with the values.** -/
theorem atRank_map_mul (a : K) (v : List K) (r : K) :
    atRank (v.map (a * ·)) r = a * atRank v r := by
  simp only [atRank, getD_map_mul]
  ring

section Positive

variable {a : K} (ha : 0 < a)

include ha

omit [FloorRing K] in
/-- Widening scales, unless it starts from zero alone. -/
theorem widen_mul {lo hi : K} (hle : lo ≤ hi) (hne : ¬(lo = 0 ∧ hi = 0)) :
    widen (a * lo) (a * hi) = (a * (widen lo hi).1, a * (widen lo hi).2) := by
  have hlt : a * lo < a * hi ↔ lo < hi := mul_lt_mul_iff_right₀ ha
  unfold widen
  by_cases h : lo < hi
  · rw [if_pos (hlt.2 h), if_pos h]
  · have hlo : lo ≠ 0 := by
      rintro rfl
      exact hne ⟨rfl, le_antisymm (not_lt.1 h) hle⟩
    rw [if_neg (mt hlt.1 h), if_neg h, if_neg hlo, if_neg (mul_ne_zero ha.ne' hlo), abs_mul,
      abs_mul, abs_of_pos ha]
    refine Prod.ext ?_ ?_ <;> ring

end Positive

namespace Framing

open Exact

variable {s : Framing (Exact K)} (hs : s.Accepted) {a : K} (ha : 0 < a) {xs : List K}
  (hxs : xs ≠ [])

include hs hxs

/-- The percentiles in the field are those that are computed. -/
theorem atZero_map_finite :
    s.AtZero (xs.map finite) ↔
      atRank (xs.mergeSort (· ≤ ·))
          (rankOf (xs.mergeSort (· ≤ ·)).length s.lowerPercentile.val) = 0 ∧
        atRank (xs.mergeSort (· ≤ ·))
          (rankOf (xs.mergeSort (· ≤ ·)).length s.upperPercentile.val) = 0 := by
  have hsorted := mergeSort_ne_nil hxs
  rw [AtZero, mergeSort_map_finite, hs.lower, hs.upper, percentile_map_finite hsorted,
    percentile_map_finite hsorted]
  simp

include ha

/-- **The range of scaled values**, unless both percentiles are zero. -/
theorem exactRange_map_mul (hne : ¬s.AtZero (xs.map finite)) :
    s.exactRange (xs.map (a * ·)) = (a * (s.exactRange xs).1, a * (s.exactRange xs).2) := by
  rw [atZero_map_finite hs hxs] at hne
  have hrises : Monotone (a * ·) := monotone_mul_left_of_nonneg ha.le
  simp only [exactRange, mergeSort_map_of_monotone hrises, List.length_map, atRank_map_mul]
  have hsorted : (xs.mergeSort (· ≤ ·)).Pairwise (· ≤ ·) := List.pairwise_mergeSort' (· ≤ ·) xs
  have hpos : 0 < (xs.mergeSort (· ≤ ·)).length := by
    rw [List.length_mergeSort]
    exact List.length_pos_iff.2 hxs
  have hmono := atRank_mono hsorted (rankOf_nonneg _ _)
    (rankOf_mono (xs.mergeSort (· ≤ ·)).length hs.lower_lt_upper.le) (ceil_rankOf_lt hpos _)
  simp only [List.length_mergeSort] at hne hmono ⊢
  generalize atRank _ (rankOf _ s.lowerPercentile.val) = lo at *
  generalize atRank _ (rankOf _ s.upperPercentile.val) = hi at *
  have hpad : 0 ≤ s.padding.val * (hi - lo) := mul_nonneg hs.padding_nonneg (sub_nonneg.2 hmono)
  rw [← widen_mul ha (by linarith)]
  · congr 1 <;> ring
  · rintro ⟨hlo, hhi⟩
    -- nothing is padded, so that the percentiles are the ends of the range
    have heq : lo = hi := by linarith
    subst heq
    rw [sub_self, mul_zero, sub_zero] at hlo
    exact hne ⟨hlo, hlo⟩

theorem exactWindow_map_mul (thin : Bool) {ys : List K} (hys : ys ≠ [])
    (hx : ¬s.AtZero (xs.map finite)) (hy : thin = false → ¬s.AtZero (ys.map finite)) :
    s.exactWindow thin (xs.map (a * ·)) (ys.map (a * ·)) = (s.exactWindow thin xs ys).scale a := by
  simp only [exactWindow, exactRange_map_mul hs ha hxs hx, Window.scale]
  cases thin with
  | false =>
    rw [exactRange_map_mul hs ha hys (hy rfl)]
    rfl
  | true =>
    simp only [if_true, Window.mk.injEq, true_and]
    constructor <;> ring

end Framing

/-! ## The window -/

section Window

open Exact

theorem finitePoints_map_scale (a : K) (sets : List (List (Point (Exact K)))) :
    finitePoints (sets.map fun ps => ps.map (·.scale (finite a))) =
      (finitePoints sets).map (·.scale (finite a)) := by
  rw [← coe_pool, ← coe_pool, Multiset.map_coe, pool_map (Point.isFinite_scale a)]

/-- **The window of scaled points is the scaled window**, unless both percentiles of an axis that
it follows are zero. -/
theorem estimate_scale {s : Framing (Exact K)} (hs : s.Accepted) {a : K} (ha : 0 < a) (thin : Bool)
    {sets : List (List (Point (Exact K)))} {points : List (Point (Exact K))}
    (hpoints : (points : Multiset (Point (Exact K))) = finitePoints sets)
    (hx : ¬s.AtZero (points.map (·.x))) (hy : thin = false → ¬s.AtZero (points.map (·.y))) :
    estimate s thin (sets.map fun ps => ps.map (·.scale (finite a))) =
      (estimate s thin sets).map (·.scale (finite a)) := by
  have hpoints' : ((points.map (·.scale (finite a)) : List _) : Multiset (Point (Exact K))) =
      finitePoints (sets.map fun ps => ps.map (·.scale (finite a))) := by
    rw [finitePoints_map_scale, ← hpoints, Multiset.map_coe]
  by_cases hne : points = []
  · have hnil : pool sets = [] := by
      rw [pool_eq_nil_iff, ← hpoints, hne, Multiset.coe_nil]
    have hnil' : pool (sets.map fun ps => ps.map (·.scale (finite a))) = [] := by
      rw [pool_eq_nil_iff, ← hpoints', hne, List.map_nil, Multiset.coe_nil]
    rw [estimate_of_pool_eq_nil s thin hnil, estimate_of_pool_eq_nil s thin hnil']
    rfl
  · have hne' : points.map (·.scale (finite a)) ≠ [] := mt List.map_eq_nil_iff.1 hne
    have hxs : points.map (·.x.val) ≠ [] := mt List.map_eq_nil_iff.1 hne
    have hys : points.map (·.y.val) ≠ [] := mt List.map_eq_nil_iff.1 hne
    have hfinite := fun p => isFinite_of_mem hpoints (p := p)
    have hval (c : Point (Exact K) → Exact K)
        (hc : ∀ p : Point (Exact K), c (p.scale (finite a)) = finite a * c p) :
        (points.map (·.scale (finite a))).map (fun p => (c p).val) =
          (points.map fun p => (c p).val).map (a * ·) := by
      simp only [List.map_map, Function.comp_def, hc, val_finite_mul]
    rw [map_x_eq hfinite] at hx
    rw [map_y_eq hfinite] at hy
    rw [Framing.estimate_eq_exactWindow hs thin hpoints hne,
      Framing.estimate_eq_exactWindow hs thin hpoints' hne', hval (·.x) fun _ => rfl,
      hval (·.y) fun _ => rfl, Framing.exactWindow_map_mul hs ha hxs thin hys hx hy]
    rfl

end Window

end Starfilm
