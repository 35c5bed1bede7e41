import Starfilm.Proofs.Arith.Sorting
import Starfilm.Proofs.Window.Exact
import Starfilm.Proofs.Window.Quantile

/-!
# The window in other coordinates

A coordinate `t` becomes `factor * t + shift` (`AxisChange`). With a positive factor the sorted
values keep their order and the percentiles go along; with a negative one the order is reversed, and
what was the percentile at `q` is the one at `100 - q` (`quantile_reverse`). So two percentages that
add up to a hundred exchange their percentiles. The padding is a share of the distance of the
percentiles and goes along in both cases. Only the widening of a range without a width knows where
zero is: it goes along with a reflection at zero (`padded_neg`), but not with every change.

**Main statement**: `estimate_follows`.
-/

namespace Starfilm

/-- A change of the coordinate on an axis. -/
structure AxisChange (K : Type) where
  factor : K
  shift : K

/-- The two percentiles of some values differ. -/
def Framing.Separates {F : Type} [Arith F] (s : Framing F) (values : List F) : Prop :=
  let sorted := values.mergeSort Arith.totalLe
  percentile sorted s.lowerPercentile ≠ percentile sorted s.upperPercentile

/-- As much may fall short of the range as may go beyond it. -/
def Framing.Balanced {F : Type} [Arith F] (s : Framing F) : Prop :=
  s.lowerPercentile + s.upperPercentile = Arith.nat 100

variable {K : Type} [Field K] [LinearOrder K] [IsStrictOrderedRing K] [FloorRing K]

open Exact

/-! ## Changes -/

namespace AxisChange

variable (c : AxisChange K)

/-- The new coordinate. -/
def apply (t : K) : K := c.factor * t + c.shift

/-- The new coordinate of what may not be finite. -/
def exact (t : Exact K) : Exact K := finite c.factor * t + finite c.shift

omit [LinearOrder K] [IsStrictOrderedRing K] [FloorRing K] in
/-- Distances are multiplied, and turned around when the factor is negative. -/
theorem apply_sub (s t : K) : c.apply t - c.apply s = c.factor * (t - s) := by
  unfold apply
  ring

variable {c}

omit [FloorRing K] in
theorem strictMono_apply (h : 0 < c.factor) : StrictMono c.apply := by
  intro s t hst
  rw [← sub_pos, apply_sub]
  exact mul_pos h (sub_pos.2 hst)

omit [FloorRing K] in
theorem strictAnti_apply (h : c.factor < 0) : StrictAnti c.apply := by
  intro s t hst
  rw [← sub_neg, apply_sub]
  exact mul_neg_of_neg_of_pos h (sub_pos.2 hst)

end AxisChange

/-- A point with new coordinates. -/
def Point.change (c d : AxisChange K) (p : Point (Exact K)) : Point (Exact K) :=
  ⟨c.exact p.x, d.exact p.y⟩

/-! ## Quantiles -/

omit [FloorRing K] in
/-- From behind the broken line is seen with its ends exchanged. -/
theorem OnBrokenLine.reverse {v : List K} {r r' p : K} (h : OnBrokenLine v r p)
    (hr : r + r' + 1 = v.length) : OnBrokenLine v.reverse r' p := by
  refine ⟨fun i hi hcorner => ?_, fun i hi hlo hhi => ?_⟩
  · rw [List.length_reverse] at hi
    obtain ⟨j, hj⟩ : ∃ j, v.length = i + j + 1 := ⟨v.length - i - 1, by omega⟩
    have hindex : v.length - 1 - i = j := by omega
    rw [hj] at hr
    push_cast at hr
    simp only [List.getElem_reverse, hindex]
    exact h.corner j (by omega) (by linarith)
  · rw [List.length_reverse] at hi
    obtain ⟨j, hj⟩ : ∃ j, v.length = i + j + 2 := ⟨v.length - i - 2, by omega⟩
    have hindex : v.length - 1 - i = j + 1 := by omega
    have hindex' : v.length - 1 - (i + 1) = j := by omega
    rw [hj] at hr
    push_cast at hr
    simp only [List.getElem_reverse, hindex, hindex']
    rw [h.segment j (by omega) (by linarith) (by linarith)]
    have hr' : r' = i + j + 1 - r := by linarith
    rw [hr']
    ring

section Quantiles

variable {v : List K} (hv : v ≠ [])

include hv

/-- A quantile goes along with the values. -/
theorem quantile_map_apply (c : AxisChange K) (q : K) :
    quantile (v.map c.apply) q = c.apply (quantile v q) := by
  have h0 := rankOf_nonneg v.length q
  have hr := ceil_rankOf_lt (List.length_pos_iff.2 hv) q
  have hline := (onBrokenLine_iff h0 hr).2 (Eq.refl (quantile v q))
  have hmap : OnBrokenLine (v.map c.apply) (rankOf v.length q) (c.apply (quantile v q)) := by
    refine ⟨fun i hi h => ?_, fun i hi hlo hhi => ?_⟩
    · rw [List.length_map] at hi
      rw [List.getElem_map, hline.corner i hi h]
    · rw [List.length_map] at hi
      rw [List.getElem_map, List.getElem_map, hline.segment i hi hlo hhi]
      unfold AxisChange.apply
      ring
  rw [← List.length_map c.apply] at h0 hr hmap
  exact ((onBrokenLine_iff h0 hr).1 hmap).symm

/-- **Read from behind, a quantile is that of the other percentage.** -/
theorem quantile_reverse {q : K} (h0 : 0 ≤ q) (h100 : q ≤ 100) :
    quantile v.reverse q = quantile v (100 - q) := by
  have hpos : 0 < v.length := List.length_pos_iff.2 hv
  have hranks : rankOf v.length (100 - q) + rankOf v.length q + 1 = v.length := by
    rw [rankOf_eq _ (by linarith) (by linarith), rankOf_eq _ h0 h100, Nat.cast_pred hpos]
    unfold ofPercent
    ring
  have hline : OnBrokenLine v (rankOf v.length (100 - q)) (quantile v (100 - q)) :=
    (onBrokenLine_iff (rankOf_nonneg _ _) (ceil_rankOf_lt hpos _)).2 rfl
  have hreverse := hline.reverse hranks
  rw [← List.length_reverse] at hreverse hpos
  exact ((onBrokenLine_iff (rankOf_nonneg _ _) (ceil_rankOf_lt hpos _)).1 hreverse).symm

end Quantiles

/-! ## Ranges -/

/-- The range around two percentiles: padded by a share of their distance, and widened where it has
no width. -/
def padded (padding lo hi : K) : K × K :=
  widen (lo - padding * (hi - lo)) (hi + padding * (hi - lo))

section Padding

variable {padding lo hi : K} (hp : 0 ≤ padding)

include hp

omit [FloorRing K]

theorem padded_of_lt (h : lo < hi) :
    padded padding lo hi = (lo - padding * (hi - lo), hi + padding * (hi - lo)) := by
  have hpad : 0 ≤ padding * (hi - lo) := mul_nonneg hp (sub_nonneg.2 h.le)
  rw [padded, widen, if_pos (by linarith)]

/-- The range around two percentiles that differ goes along with a rising coordinate. -/
theorem padded_apply {c : AxisChange K} (hc : 0 < c.factor) (h : lo < hi) :
    padded padding (c.apply lo) (c.apply hi) =
      (c.apply (padded padding lo hi).1, c.apply (padded padding lo hi).2) := by
  rw [padded_of_lt hp h, padded_of_lt hp (c.strictMono_apply hc h), c.apply_sub]
  unfold AxisChange.apply
  refine Prod.ext ?_ ?_ <;> ring

/-- With a falling coordinate its ends are exchanged. -/
theorem padded_apply_of_neg {c : AxisChange K} (hc : c.factor < 0) (h : lo < hi) :
    padded padding (c.apply hi) (c.apply lo) =
      (c.apply (padded padding lo hi).2, c.apply (padded padding lo hi).1) := by
  rw [padded_of_lt hp h, padded_of_lt hp (c.strictAnti_apply hc h), c.apply_sub]
  unfold AxisChange.apply
  refine Prod.ext ?_ ?_ <;> ring

omit hp in
theorem widen_neg (h : lo ≤ hi) : widen (-hi) (-lo) = (-(widen lo hi).2, -(widen lo hi).1) := by
  unfold widen
  rcases h.eq_or_lt with rfl | hlt
  · by_cases hzero : lo = 0
    · subst hzero
      norm_num
    · rw [if_neg (lt_irrefl _), if_neg (neg_ne_zero.2 hzero), if_neg (lt_irrefl _), if_neg hzero,
        abs_neg]
      refine Prod.ext ?_ ?_ <;> ring
  · rw [if_pos (neg_lt_neg hlt), if_pos hlt]

/-- **A reflection exchanges the ends**, also where the percentiles are the same. -/
theorem padded_neg (h : lo ≤ hi) :
    padded padding (-hi) (-lo) = (-(padded padding lo hi).2, -(padded padding lo hi).1) := by
  have hpad : 0 ≤ padding * (hi - lo) := mul_nonneg hp (sub_nonneg.2 h)
  have hle : lo - padding * (hi - lo) ≤ hi + padding * (hi - lo) := by linarith
  rw [padded, padded, ← widen_neg hle]
  congr 1 <;> ring

end Padding

namespace Framing

/-- A range of changed values follows the range of the values. -/
structure Follows (s : Framing (Exact K)) (values : List (Exact K)) (c : AxisChange K)
    (lo hi lo' hi' : K) : Prop where
  rising : s.Separates values → 0 < c.factor → lo' = c.apply lo ∧ hi' = c.apply hi
  falling : s.Separates values → s.Balanced → c.factor < 0 → lo' = c.apply hi ∧ hi' = c.apply lo
  /-- A reflection at zero does not ask for a width. -/
  reflected : s.Balanced → c.factor = -1 → c.shift = 0 → lo' = -hi ∧ hi' = -lo
  /-- Values on both sides of zero alike have a range about zero. -/
  centred : s.Balanced → (values.map (-·)).Perm values → lo = -hi

/-- The two percentiles of some exact values. -/
def percentiles (s : Framing (Exact K)) (xs : List K) : K × K :=
  let v := xs.mergeSort (· ≤ ·)
  (quantile v s.lowerPercentile.val, quantile v s.upperPercentile.val)

omit [IsStrictOrderedRing K] in
theorem exactRange_eq_padded (s : Framing (Exact K)) (xs : List K) :
    s.exactRange xs = padded s.padding.val (s.percentiles xs).1 (s.percentiles xs).2 := rfl

section Range

variable {s : Framing (Exact K)} (hs : s.Accepted)

include hs

theorem balanced_iff :
    s.Balanced ↔ 100 - s.lowerPercentile.val = s.upperPercentile.val := by
  have hundred : ((100 : ℤ) : K) = 100 := by norm_num
  rw [Balanced, hs.lower, hs.upper, Arith.nat, ofInt_eq, finite_add, finite.injEq, val_finite,
    val_finite, Nat.cast_ofNat, hundred, sub_eq_iff_eq_add', eq_comm]

variable {xs : List K} (hxs : xs ≠ [])

include hxs

theorem separates_map_finite :
    s.Separates (xs.map finite) ↔ (s.percentiles xs).1 ≠ (s.percentiles xs).2 := by
  have hsorted := mergeSort_ne_nil hxs
  rw [Separates, mergeSort_map_finite, hs.lower, hs.upper, percentile_map_finite hsorted,
    percentile_map_finite hsorted, Ne, Option.some.injEq, finite.injEq]
  rfl

theorem percentiles_le : (s.percentiles xs).1 ≤ (s.percentiles xs).2 :=
  (isQuantile_quantile (mergeSort_ne_nil hxs) (List.pairwise_mergeSort' (· ≤ ·) xs)).monotone
    hs.lower_lt_upper.le

omit hs in
theorem percentiles_map_of_pos {c : AxisChange K} (hc : 0 < c.factor) :
    s.percentiles (xs.map c.apply) =
      (c.apply (s.percentiles xs).1, c.apply (s.percentiles xs).2) := by
  have hv := mergeSort_ne_nil hxs
  have hrises := (c.strictMono_apply hc).monotone
  simp only [percentiles, mergeSort_map_of_monotone hrises, quantile_map_apply hv]

/-- **Where the coordinate falls, the percentiles are exchanged** if their percentages add up to a
hundred. -/
theorem percentiles_map_of_neg {c : AxisChange K} (hc : c.factor < 0) (h : s.Balanced) :
    s.percentiles (xs.map c.apply) =
      (c.apply (s.percentiles xs).2, c.apply (s.percentiles xs).1) := by
  have hv := mergeSort_ne_nil hxs
  have hmap : (xs.mergeSort (· ≤ ·)).map c.apply ≠ [] := mt List.map_eq_nil_iff.1 hv
  have hupper := (balanced_iff hs).1 h
  have hlower : 100 - s.upperPercentile.val = s.lowerPercentile.val := by linarith
  have hlow := hs.lower_lt_upper.le.trans hs.upper_le
  have hhigh := hs.lower_nonneg.trans hs.lower_lt_upper.le
  have hfalls := (c.strictAnti_apply hc).antitone
  simp only [percentiles, mergeSort_map_of_antitone hfalls,
    quantile_reverse hmap hs.lower_nonneg hlow, quantile_reverse hmap hhigh hs.upper_le, hupper,
    hlower, quantile_map_apply hv]

theorem exactRange_map_neg (h : s.Balanced) :
    s.exactRange (xs.map (-·)) = (-(s.exactRange xs).2, -(s.exactRange xs).1) := by
  have hneg : (fun t : K => -t) = AxisChange.apply ⟨-1, 0⟩ := by
    funext t
    simp [AxisChange.apply]
  rw [exactRange_eq_padded, hneg, percentiles_map_of_neg hs hxs (neg_one_lt_zero (R := K)) h,
    ← hneg]
  exact padded_neg hs.padding_nonneg (percentiles_le hs hxs)

theorem follows_exactRange (c : AxisChange K) :
    s.Follows (xs.map finite) c (s.exactRange xs).1 (s.exactRange xs).2
      (s.exactRange (xs.map c.apply)).1 (s.exactRange (xs.map c.apply)).2 := by
  have hle := percentiles_le hs hxs
  refine ⟨fun hsep hc => ?_, fun hsep h hc => ?_, fun h hfactor hshift => ?_, fun h hperm => ?_⟩
  · have hlt := hle.lt_of_ne ((separates_map_finite hs hxs).1 hsep)
    rw [exactRange_eq_padded, percentiles_map_of_pos hxs hc, padded_apply hs.padding_nonneg hc hlt]
    exact ⟨rfl, rfl⟩
  · have hlt := hle.lt_of_ne ((separates_map_finite hs hxs).1 hsep)
    rw [exactRange_eq_padded, percentiles_map_of_neg hs hxs hc h,
      padded_apply_of_neg hs.padding_nonneg hc hlt]
    exact ⟨rfl, rfl⟩
  · have hneg : c.apply = (-·) := by
      funext t
      rw [AxisChange.apply, hfactor, hshift, neg_one_mul, add_zero]
    rw [hneg, exactRange_map_neg hs hxs h]
    exact ⟨rfl, rfl⟩
  · have hvals : (xs.map (-·)).Perm xs := by simpa [Function.comp_def] using hperm.map val
    have hsame := exactRange_eq_of_perm s hvals
    rw [exactRange_map_neg hs hxs h] at hsame
    exact (congrArg Prod.fst hsame).symm

/-- The same of the values in another order. -/
theorem follows_exactRange_of_perm {ys : List K} (hperm : ys.Perm xs) (c : AxisChange K) :
    s.Follows (xs.map finite) c (s.exactRange ys).1 (s.exactRange ys).2
      (s.exactRange (ys.map c.apply)).1 (s.exactRange (ys.map c.apply)).2 := by
  rw [exactRange_eq_of_perm s hperm, exactRange_eq_of_perm s (hperm.map c.apply)]
  exact follows_exactRange hs hxs c

end Range

end Framing

/-! ## The window -/

section Points

variable (c d : AxisChange K)

theorem AxisChange.isFinite_exact (t : Exact K) :
    Arith.isFinite (c.exact t) = Arith.isFinite t := by
  rw [exact, isFinite_add, isFinite_mul, isFinite_finite, isFinite_finite, Bool.true_and,
    Bool.and_true]

theorem AxisChange.val_exact {t : Exact K} (h : Arith.isFinite t = true) :
    (c.exact t).val = c.apply t.val := by
  rw [← finite_val h]
  rfl

theorem Point.isFinite_change (p : Point (Exact K)) : (p.change c d).isFinite = p.isFinite := by
  rw [Point.isFinite, Point.isFinite, change, c.isFinite_exact, d.isFinite_exact]

/-- The finite points stay finite, each with its new coordinates, and no others become finite. -/
theorem finitePoints_map_change (sets : List (List (Point (Exact K)))) :
    finitePoints (sets.map fun ps => ps.map (·.change c d)) =
      (finitePoints sets).map (·.change c d) := by
  rw [← coe_pool, ← coe_pool, Multiset.map_coe, pool_map (Point.isFinite_change c d)]

variable {points : List (Point (Exact K))} (hpoints : ∀ p ∈ points, p.isFinite = true)

include hpoints

theorem map_x_change :
    (points.map (·.change c d)).map (·.x.val) = (points.map (·.x.val)).map c.apply := by
  rw [List.map_map, List.map_map]
  exact List.map_congr_left fun p hp => c.val_exact (Bool.and_eq_true_iff.1 (hpoints p hp)).1

theorem map_y_change :
    (points.map (·.change c d)).map (·.y.val) = (points.map (·.y.val)).map d.apply := by
  rw [List.map_map, List.map_map]
  exact List.map_congr_left fun p hp => d.val_exact (Bool.and_eq_true_iff.1 (hpoints p hp)).2

end Points

/-- **The range of an axis follows the coordinates** of the finite points, whatever is done to the
other axis. -/
theorem estimate_follows [DecimalText (Exact K)] {s : Framing (Exact K)} (hs : s.validate = .ok ())
    (hpadding : Arith.isFinite s.padding = true) (hratio : Arith.isFinite s.thinAxisRatio = true)
    {sets : List (List (Point (Exact K)))} (hne : finitePoints sets ≠ 0) (c d : AxisChange K) :
    ∃ w w' : Window K, estimate s false sets = .ok w.exact ∧
      estimate s false (sets.map fun ps => ps.map (·.change c d)) = .ok w'.exact ∧
      ∀ points : List (Point (Exact K)),
        (points : Multiset (Point (Exact K))) = finitePoints sets →
          s.Follows (points.map (·.x)) c w.xmin w.xmax w'.xmin w'.xmax ∧
            s.Follows (points.map (·.y)) d w.ymin w.ymax w'.ymin w'.ymax := by
  have hacc := Framing.accepted_of_validate hs hpadding hratio
  have hpool : pool sets ≠ [] := mt (pool_eq_nil_iff sets).1 hne
  have hpool' : (pool sets).map (·.change c d) ≠ [] := mt List.map_eq_nil_iff.1 hpool
  have hchanged : (((pool sets).map (·.change c d) : List _) : Multiset (Point (Exact K))) =
      finitePoints (sets.map fun ps => ps.map (·.change c d)) := by
    rw [finitePoints_map_change, ← coe_pool, Multiset.map_coe]
  refine ⟨_, _, Framing.estimate_eq_exactWindow hacc false (coe_pool sets) hpool,
    Framing.estimate_eq_exactWindow hacc false hchanged hpool', fun points hpoints => ?_⟩
  have hfinite := fun p => isFinite_of_mem (coe_pool sets) (p := p)
  have hfinite' := fun p => isFinite_of_mem hpoints (p := p)
  have hperm := pool_perm hpoints
  have hnil : points ≠ [] := fun hnil => hpool (hnil ▸ hperm).eq_nil
  rw [map_x_change c d hfinite, map_y_change c d hfinite]
  constructor
  · rw [map_x_eq hfinite']
    exact Framing.follows_exactRange_of_perm hacc (mt List.map_eq_nil_iff.1 hnil) (hperm.map _) c
  · rw [map_y_eq hfinite']
    exact Framing.follows_exactRange_of_perm hacc (mt List.map_eq_nil_iff.1 hnil) (hperm.map _) d

/-- Two points on both sides of zero, turned around, drawn apart and moved along the one axis, and
reflected along the other, where they have the same place. -/
theorem estimate_follows_reflected :
    let _text : DecimalText (Exact ℚ) := ⟨fun _ => "", fun _ _ => ""⟩
    let s : Framing (Exact ℚ) := .default
    let sets := [[⟨finite (-1), finite 4⟩, ⟨nan, finite 7⟩], [⟨finite 1, finite 4⟩]]
    let c : AxisChange ℚ := ⟨-2, 5⟩
    let d : AxisChange ℚ := ⟨-1, 0⟩
    let points : List (Point (Exact ℚ)) := [⟨finite 1, finite 4⟩, ⟨finite (-1), finite 4⟩]
    ((s.validate = .ok () ∧ Arith.isFinite s.padding = true ∧
        Arith.isFinite s.thinAxisRatio = true ∧ finitePoints sets ≠ 0) ∧
      (points : Multiset (Point (Exact ℚ))) = finitePoints sets ∧
      s.Balanced ∧ s.Separates (points.map (·.x)) ∧
      ((points.map (·.x)).map (-·)).Perm (points.map (·.x))) ∧
      ∃ w w' : Window ℚ, estimate s false sets = .ok w.exact ∧
        estimate s false (sets.map fun ps => ps.map (·.change c d)) = .ok w'.exact ∧
        w.xmin = -w.xmax ∧ (w'.xmin = c.apply w.xmax ∧ w'.xmax = c.apply w.xmin) ∧
        w'.ymin = -w.ymax ∧ w'.ymax = -w.ymin := by
  intro _text s sets c d points
  have hs : s.validate = .ok () := by
    rw [Framing.validate_eq_ok_iff, Framing.isPercentage_iff, Framing.isPercentage_iff]
    norm_num [s, Framing.default]
  have hne : finitePoints sets ≠ 0 := by decide
  have hpoints : (points : Multiset (Point (Exact ℚ))) = finitePoints sets := by decide
  have hbalanced : s.Balanced := by
    unfold Framing.Balanced
    decide +kernel
  have hseparates : s.Separates (points.map (·.x)) := by
    have hsorted : (points.map (·.x)).mergeSort Arith.totalLe = [finite (-1), finite 1] :=
      mergeSort_totalLe_eq (List.Perm.swap _ _ _) (by decide)
    rw [Framing.Separates, hsorted]
    decide +kernel
  have hperm : ((points.map (·.x)).map (-·)).Perm (points.map (·.x)) := by decide
  obtain ⟨w, w', h, h', hfollows⟩ := estimate_follows hs rfl rfl hne c d
  obtain ⟨hx, hy⟩ := hfollows points hpoints
  exact ⟨⟨⟨hs, rfl, rfl, hne⟩, hpoints, hbalanced, hseparates, hperm⟩, w, w', h, h',
    hx.centred hbalanced hperm, hx.falling hseparates hbalanced (by norm_num [c]),
    hy.reflected hbalanced rfl rfl⟩

end Starfilm
