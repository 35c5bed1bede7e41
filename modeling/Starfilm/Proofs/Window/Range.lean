import Mathlib.Algebra.Order.Field.Rat
import Mathlib.Data.Rat.Floor
import Mathlib.Tactic.NormNum
import Mathlib.Tactic.Ring
import Starfilm.Proofs.Arith.Sorting
import Starfilm.Proofs.Window.Percentile
import Starfilm.Proofs.Window.Pooling
import Starfilm.Proofs.Window.Settings

/-!
# The exact window

With exact arithmetic the padded range of an axis is the padded interval of two percentiles, widened
where it would have no width (`paddedRange_map_finite`). `Spans` says what such a range has to do
with the values it is made from, and `spans_widen` that it does. From both axes together
`estimate_spans` follows: accepted settings frame every collection that has a finite point, by a
window of positive width and height that few points fall outside of.
-/

namespace Starfilm

variable {K : Type} [Field K] [LinearOrder K] [IsStrictOrderedRing K] [FloorRing K]

/-! ## Ranges of ascending values -/

/-- The range `lo..hi` follows the ascending values `v` between the ranks `rl` and `ru`. -/
structure Spans (v : List K) (rl ru padding lo hi : K) : Prop where
  lt : lo < hi
  /-- The lower percentile lies in the range. -/
  lower_mem : atRank v rl ∈ Set.Icc lo hi
  /-- The upper percentile lies in the range. -/
  upper_mem : atRank v ru ∈ Set.Icc lo hi
  /-- The values between the ranks lie in the range. -/
  mem (i : ℕ) (h : i < v.length) : ⌈rl⌉₊ ≤ i → i ≤ ⌊ru⌋₊ → v[i] ∈ Set.Icc lo hi
  /-- No more values lie outside than there are below the one rank and above the other. -/
  outside_le : v.countP (fun t => decide (t ∉ Set.Icc lo hi)) ≤ ⌈rl⌉₊ + (v.length - 1 - ⌊ru⌋₊)
  /-- Percentiles that differ are padded by a share of their distance, and nothing else is done. -/
  eq_of_ne : atRank v rl ≠ atRank v ru →
    lo = atRank v rl - padding * (atRank v ru - atRank v rl) ∧
      hi = atRank v ru + padding * (atRank v ru - atRank v rl)

/-- A range with a width; see `nonsingular`. -/
def widen (lo hi : K) : K × K :=
  if lo < hi then (lo, hi)
  else if lo = 0 then (-(1 / 20), 1 / 20)
  else (lo - 1 / 20 * |lo|, hi + 1 / 20 * |hi|)

omit [FloorRing K] in
/-- **A widened range has a width** and holds what it was made from. -/
theorem widen_spec {lo hi : K} (h : lo ≤ hi) :
    (widen lo hi).1 < (widen lo hi).2 ∧ (widen lo hi).1 ≤ lo ∧ hi ≤ (widen lo hi).2 := by
  unfold widen
  split_ifs with hlt hzero
  · exact ⟨hlt, le_rfl, le_rfl⟩
  · have hhi : hi = 0 := by rw [← hzero, le_antisymm h (not_lt.1 hlt)]
    subst hzero hhi
    norm_num
  · have heq : lo = hi := le_antisymm h (not_lt.1 hlt)
    subst heq
    have hpos := abs_pos.2 hzero
    exact ⟨by linarith, by linarith, by linarith⟩

/-- Where a predicate fails from index `a` to index `b`, it holds only before and after them. -/
theorem countP_le_of_between {α : Type} (v : List α) (p : α → Bool) (a b : ℕ)
    (h : ∀ (i : ℕ) (hi : i < v.length), a ≤ i → i ≤ b → p v[i] = false) :
    v.countP p ≤ a + (v.length - 1 - b) := by
  have hmiddle : ((v.drop a).take (b + 1 - a)).countP p = 0 := by
    rw [List.countP_eq_zero]
    intro t ht
    obtain ⟨i, hi, rfl⟩ := List.mem_iff_getElem.1 ht
    rw [List.length_take, List.length_drop] at hi
    rw [List.getElem_take, List.getElem_drop, h (a + i) (by omega) (by omega) (by omega)]
    exact Bool.false_ne_true
  have hfront : (v.take a).countP p ≤ a := List.countP_le_length.trans (List.length_take_le a v)
  have hback : ((v.drop a).drop (b + 1 - a)).countP p ≤ v.length - a - (b + 1 - a) := by
    refine List.countP_le_length.trans ?_
    rw [List.length_drop, List.length_drop]
  have hparts : v.countP p = (v.take a).countP p + (((v.drop a).take (b + 1 - a)).countP p +
      ((v.drop a).drop (b + 1 - a)).countP p) := by
    rw [← List.countP_append, ← List.countP_append, List.take_append_drop, List.take_append_drop]
  have hbound : (v.take a).countP p + ((v.drop a).drop (b + 1 - a)).countP p ≤
      a + (v.length - 1 - b) ∨ v.length < a := by omega
  rcases hbound with hbound | hshort
  · omega
  · exact List.countP_le_length.trans (by omega)

/-- The values between two ranks lie between the percentiles there. -/
theorem getElem_mem_Icc_atRank {v : List K} (hv : v.Pairwise (· ≤ ·)) {rl ru : K} (hu₀ : 0 ≤ ru)
    (hru : ⌈ru⌉₊ < v.length) {i : ℕ} (hi : i < v.length) (hl : ⌈rl⌉₊ ≤ i) (hu : i ≤ ⌊ru⌋₊) :
    v[i] ∈ Set.Icc (atRank v rl) (atRank v ru) := by
  have hfloor : ⌊ru⌋₊ < v.length := (Nat.floor_le_ceil ru).trans_lt hru
  have hbelow := atRank_le_getD_ceil hv (r := rl) (hl.trans_lt hi)
  have habove := getD_floor_le_atRank hv hu₀ hru
  rw [← List.getD_eq_getElem v 0 hi]
  exact ⟨hbelow.trans (getD_le_getD hv hl hi), (getD_le_getD hv hu hfloor).trans habove⟩

/-- **The widened padded range of two percentiles follows the values.** -/
theorem spans_widen {v : List K} (hv : v.Pairwise (· ≤ ·)) {rl ru padding : K} (h0 : 0 ≤ rl)
    (hr : rl ≤ ru) (hru : ⌈ru⌉₊ < v.length) (hp : 0 ≤ padding) :
    let pad := padding * (atRank v ru - atRank v rl)
    Spans v rl ru padding (widen (atRank v rl - pad) (atRank v ru + pad)).1
      (widen (atRank v rl - pad) (atRank v ru + pad)).2 := by
  intro pad
  have hmono : atRank v rl ≤ atRank v ru := atRank_mono hv h0 hr hru
  have hpad : 0 ≤ pad := mul_nonneg hp (sub_nonneg.2 hmono)
  obtain ⟨hlt, hlo, hhi⟩ := widen_spec (by linarith : atRank v rl - pad ≤ atRank v ru + pad)
  have hin (i : ℕ) (hi : i < v.length) (hl : ⌈rl⌉₊ ≤ i) (hu : i ≤ ⌊ru⌋₊) :
      v[i] ∈ Set.Icc (widen (atRank v rl - pad) (atRank v ru + pad)).1
        (widen (atRank v rl - pad) (atRank v ru + pad)).2 := by
    obtain ⟨hge, hle⟩ := getElem_mem_Icc_atRank hv (h0.trans hr) hru hi hl hu
    exact ⟨by linarith, by linarith⟩
  refine ⟨hlt, ⟨by linarith, by linarith⟩, ⟨by linarith, by linarith⟩, hin, ?_, fun hne => ?_⟩
  · refine countP_le_of_between v _ ⌈rl⌉₊ ⌊ru⌋₊ fun i hi hl hu => ?_
    exact decide_eq_false (not_not.2 (hin i hi hl hu))
  · have hwidth : atRank v rl - pad < atRank v ru + pad := by
      linarith [lt_of_le_of_ne hmono hne]
    rw [widen, if_pos hwidth]
    exact ⟨rfl, rfl⟩

/-! ## The padded range -/

open Exact

theorem nonsingular_finite (lo hi : K) :
    nonsingular (finite lo) (finite hi) = (finite (widen lo hi).1, finite (widen lo hi).2) := by
  have htwentieth : ((5 : ℤ) : K) / 10 ^ 2 = 1 / 20 := by norm_num
  simp only [nonsingular, decimal_eq, htwentieth, Arith.nat, ofInt_eq, Nat.cast_zero,
    Int.cast_zero, lt_finite, eqv_finite, decide_eq_true_eq, magnitude_finite, finite_neg,
    finite_mul, finite_sub, finite_add, widen]
  split_ifs <;> rfl

namespace Framing

variable (s : Framing (Exact K))

/-- The padded range of some exact values. -/
def exactRange (xs : List K) : K × K :=
  let v := xs.mergeSort (· ≤ ·)
  let lo := atRank v (rankOf v.length s.lowerPercentile.val)
  let hi := atRank v (rankOf v.length s.upperPercentile.val)
  let pad := s.padding.val * (hi - lo)
  widen (lo - pad) (hi + pad)

/-- The range `lo..hi` follows some values, in whatever order they come, between the ranks of the
percentiles. -/
def Spans (xs : List K) (lo hi : K) : Prop :=
  let n : K := ((xs.length - 1 : ℕ) : K)
  Starfilm.Spans (xs.mergeSort (· ≤ ·)) (ofPercent s.lowerPercentile.val * n)
    (ofPercent s.upperPercentile.val * n) s.padding.val lo hi

omit [IsStrictOrderedRing K] in
/-- The range does not depend on the order of the values. -/
theorem exactRange_eq_of_perm {xs ys : List K} (h : xs.Perm ys) :
    s.exactRange xs = s.exactRange ys := by
  have hsort : xs.mergeSort (· ≤ ·) = ys.mergeSort (· ≤ ·) :=
    mergeSort_eq_of_pairwise (h.trans (List.mergeSort_perm ys _).symm)
      (List.pairwise_mergeSort' (· ≤ ·) ys)
  rw [exactRange, exactRange, hsort]

variable {s} (hs : s.Accepted) {xs : List K} (hxs : xs ≠ [])

include hs hxs

theorem paddedRange_map_finite :
    paddedRange s (xs.map finite) = (finite (s.exactRange xs).1, finite (s.exactRange xs).2) := by
  have hsorted := mergeSort_ne_nil hxs
  simp only [paddedRange, mergeSort_map_finite]
  rw [hs.lower, hs.upper, hs.padding, percentile_map_finite hsorted, percentile_map_finite hsorted]
  simp only [Option.getD_some, finite_sub, finite_mul, finite_add, nonsingular_finite, exactRange]

theorem spans_exactRange : s.Spans xs (s.exactRange xs).1 (s.exactRange xs).2 := by
  have hlen : (xs.mergeSort (· ≤ ·)).length = xs.length := List.length_mergeSort xs
  have hpos : 0 < xs.length := List.length_pos_iff.2 hxs
  have hu₀ := hs.lower_nonneg.trans hs.lower_lt_upper.le
  have hl := rankOf_eq xs.length hs.lower_nonneg (hs.lower_lt_upper.le.trans hs.upper_le)
  have hu := rankOf_eq xs.length hu₀ hs.upper_le
  have hsorted : (xs.mergeSort (· ≤ ·)).Pairwise (· ≤ ·) := List.pairwise_mergeSort' (· ≤ ·) xs
  simp only [Spans, exactRange, ← hl, ← hu, hlen]
  refine spans_widen hsorted (rankOf_nonneg _ _) (rankOf_mono _ hs.lower_lt_upper.le) ?_
    hs.padding_nonneg
  rw [hlen]
  exact ceil_rankOf_lt hpos _

end Framing

/-! ## The window -/

section Points

variable {points : List (Point (Exact K))} (hpoints : ∀ p ∈ points, p.isFinite = true)

include hpoints

/-- The abscissas of finite points are numbers. -/
theorem map_x_eq : points.map (·.x) = (points.map (·.x.val)).map finite := by
  rw [List.map_map]
  exact List.map_congr_left fun p hp => (finite_val (Bool.and_eq_true_iff.1 (hpoints p hp)).1).symm

theorem map_y_eq : points.map (·.y) = (points.map (·.y.val)).map finite := by
  rw [List.map_map]
  exact List.map_congr_left fun p hp => (finite_val (Bool.and_eq_true_iff.1 (hpoints p hp)).2).symm

end Points

/-- The range that is found from the pool follows the finite points in every order. -/
theorem spans_listed {s : Framing (Exact K)} (hs : s.Accepted)
    {sets : List (List (Point (Exact K)))} (hne : pool sets ≠ []) (c : Point (Exact K) → K)
    {points : List (Point (Exact K))}
    (hpoints : (points : Multiset (Point (Exact K))) = finitePoints sets) :
    s.Spans (points.map c) (s.exactRange ((pool sets).map c)).1
      (s.exactRange ((pool sets).map c)).2 := by
  have hperm := (pool_perm hpoints).map c
  rw [Framing.exactRange_eq_of_perm s hperm]
  refine Framing.spans_exactRange hs fun hnil => hne ?_
  rwa [hnil, List.perm_nil, List.map_eq_nil_iff] at hperm

/-- **Accepted settings frame every collection with a finite point.** Both sides of the window are
positive. Each axis that is taken from the points follows them, however they are listed; the thin
axis is a share of the width at both sides of zero. Without a finite point there is nothing to
frame. -/
theorem estimate_spans [DecimalText (Exact K)] (s : Framing (Exact K)) (hs : s.validate = .ok ())
    (hpadding : Arith.isFinite s.padding = true) (hratio : Arith.isFinite s.thinAxisRatio = true)
    (thin : Bool) (sets : List (List (Point (Exact K)))) :
    (finitePoints sets = 0 → estimate s thin sets = .error .nothingToFrame) ∧
      (finitePoints sets ≠ 0 → ∃ xmin xmax ymin ymax : K,
        estimate s thin sets = .ok ⟨finite xmin, finite xmax, finite ymin, finite ymax⟩ ∧
          xmin < xmax ∧ ymin < ymax ∧
          (∀ points : List (Point (Exact K)),
            (points : Multiset (Point (Exact K))) = finitePoints sets →
              s.Spans (points.map (·.x.val)) xmin xmax ∧
                (thin = false → s.Spans (points.map (·.y.val)) ymin ymax)) ∧
          (thin = true → ymin = -s.thinAxisRatio.val * (xmax - xmin) ∧
            ymax = s.thinAxisRatio.val * (xmax - xmin))) := by
  have hacc := Framing.accepted_of_validate hs hpadding hratio
  rw [ne_eq, ← pool_eq_nil_iff]
  refine ⟨estimate_of_pool_eq_nil s thin, fun hne => ?_⟩
  have hxs : (pool sets).map (·.x.val) ≠ [] := mt List.map_eq_nil_iff.1 hne
  have hys : (pool sets).map (·.y.val) ≠ [] := mt List.map_eq_nil_iff.1 hne
  have hfinite := fun p => isFinite_of_mem (coe_pool sets) (p := p)
  have hx := Framing.spans_exactRange hacc hxs
  have hy := Framing.spans_exactRange hacc hys
  have hlisted (c : Point (Exact K) → K) (points : List (Point (Exact K)))
      (hpoints : (points : Multiset (Point (Exact K))) = finitePoints sets) :=
    spans_listed hacc hne c hpoints
  have hlistedX := hlisted (·.x.val)
  have hlistedY := hlisted (·.y.val)
  rw [estimate_of_pool_ne_nil s thin hne, map_x_eq hfinite, map_y_eq hfinite]
  generalize (pool sets).map (·.x.val) = xs at *
  generalize (pool sets).map (·.y.val) = ys at *
  cases thin with
  | false =>
    refine ⟨_, _, (s.exactRange ys).1, (s.exactRange ys).2, ?_, hx.lt, hy.lt,
      fun points hpoints => ⟨hlistedX points hpoints, fun _ => hlistedY points hpoints⟩,
      fun h => Bool.noConfusion h⟩
    simp only [windowOf, Framing.paddedRange_map_finite hacc hxs,
      Framing.paddedRange_map_finite hacc hys, Bool.false_eq_true, if_false]
  | true =>
    have hhalf : 0 < s.thinAxisRatio.val * ((s.exactRange xs).2 - (s.exactRange xs).1) :=
      mul_pos hacc.ratio_pos (sub_pos.2 hx.lt)
    refine ⟨_, _, _, _, ?_, hx.lt, ?_,
      fun points hpoints => ⟨hlistedX points hpoints, fun h => Bool.noConfusion h⟩,
      fun _ => ⟨rfl, rfl⟩⟩
    · rw [windowOf, Framing.paddedRange_map_finite hacc hxs, hacc.ratio]
      simp only [if_true, finite_sub, finite_mul, finite_neg, val_finite, neg_mul]
    · linarith

/-- Two points beside each other and one that is not finite, by the default settings. -/
theorem estimate_spans_two_points :
    let _text : DecimalText (Exact ℚ) := ⟨fun _ => "", fun _ _ => ""⟩
    let s : Framing (Exact ℚ) := .default
    let sets := [[⟨finite 1, finite 4⟩, ⟨nan, finite 7⟩], [], [⟨finite (-1), finite 4⟩]]
    (s.validate = .ok () ∧ Arith.isFinite s.padding = true ∧
        Arith.isFinite s.thinAxisRatio = true ∧ finitePoints sets ≠ 0) ∧
      ∃ xmin xmax ymin ymax : ℚ,
        estimate s false sets = .ok ⟨finite xmin, finite xmax, finite ymin, finite ymax⟩ ∧
          xmin < xmax ∧ ymin < ymax ∧ s.Spans [-1, 1] xmin xmax ∧ s.Spans [4, 4] ymin ymax := by
  intro _text s sets
  have hs : s.validate = .ok () := by
    rw [Framing.validate_eq_ok_iff, Framing.isPercentage_iff, Framing.isPercentage_iff]
    norm_num [s, Framing.default]
  have hne : finitePoints sets ≠ 0 := by decide
  have hpoints : (([⟨finite (-1), finite 4⟩, ⟨finite 1, finite 4⟩] : List (Point (Exact ℚ))) :
      Multiset (Point (Exact ℚ))) = finitePoints sets := by decide
  obtain ⟨xmin, xmax, ymin, ymax, h, hx, hy, hspans, -⟩ :=
    (estimate_spans s hs rfl rfl false sets).2 hne
  obtain ⟨hspansX, hspansY⟩ := hspans _ hpoints
  exact ⟨⟨hs, rfl, rfl, hne⟩, xmin, xmax, ymin, ymax, h, hx, hy, hspansX, hspansY rfl⟩

end Starfilm
