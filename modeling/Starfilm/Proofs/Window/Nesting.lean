import Starfilm.Proofs.Window.Coordinates

/-!
# Wider settings

Settings are wider than others when their percentages lie further apart and their padding and their
ratio are no smaller (`Framing.Wider`). Then the percentiles lie further apart too, and with them
the share of their distance that is padded. So the range of wider settings holds the other one,
provided that the other one is such a padded range: where its percentiles are the same it is widened
by a share of its place, which wider settings that find a short range do not do
(`exactRange_le_exactRange`). A height that follows the width grows with the width and with the
ratio.

**Main statement**: `estimate_nested`.
-/

namespace Starfilm

/-- The settings `s'` leave out no more than `s` on any account. -/
structure Framing.Wider {F : Type} [Arith F] (s s' : Framing F) : Prop where
  lower : Arith.le s'.lowerPercentile s.lowerPercentile = true
  upper : Arith.le s.upperPercentile s'.upperPercentile = true
  padding : Arith.le s.padding s'.padding = true
  ratio : Arith.le s.thinAxisRatio s'.thinAxisRatio = true

variable {K : Type} [Field K] [LinearOrder K] [IsStrictOrderedRing K] [FloorRing K]

open Exact

/-! ## Windows within windows -/

namespace Window

/-- Every side of the window `w` lies within the window `w'`. -/
structure Within (w w' : Window K) : Prop where
  xmin_le : w'.xmin ≤ w.xmin
  le_xmax : w.xmax ≤ w'.xmax
  ymin_le : w'.ymin ≤ w.ymin
  le_ymax : w.ymax ≤ w'.ymax

/-- What the inner window shows, the outer one shows too. -/
theorem Within.contains {w w' : Window K} (h : w.Within w') {p : Point (Exact K)}
    (hp : w.exact.contains p = true) : w'.exact.contains p = true := by
  obtain ⟨x, y, rfl⟩ := exists_finite_of_contains hp
  simp only [Window.contains, exact, le_finite, Bool.and_eq_true, decide_eq_true_eq] at hp ⊢
  obtain ⟨⟨⟨hx₀, hx₁⟩, hy₀⟩, hy₁⟩ := hp
  exact ⟨⟨⟨h.xmin_le.trans hx₀, hx₁.trans h.le_xmax⟩, h.ymin_le.trans hy₀⟩, hy₁.trans h.le_ymax⟩

end Window

/-! ## Ranges -/

omit [FloorRing K] in
/-- Percentiles that lie further apart, with a larger share of their distance, make a range that
holds the other one. -/
theorem padded_le_padded {padding padding' lo hi lo' hi' : K} (hp : 0 ≤ padding)
    (hpadding : padding ≤ padding') (hlt : lo < hi) (hlo : lo' ≤ lo) (hhi : hi ≤ hi') :
    (padded padding' lo' hi').1 ≤ (padded padding lo hi).1 ∧
      (padded padding lo hi).2 ≤ (padded padding' lo' hi').2 := by
  have hlt' : lo' < hi' := hlo.trans_lt (hlt.trans_le hhi)
  have hpad : padding * (hi - lo) ≤ padding' * (hi' - lo') :=
    mul_le_mul hpadding (sub_le_sub hhi hlo) (sub_nonneg.2 hlt.le) (hp.trans hpadding)
  rw [padded_of_lt hp hlt, padded_of_lt (hp.trans hpadding) hlt']
  exact ⟨sub_le_sub hlo hpad, add_le_add hhi hpad⟩

/-- Percentiles that are the same are widened more than some that differ are padded. -/
example : (padded (1 / 10 : ℚ) 1 1).1 < (padded (1 / 10 : ℚ) 1 (11 / 10)).1 := by decide +kernel

namespace Framing

section Wider

variable {s s' : Framing (Exact K)} (hs : s.Accepted) (hs' : s'.Accepted) (h : s.Wider s')

include hs hs' h

/-- Accepted settings are wider by their numbers. -/
theorem Wider.val_le : s'.lowerPercentile.val ≤ s.lowerPercentile.val ∧
    s.upperPercentile.val ≤ s'.upperPercentile.val ∧ s.padding.val ≤ s'.padding.val ∧
    s.thinAxisRatio.val ≤ s'.thinAxisRatio.val := by
  obtain ⟨hlower, hupper, hpadding, hratio⟩ := h
  rw [hs.lower, hs'.lower, le_finite, decide_eq_true_eq] at hlower
  rw [hs.upper, hs'.upper, le_finite, decide_eq_true_eq] at hupper
  rw [hs.padding, hs'.padding, le_finite, decide_eq_true_eq] at hpadding
  rw [hs.ratio, hs'.ratio, le_finite, decide_eq_true_eq] at hratio
  exact ⟨hlower, hupper, hpadding, hratio⟩

variable {xs : List K} (hxs : xs ≠ [])

include hxs

/-- The percentiles of wider settings lie further apart. -/
theorem percentiles_le_percentiles :
    (s'.percentiles xs).1 ≤ (s.percentiles xs).1 ∧
      (s.percentiles xs).2 ≤ (s'.percentiles xs).2 := by
  obtain ⟨hlower, hupper, -, -⟩ := h.val_le hs hs'
  have hmono := (isQuantile_quantile (mergeSort_ne_nil hxs)
    (List.pairwise_mergeSort' (· ≤ ·) xs)).monotone
  exact ⟨hmono hlower, hmono hupper⟩

/-- **The range of wider settings holds the range**, where the percentiles of this one differ. -/
theorem exactRange_le_exactRange (hsep : s.Separates (xs.map finite)) :
    (s'.exactRange xs).1 ≤ (s.exactRange xs).1 ∧ (s.exactRange xs).2 ≤ (s'.exactRange xs).2 := by
  obtain ⟨-, -, hpadding, -⟩ := h.val_le hs hs'
  obtain ⟨hlo, hhi⟩ := percentiles_le_percentiles hs hs' h hxs
  have hlt := (percentiles_le hs hxs).lt_of_ne ((separates_map_finite hs hxs).1 hsep)
  rw [exactRange_eq_padded, exactRange_eq_padded]
  exact padded_le_padded hs.padding_nonneg hpadding hlt hlo hhi

theorem exactWindow_within (thin : Bool) {ys : List K} (hys : ys ≠ [])
    (hx : s.Separates (xs.map finite)) (hy : thin = false → s.Separates (ys.map finite)) :
    (s.exactWindow thin xs ys).Within (s'.exactWindow thin xs ys) := by
  obtain ⟨hxmin, hxmax⟩ := exactRange_le_exactRange hs hs' h hxs hx
  cases thin with
  | false =>
    obtain ⟨hymin, hymax⟩ := exactRange_le_exactRange hs hs' h hys (hy rfl)
    exact ⟨hxmin, hxmax, hymin, hymax⟩
  | true =>
    obtain ⟨-, -, -, hratio⟩ := h.val_le hs hs'
    have hwidth : (s.exactRange xs).1 < (s.exactRange xs).2 := (spans_exactRange hs hxs).lt
    have hhalf : s.thinAxisRatio.val * ((s.exactRange xs).2 - (s.exactRange xs).1) ≤
        s'.thinAxisRatio.val * ((s'.exactRange xs).2 - (s'.exactRange xs).1) :=
      mul_le_mul hratio (sub_le_sub hxmax hxmin) (sub_nonneg.2 hwidth.le) hs'.ratio_pos.le
    exact ⟨hxmin, hxmax, neg_le_neg hhalf, hhalf⟩

end Wider

/-- There is nothing to tell apart in no values. -/
theorem ne_nil_of_separates {s : Framing (Exact K)} {values : List (Exact K)}
    (h : s.Separates values) : values ≠ [] := by
  rintro rfl
  rw [Framing.Separates, List.mergeSort_nil] at h
  exact h rfl

end Framing

/-! ## The window -/

/-- **Wider settings never crop more.** Where the percentiles of the narrower settings differ on
each axis that is taken from the points, their window lies within that of the wider ones. -/
theorem estimate_nested [DecimalText (Exact K)] {s s' : Framing (Exact K)}
    (hs : s.validate = .ok ()) (hpadding : Arith.isFinite s.padding = true)
    (hratio : Arith.isFinite s.thinAxisRatio = true) (hs' : s'.validate = .ok ())
    (hpadding' : Arith.isFinite s'.padding = true)
    (hratio' : Arith.isFinite s'.thinAxisRatio = true) (h : s.Wider s') (thin : Bool)
    {sets : List (List (Point (Exact K)))} {points : List (Point (Exact K))}
    (hpoints : (points : Multiset (Point (Exact K))) = finitePoints sets)
    (hx : s.Separates (points.map (·.x)))
    (hy : thin = false → s.Separates (points.map (·.y))) :
    ∃ w w' : Window K, estimate s thin sets = .ok w.exact ∧ estimate s' thin sets = .ok w'.exact ∧
      w.Within w' ∧ ∀ p, w.exact.contains p = true → w'.exact.contains p = true := by
  have hacc := Framing.accepted_of_validate hs hpadding hratio
  have hacc' := Framing.accepted_of_validate hs' hpadding' hratio'
  have hne : points ≠ [] := mt List.map_eq_nil_iff.2 (Framing.ne_nil_of_separates hx)
  have hxs : points.map (·.x.val) ≠ [] := mt List.map_eq_nil_iff.1 hne
  have hys : points.map (·.y.val) ≠ [] := mt List.map_eq_nil_iff.1 hne
  have hfinite := fun p => isFinite_of_mem hpoints (p := p)
  rw [map_x_eq hfinite] at hx
  rw [map_y_eq hfinite] at hy
  have hwithin := Framing.exactWindow_within hacc hacc' h hxs thin hys hx hy
  exact ⟨_, _, Framing.estimate_eq_exactWindow hacc thin hpoints hne,
    Framing.estimate_eq_exactWindow hacc' thin hpoints hne, hwithin, fun _ => hwithin.contains⟩

/-- Three points on a line, first from the first to the third quarter without padding, then all of
them by the default padding. -/
theorem estimate_nested_quarters :
    let _text : DecimalText (Exact ℚ) := ⟨fun _ => "", fun _ _ => ""⟩
    let s' : Framing (Exact ℚ) := { Framing.default with lowerPercentile := finite 0 }
    let s : Framing (Exact ℚ) := ⟨finite 25, finite 75, finite 0, finite (1 / 4), true⟩
    let sets := [[⟨finite 0, finite 7⟩], [⟨finite 1, finite 7⟩, ⟨nan, finite 7⟩],
      [⟨finite 2, finite 7⟩]]
    let points : List (Point (Exact ℚ)) :=
      [⟨finite 0, finite 7⟩, ⟨finite 1, finite 7⟩, ⟨finite 2, finite 7⟩]
    ((s.validate = .ok () ∧ Arith.isFinite s.padding = true ∧
          Arith.isFinite s.thinAxisRatio = true) ∧
        (s'.validate = .ok () ∧ Arith.isFinite s'.padding = true ∧
          Arith.isFinite s'.thinAxisRatio = true) ∧
        s.Wider s' ∧ (points : Multiset (Point (Exact ℚ))) = finitePoints sets ∧
        s.Separates (points.map (·.x))) ∧
      ∃ w w' : Window ℚ, estimate s true sets = .ok w.exact ∧ estimate s' true sets = .ok w'.exact ∧
        w.Within w' := by
  intro _text s' s sets points
  have hs : s.validate = .ok () := by decide +kernel
  have hs' : s'.validate = .ok () := by decide +kernel
  have hratio' : Arith.isFinite s'.thinAxisRatio = true := by decide +kernel
  have hwider : s.Wider s' := by constructor <;> decide +kernel
  have hpoints : (points : Multiset (Point (Exact ℚ))) = finitePoints sets := by decide
  have hx : s.Separates (points.map (·.x)) := by
    have hsorted : (points.map (·.x)).mergeSort Arith.totalLe =
        [finite 0, finite 1, finite 2] :=
      List.mergeSort_of_pairwise (by decide)
    rw [Framing.Separates, hsorted]
    decide +kernel
  obtain ⟨w, w', hw, hw', hwithin, -⟩ :=
    estimate_nested hs rfl rfl hs' rfl hratio' hwider true hpoints hx fun h => Bool.noConfusion h
  exact ⟨⟨⟨hs, rfl, rfl⟩, ⟨hs', rfl, hratio'⟩, hwider, hpoints, hx⟩, w, w', hw, hw', hwithin⟩

end Starfilm
