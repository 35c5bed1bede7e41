import Starfilm.Proofs.Window.Range

/-!
# Windows of exact numbers

With exact arithmetic and accepted settings the window of some points is a window of numbers
(`Framing.exactWindow`, `estimate_eq_exactWindow`), and both of its sides are positive
(`Framing.exactWindow_proper`). Statements about such windows can be made in the field alone.
-/

namespace Starfilm

variable {K : Type} [Field K] [LinearOrder K] [IsStrictOrderedRing K] [FloorRing K]

open Exact

namespace Window

/-- A window of numbers, as one of exact values. -/
def exact (w : Window K) : Window (Exact K) :=
  ⟨finite w.xmin, finite w.xmax, finite w.ymin, finite w.ymax⟩

/-- Both sides of a window are positive. -/
structure Proper (w : Window K) : Prop where
  x_lt : w.xmin < w.xmax
  y_lt : w.ymin < w.ymax

/-- A window of numbers contains points of numbers only. -/
theorem exists_finite_of_contains {w : Window K} {p : Point (Exact K)}
    (h : w.exact.contains p = true) : ∃ x y, p = ⟨finite x, finite y⟩ := by
  simp only [contains, Bool.and_eq_true] at h
  obtain ⟨⟨⟨hx₀, hx₁⟩, hy₀⟩, hy₁⟩ := h
  refine ⟨p.x.val, p.y.val, ?_⟩
  rw [finite_val (isFinite_of_le_of_le hx₀ hx₁), finite_val (isFinite_of_le_of_le hy₀ hy₁)]

end Window

namespace Framing

/-- The window of some abscissas and ordinates. -/
def exactWindow (s : Framing (Exact K)) (thin : Bool) (xs ys : List K) : Window K :=
  let x := s.exactRange xs
  let half := s.thinAxisRatio.val * (x.2 - x.1)
  let y := if thin then (-half, half) else s.exactRange ys
  ⟨x.1, x.2, y.1, y.2⟩

section Accepted

variable {s : Framing (Exact K)} (hs : s.Accepted) (thin : Bool) {xs ys : List K} (hxs : xs ≠ [])
  (hys : ys ≠ [])

include hs hxs hys

theorem windowOf_map_finite :
    windowOf s thin (xs.map finite) (ys.map finite) = (s.exactWindow thin xs ys).exact := by
  rw [windowOf, paddedRange_map_finite hs hxs, paddedRange_map_finite hs hys, hs.ratio]
  cases thin with
  | false => rfl
  | true => simp only [if_true, finite_sub, finite_mul, finite_neg, exactWindow, Window.exact]

theorem exactWindow_proper : (s.exactWindow thin xs ys).Proper := by
  have hx : (s.exactRange xs).1 < (s.exactRange xs).2 := (spans_exactRange hs hxs).lt
  cases thin with
  | false =>
    have hy : (s.exactRange ys).1 < (s.exactRange ys).2 := (spans_exactRange hs hys).lt
    exact ⟨hx, hy⟩
  | true =>
    have hhalf : 0 < s.thinAxisRatio.val * ((s.exactRange xs).2 - (s.exactRange xs).1) :=
      mul_pos hs.ratio_pos (sub_pos.2 hx)
    exact ⟨hx, neg_lt_self hhalf⟩

end Accepted

/-- **The window of some points** is that of the coordinates of the finite ones. -/
theorem estimate_eq_exactWindow {s : Framing (Exact K)} (hs : s.Accepted) (thin : Bool)
    {sets : List (List (Point (Exact K)))} {points : List (Point (Exact K))}
    (hpoints : (points : Multiset (Point (Exact K))) = finitePoints sets) (hne : points ≠ []) :
    estimate s thin sets =
      .ok (s.exactWindow thin (points.map (·.x.val)) (points.map (·.y.val))).exact := by
  have hfinite := fun p => isFinite_of_mem hpoints (p := p)
  have hxs : points.map (·.x.val) ≠ [] := mt List.map_eq_nil_iff.1 hne
  have hys : points.map (·.y.val) ≠ [] := mt List.map_eq_nil_iff.1 hne
  rw [estimate_eq_windowOf s thin hpoints hne, map_x_eq hfinite, map_y_eq hfinite,
    windowOf_map_finite hs thin hxs hys]

end Framing

end Starfilm
