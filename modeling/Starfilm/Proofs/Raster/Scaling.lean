import Mathlib.Tactic.FieldSimp
import Starfilm.Proofs.Raster.Gather
import Starfilm.Proofs.View.Scaling
import Starfilm.Proofs.Window.Exact

/-!
# Pictures in another unit of length

With exact arithmetic a window with positive sides is fitted into an image by one number of pixels
for each unit of length (`Window.fit`, `PixelMap.ofWindow_exact`). In another unit the number of
pixels changes inversely, and the shape of the window and the margins do not change. So every point
keeps its pixel (`PixelMap.pixel?_scale`), and every frame its picture (`Look.draw_scale`).
-/

namespace Starfilm

variable {K : Type} [Field K] [LinearOrder K] [IsStrictOrderedRing K] [FloorRing K]

open Exact

omit [FloorRing K] in
theorem Window.Proper.scale {w : Window K} (hw : w.Proper) {a : K} (ha : 0 < a) :
    (w.scale a).Proper :=
  ⟨mul_lt_mul_of_pos_left hw.x_lt ha, mul_lt_mul_of_pos_left hw.y_lt ha⟩

theorem Window.exact_scale (w : Window K) (a : K) :
    (w.scale a).exact = w.exact.scale (finite a) := rfl

/-! ## The size of a frame -/

theorem Window.aspect_exact {w : Window K} (hw : w.Proper) :
    w.exact.aspect = finite ((w.xmax - w.xmin) / (w.ymax - w.ymin)) := by
  have hheight : w.ymax - w.ymin ≠ 0 := (sub_pos.2 hw.y_lt).ne'
  simp only [aspect, width, height, exact, finite_sub, finite_div _ _ hheight]

/-- The shape of a window is the same in every unit, and with it the size of frames. -/
theorem FrameSize.pixels_scale (size : FrameSize) {w : Window K} (hw : w.Proper) {a : K}
    (ha : 0 < a) : size.pixels (w.scale a).exact = size.pixels w.exact := by
  have hshape : (a * w.xmax - a * w.xmin) / (a * w.ymax - a * w.ymin) =
      (w.xmax - w.xmin) / (w.ymax - w.ymin) := by
    rw [← mul_sub, ← mul_sub, mul_div_mul_left _ _ ha.ne']
  have haspect : (w.scale a).exact.aspect = w.exact.aspect := by
    rw [Window.aspect_exact hw, Window.aspect_exact (hw.scale ha)]
    exact congrArg finite hshape
  cases size with
  | fixed width height => rfl
  | fitHeight height => simp only [pixels, haspect]

/-! ## From points to pixels -/

theorem Exact.min_finite (a b : K) : Arith.min (finite a) (finite b) = finite (min a b) := by
  simp only [Arith.min, le_finite, decide_eq_true_eq, le_refl, if_true]
  split_ifs with hab
  · rw [min_eq_left hab]
  · rw [min_eq_right (le_of_not_ge hab)]

namespace Window

variable (w : Window K) (width height : ℕ)

/-- The most pixels for each unit of length with which a window fits into an image. -/
def fit : K := min (width / (w.xmax - w.xmin)) (height / (w.ymax - w.ymin))

/-- Where an abscissa lies in the image, in pixels from the left. -/
def column (x : K) : K :=
  (width - w.fit width height * (w.xmax - w.xmin)) / (2 : ℕ) + w.fit width height * (x - w.xmin)

/-- Where an ordinate lies in the image, in pixels from the top. -/
def row (y : K) : K :=
  height - ((height - w.fit width height * (w.ymax - w.ymin)) / (2 : ℕ) +
    w.fit width height * (y - w.ymin))

variable {a : K} (ha : 0 < a)

include ha

omit [FloorRing K] in
theorem fit_scale : (w.scale a).fit width height = w.fit width height / a := by
  simp only [fit, scale, ← mul_sub, div_mul_eq_div_div_swap, min_div_div_right ha.le]

omit [FloorRing K] in
theorem column_scale (x : K) :
    (w.scale a).column width height (a * x) = w.column width height x := by
  have hne : a ≠ 0 := ha.ne'
  rw [column, column, fit_scale w width height ha]
  simp only [scale]
  field_simp

omit [FloorRing K] in
theorem row_scale (y : K) : (w.scale a).row width height (a * y) = w.row width height y := by
  have hne : a ≠ 0 := ha.ne'
  rw [row, row, fit_scale w width height ha]
  simp only [scale]
  field_simp

theorem contains_scale (p : Point (Exact K)) :
    (w.scale a).exact.contains (p.scale (finite a)) = w.exact.contains p := by
  rw [exact_scale]
  simp only [contains, scale, Point.scale, le_finite_mul ha]

end Window

namespace PixelMap

variable {w : Window K} (hw : w.Proper) (width height : ℕ)

include hw

theorem scale_ofWindow_exact :
    (ofWindow w.exact width height).scale = finite (w.fit width height) := by
  have hwidth : w.xmax - w.xmin ≠ 0 := (sub_pos.2 hw.x_lt).ne'
  have hheight : w.ymax - w.ymin ≠ 0 := (sub_pos.2 hw.y_lt).ne'
  simp only [ofWindow, Window.exact, Window.width, Window.height, Arith.nat, ofInt_eq,
    Int.cast_natCast, finite_sub, finite_div _ _ hwidth, finite_div _ _ hheight, min_finite,
    Window.fit]

omit hw in
theorem margin_exact (n : ℕ) (s lo hi : K) :
    Arith.decimal 5 1 * (Arith.nat n - finite s * (finite hi - finite lo)) =
      finite ((n - s * (hi - lo)) / (2 : ℕ)) := by
  have hhalf : ((5 : ℤ) : K) / 10 ^ 1 = 1 / 2 := by norm_num
  simp only [decimal_eq, hhalf, Arith.nat, ofInt_eq, Int.cast_natCast, finite_sub, finite_mul]
  congr 1
  ring

theorem x₀_exact : (ofWindow w.exact width height).x₀ =
    finite ((width - w.fit width height * (w.xmax - w.xmin)) / (2 : ℕ)) := by
  rw [← margin_exact, ← scale_ofWindow_exact hw]
  rfl

theorem y₀_exact : (ofWindow w.exact width height).y₀ =
    finite ((height - w.fit width height * (w.ymax - w.ymin)) / (2 : ℕ)) := by
  rw [← margin_exact, ← scale_ofWindow_exact hw]
  rfl

theorem column_exact (x : K) (y : Exact K) :
    (ofWindow w.exact width height).column ⟨finite x, y⟩ = finite (w.column width height x) := by
  rw [column, x₀_exact hw, scale_ofWindow_exact hw]
  change _ + _ * (finite x - finite w.xmin) = _
  rw [finite_sub, finite_mul, finite_add]
  rfl

theorem row_exact (x : Exact K) (y : K) :
    (ofWindow w.exact width height).row ⟨x, finite y⟩ = finite (w.row width height y) := by
  rw [row, y₀_exact hw, scale_ofWindow_exact hw]
  change Arith.nat height - (_ + _ * (finite y - finite w.ymin)) = _
  rw [finite_sub, finite_mul, finite_add, Arith.nat, ofInt_eq, finite_sub, Int.cast_natCast]
  rfl

/-- **Every point keeps its pixel** in another unit of length. -/
theorem pixel?_scale {a : K} (ha : 0 < a) (p : Point (Exact K)) :
    (ofWindow (w.scale a).exact width height).pixel? (p.scale (finite a)) =
      (ofWindow w.exact width height).pixel? p := by
  have hcontains := Window.contains_scale w ha p
  change (if (w.scale a).exact.contains (p.scale (finite a)) then _ else _) =
    if w.exact.contains p then _ else _
  rw [hcontains]
  split_ifs with h
  · obtain ⟨x, y, rfl⟩ := Window.exists_finite_of_contains h
    have hcolumn := column_exact (hw.scale ha) width height (a * x) (finite (a * y))
    have hrow := row_exact (hw.scale ha) width height (finite (a * x)) (a * y)
    simp only [Point.scale, finite_mul, hcolumn, hrow, column_exact hw, row_exact hw,
      Window.column_scale w width height ha, Window.row_scale w width height ha]
    rfl
  · rfl

end PixelMap

/-! ## Pictures -/

namespace Look

variable {G : Type} (l : Look G) {w : Window K} (hw : w.Proper) {a : K} (ha : 0 < a)

include hw ha

theorem mark?_scale (c : ParticleClass) (p : Point (Exact K)) :
    l.mark? (w.scale a).exact (c, p.scale (finite a)) = l.mark? w.exact (c, p) := by
  simp only [mark?, pixelMap, FrameSize.pixels_scale l.size hw ha, PixelMap.pixel?_scale hw _ _ ha]

/-- **Every frame keeps its picture** in another unit of length. -/
theorem draw_scale [Arith G] (f : Frame (Exact K)) :
    l.draw (w.scale a).exact (f.scale (finite a)) = l.draw w.exact f := by
  have hmarks : (f.scale (finite a)).tagged.filterMap (l.mark? (w.scale a).exact) =
      f.tagged.filterMap (l.mark? w.exact) := by
    simp only [Frame.tagged, Frame.scale, List.filterMap_append, List.filterMap_map, List.map_map,
      Function.comp_def, l.mark?_scale hw ha]
  rw [draw_eq, draw_eq, hmarks, FrameSize.pixels_scale l.size hw ha]

end Look

end Starfilm
