import Mathlib.Tactic.Ring
import Starfilm.Proofs.Raster.Scaling

/-!
# Windows in images of another shape

A window with positive sides is fitted into an image with exact arithmetic: each side gets a part
of the pixels, in the middle of what there is (`along`), and with the same number of pixels for a
unit of length one side gets all. So a point of the window lies within the image, on its closing
edge only if it is on that of the window and there is no margin (`along_eq_iff`), and only such
points are moved when they are brought to a pixel (`PixelMap.snap_finite`).

**Main statement**: `PixelMap.letterbox_ofWindow`.
-/

namespace Starfilm

variable {K : Type} [Field K] [LinearOrder K] [IsStrictOrderedRing K]

/-! ## One axis -/

/-- Where `x` lies when the numbers from `lo` to `hi` are put into the middle of `n` pixels, `s` for
each unit. -/
def along (n s lo hi x : K) : K := (n - s * (hi - lo)) / (2 : ℕ) + s * (x - lo)

section Axis

variable {n s lo hi x y : K}

/-- The place from the other end. -/
theorem along_eq_sub (n s lo hi x : K) :
    along n s lo hi x = n - ((n - s * (hi - lo)) / (2 : ℕ) + s * (hi - x)) := by
  rw [along]
  push_cast
  ring

theorem along_center (n s lo hi : K) : along n s lo hi ((lo + hi) / 2) = n / 2 := by
  rw [along]
  push_cast
  ring

variable (hs : 0 < s)

include hs

theorem along_le_along (h : x ≤ y) : along n s lo hi x ≤ along n s lo hi y := by
  have hmul : s * (x - lo) ≤ s * (y - lo) :=
    mul_le_mul_of_nonneg_left (sub_le_sub_right h lo) hs.le
  exact add_le_add_right hmul _

variable (hfit : s * (hi - lo) ≤ n)

include hfit

omit hs in
theorem margin_nonneg : 0 ≤ (n - s * (hi - lo)) / (2 : ℕ) :=
  div_nonneg (sub_nonneg.2 hfit) (Nat.cast_nonneg 2)

theorem along_nonneg (hx : lo ≤ x) : 0 ≤ along n s lo hi x :=
  add_nonneg (margin_nonneg hfit) (mul_nonneg hs.le (sub_nonneg.2 hx))

theorem along_le (hx : x ≤ hi) : along n s lo hi x ≤ n := by
  rw [along_eq_sub]
  exact sub_le_self n
    (add_nonneg (margin_nonneg hfit) (mul_nonneg hs.le (sub_nonneg.2 hx)))

/-- Only the lower end can lie at the first edge, and only without a margin. -/
theorem along_eq_zero_iff (hx : lo ≤ x) :
    along n s lo hi x = 0 ↔ x = lo ∧ (n - s * (hi - lo)) / (2 : ℕ) = 0 := by
  have hmul : 0 ≤ s * (x - lo) := mul_nonneg hs.le (sub_nonneg.2 hx)
  rw [along, add_eq_zero_iff_of_nonneg (margin_nonneg hfit) hmul, mul_eq_zero, sub_eq_zero,
    or_iff_right hs.ne', and_comm]

/-- Only the upper end can lie at the last edge, and only without a margin. -/
theorem along_eq_iff (hx : x ≤ hi) :
    along n s lo hi x = n ↔ x = hi ∧ (n - s * (hi - lo)) / (2 : ℕ) = 0 := by
  have hmul : 0 ≤ s * (hi - x) := mul_nonneg hs.le (sub_nonneg.2 hx)
  rw [along_eq_sub, sub_eq_self, add_eq_zero_iff_of_nonneg (margin_nonneg hfit) hmul, mul_eq_zero,
    sub_eq_zero, or_iff_right hs.ne', and_comm, eq_comm]

end Axis

/-! ## One number of pixels for both axes -/

namespace Window

variable {w : Window K} (hw : w.Proper)

include hw

theorem fit_pos {width height : ℕ} (hwidth : 1 ≤ width) (hheight : 1 ≤ height) :
    0 < w.fit width height := by
  have hwide : (0 : K) < width := Nat.cast_pos.2 hwidth
  have hhigh : (0 : K) < height := Nat.cast_pos.2 hheight
  exact lt_min (div_pos hwide (sub_pos.2 hw.x_lt)) (div_pos hhigh (sub_pos.2 hw.y_lt))

variable (width height : ℕ)

theorem fit_mul_width_le : w.fit width height * (w.xmax - w.xmin) ≤ width :=
  (le_div_iff₀ (sub_pos.2 hw.x_lt)).1 (min_le_left _ _)

theorem fit_mul_height_le : w.fit width height * (w.ymax - w.ymin) ≤ height :=
  (le_div_iff₀ (sub_pos.2 hw.y_lt)).1 (min_le_right _ _)

/-- One side of the window gets all pixels. -/
theorem fit_tight : w.fit width height * (w.xmax - w.xmin) = width ∨
    w.fit width height * (w.ymax - w.ymin) = height := by
  rcases min_choice ((width : K) / (w.xmax - w.xmin)) (height / (w.ymax - w.ymin)) with h | h
  · rw [fit, h]
    exact .inl (div_mul_cancel₀ _ (sub_pos.2 hw.x_lt).ne')
  · rw [fit, h]
    exact .inr (div_mul_cancel₀ _ (sub_pos.2 hw.y_lt).ne')

end Window

variable [FloorRing K]

open Exact

/-! ## Pixels -/

namespace PixelMap

theorem snap_le_snap (n : ℕ) {x y : K} (h : x ≤ y) : snap n (finite x) ≤ snap n (finite y) := by
  have hfloor : ⌊x⌋ ≤ ⌊y⌋ := Int.floor_le_floor h
  change min (max minWord (min maxWord ⌊x⌋)).toNat (n - 1) ≤
    min (max minWord (min maxWord ⌊y⌋)).toNat (n - 1)
  omega

/-- Of the places within `n` pixels only the last one is moved when it is brought to a pixel. -/
theorem snap_finite {n : ℕ} (hn : 1 ≤ n) (hn' : n ≤ maxCount) {x : K} (hx : 0 ≤ x) (hx' : x ≤ n) :
    (0 ≤ ⌊x⌋ ∧ ⌊x⌋ ≤ n) ∧
      (snap n (finite x) : ℤ) = if ⌊x⌋ = n then (n : ℤ) - 1 else ⌊x⌋ := by
  have hlo : 0 ≤ ⌊x⌋ := Int.floor_nonneg.2 hx
  have hhi : ⌊x⌋ ≤ n := by
    rw [← Int.floor_natCast (R := K) n]
    exact Int.floor_le_floor hx'
  refine ⟨⟨hlo, hhi⟩, ?_⟩
  change ((min (max minWord (min maxWord ⌊x⌋)).toNat (n - 1) : ℕ) : ℤ) = _
  simp only [minWord, maxWord, maxCount] at *
  split_ifs <;> omega

theorem floor_eq_iff_of_le {n : ℕ} {x : K} (hx : x ≤ n) : ⌊x⌋ = (n : ℤ) ↔ x = n := by
  rw [Int.floor_eq_iff, Int.cast_natCast]
  exact ⟨fun h => le_antisymm hx h.1, fun h => ⟨h.ge, h ▸ lt_add_one _⟩⟩

/-- A map that shows all of a window in the middle of an image, as large as possible and in its
shape, and moves nothing but its closing edges. -/
structure Letterbox (m : PixelMap (Exact K)) (w : Window K) (width height : ℕ) : Prop where
  scale_eq : m.scale =
    finite (min (width / (w.xmax - w.xmin)) (height / (w.ymax - w.ymin)))
  /-- Columns follow the abscissas with this scale. -/
  column_sub (x x' : K) (y y' : Exact K) :
    m.column ⟨finite x, y⟩ - m.column ⟨finite x', y'⟩ = m.scale * (finite x - finite x')
  /-- Rows follow the ordinates with the same scale, downwards. -/
  row_sub (x x' : Exact K) (y y' : K) :
    m.row ⟨x, finite y⟩ - m.row ⟨x', finite y'⟩ = -(m.scale * (finite y - finite y'))
  column_center : m.column w.exact.center = finite ((width : K) / 2)
  row_center : m.row w.exact.center = finite ((height : K) / 2)
  /-- On at least one axis there is no margin. -/
  margins : ∃ a b : K, m.x₀ = finite a ∧ m.y₀ = finite b ∧ 0 ≤ a ∧ 0 ≤ b ∧ (a = 0 ∨ b = 0)
  /-- A column is one of the image, save on the right edge of the window if there is no margin;
  then it is moved to the last one. -/
  column_mem (p : Point (Exact K)) (h : w.exact.contains p = true) :
    ∃ c : K, m.column p = finite c ∧ (0 ≤ ⌊c⌋ ∧ ⌊c⌋ ≤ width) ∧
      (⌊c⌋ = width ↔ p.x = finite w.xmax ∧ m.x₀ = finite 0) ∧
      ∃ i ∈ m.pixel? p, (i.1 : ℤ) = if ⌊c⌋ = width then (width : ℤ) - 1 else ⌊c⌋
  /-- A row is one of the image, save on the lower edge of the window if there is no margin; then it
  is moved to the last one. -/
  row_mem (p : Point (Exact K)) (h : w.exact.contains p = true) :
    ∃ r : K, m.row p = finite r ∧ (0 ≤ ⌊r⌋ ∧ ⌊r⌋ ≤ height) ∧
      (⌊r⌋ = height ↔ p.y = finite w.ymin ∧ m.y₀ = finite 0) ∧
      ∃ i ∈ m.pixel? p, (i.2 : ℤ) = if ⌊r⌋ = height then (height : ℤ) - 1 else ⌊r⌋
  column_le (p q : Point (Exact K)) (i j : ℕ × ℕ) (hi : m.pixel? p = some i)
    (hj : m.pixel? q = some j) (h : Arith.le p.x q.x = true) : i.1 ≤ j.1
  row_le (p q : Point (Exact K)) (i j : ℕ × ℕ) (hi : m.pixel? p = some i)
    (hj : m.pixel? q = some j) (h : Arith.le p.y q.y = true) : j.2 ≤ i.2
  pixel?_eq_none_iff (p : Point (Exact K)) : m.pixel? p = none ↔ w.exact.contains p = false

section Letterbox

variable {w : Window K} (hw : w.Proper) {width height : ℕ}

omit [IsStrictOrderedRing K] [FloorRing K] in
theorem row_eq_sub (w : Window K) (width height : ℕ) (y : K) : w.row width height y =
    (height : K) - along (height : K) (w.fit width height) w.ymin w.ymax y := rfl

theorem center_exact (w : Window K) : w.exact.center =
    ⟨finite ((w.xmin + w.xmax) / 2), finite ((w.ymin + w.ymax) / 2)⟩ := by
  have hhalf : ((5 : ℤ) : K) / 10 ^ 1 = 1 / 2 := by norm_num
  simp only [Window.center, Window.exact, decimal_eq, hhalf, finite_add, finite_mul]
  rw [one_div_mul_eq_div, one_div_mul_eq_div]

theorem contains_exact_iff (w : Window K) (x y : K) :
    w.exact.contains ⟨finite x, finite y⟩ = true ↔
      (w.xmin ≤ x ∧ x ≤ w.xmax) ∧ w.ymin ≤ y ∧ y ≤ w.ymax := by
  simp only [Window.contains, Window.exact, le_finite, Bool.and_eq_true, decide_eq_true_eq,
    and_assoc]

include hw

theorem pixel?_exact {x y : K} (h : w.exact.contains ⟨finite x, finite y⟩ = true) :
    (ofWindow w.exact width height).pixel? ⟨finite x, finite y⟩ =
      some (snap width (finite (w.column width height x)),
        snap height (finite (w.row width height y))) := by
  rw [← column_exact hw width height x (finite y), ← row_exact hw width height (finite x) y]
  exact if_pos h

theorem exists_of_pixel? {p : Point (Exact K)} {i : ℕ × ℕ}
    (h : (ofWindow w.exact width height).pixel? p = some i) :
    ∃ x y, p = ⟨finite x, finite y⟩ ∧ i.1 = snap width (finite (w.column width height x)) ∧
      i.2 = snap height (finite (w.row width height y)) := by
  have hcontains : w.exact.contains p = true := by
    have hsome := (ofWindow w.exact width height).isSome_pixel? p
    rw [h] at hsome
    exact hsome.symm
  obtain ⟨x, y, rfl⟩ := Window.exists_finite_of_contains hcontains
  rw [pixel?_exact hw hcontains] at h
  obtain rfl := Option.some.inj h
  exact ⟨x, y, rfl, rfl, rfl⟩

variable (hwidth : 1 ≤ width) (hheight : 1 ≤ height)

include hwidth hheight

theorem column_mem {x : K} (hlo : w.xmin ≤ x) (hhi : x ≤ w.xmax) :
    (0 ≤ w.column width height x ∧ w.column width height x ≤ width) ∧
      (w.column width height x = width ↔ finite x = finite w.xmax ∧
        (ofWindow w.exact width height).x₀ = finite 0) := by
  have hfit := Window.fit_pos hw hwidth hheight
  have hwide := Window.fit_mul_width_le hw width height
  refine ⟨⟨along_nonneg hfit hwide hlo, along_le hfit hwide hhi⟩, ?_⟩
  rw [x₀_exact hw, finite.injEq, finite.injEq]
  exact along_eq_iff hfit hwide hhi

theorem row_mem {y : K} (hlo : w.ymin ≤ y) (hhi : y ≤ w.ymax) :
    (0 ≤ w.row width height y ∧ w.row width height y ≤ height) ∧
      (w.row width height y = height ↔ finite y = finite w.ymin ∧
        (ofWindow w.exact width height).y₀ = finite 0) := by
  have hfit := Window.fit_pos hw hwidth hheight
  have hhigh := Window.fit_mul_height_le hw width height
  rw [row_eq_sub, y₀_exact hw, finite.injEq, finite.injEq, sub_eq_self]
  refine ⟨⟨sub_nonneg.2 (along_le hfit hhigh hhi), ?_⟩, along_eq_zero_iff hfit hhigh hlo⟩
  exact sub_le_self _ (along_nonneg hfit hhigh hlo)

/-- **A window with positive sides is letterboxed**: it is shown in the middle of the image, with
one scale for both axes and no margin on one of them; a point of the window that has its column
behind the last one, or its row below the lowest one, lies on a closing edge of the window and is
moved by one pixel, and no other point is moved. -/
theorem letterbox_ofWindow (hwidth' : width ≤ maxCount) (hheight' : height ≤ maxCount) :
    (ofWindow w.exact width height).Letterbox w width height where
  scale_eq := scale_ofWindow_exact hw width height
  column_sub x x' y y' := by
    rw [column_exact hw, column_exact hw, scale_ofWindow_exact hw, finite_sub, finite_sub,
      finite_mul, Window.column, Window.column]
    congr 1
    ring
  row_sub x x' y y' := by
    rw [row_exact hw, row_exact hw, scale_ofWindow_exact hw, finite_sub, finite_sub, finite_mul,
      finite_neg, Window.row, Window.row]
    congr 1
    ring
  column_center := by
    rw [center_exact, column_exact hw]
    exact congrArg finite (along_center _ _ _ _)
  row_center := by rw [center_exact, row_exact hw, row_eq_sub, along_center, sub_half]
  margins := by
    refine ⟨_, _, x₀_exact hw width height, y₀_exact hw width height,
      margin_nonneg (Window.fit_mul_width_le hw width height),
      margin_nonneg (Window.fit_mul_height_le hw width height), ?_⟩
    rcases Window.fit_tight hw width height with h | h
    · exact .inl (by rw [h, sub_self, zero_div])
    · exact .inr (by rw [h, sub_self, zero_div])
  column_mem p h := by
    obtain ⟨x, y, rfl⟩ := Window.exists_finite_of_contains h
    obtain ⟨⟨hlo, hhi⟩, -⟩ := (contains_exact_iff w x y).1 h
    obtain ⟨⟨hcolumn, hcolumn'⟩, hedge⟩ := column_mem hw hwidth hheight hlo hhi
    obtain ⟨hfloor, hsnap⟩ := snap_finite hwidth hwidth' hcolumn hcolumn'
    refine ⟨_, column_exact hw width height x (finite y), hfloor, ?_, _, pixel?_exact hw h, hsnap⟩
    rw [floor_eq_iff_of_le hcolumn', hedge]
  row_mem p h := by
    obtain ⟨x, y, rfl⟩ := Window.exists_finite_of_contains h
    obtain ⟨-, hlo, hhi⟩ := (contains_exact_iff w x y).1 h
    obtain ⟨⟨hrow, hrow'⟩, hedge⟩ := row_mem hw hwidth hheight hlo hhi
    obtain ⟨hfloor, hsnap⟩ := snap_finite hheight hheight' hrow hrow'
    refine ⟨_, row_exact hw width height (finite x) y, hfloor, ?_, _, pixel?_exact hw h, hsnap⟩
    rw [floor_eq_iff_of_le hrow', hedge]
  column_le p q i j hi hj h := by
    obtain ⟨x, y, rfl, hcolumn, -⟩ := exists_of_pixel? hw hi
    obtain ⟨x', y', rfl, hcolumn', -⟩ := exists_of_pixel? hw hj
    rw [le_finite, decide_eq_true_iff] at h
    rw [hcolumn, hcolumn']
    exact snap_le_snap width (along_le_along (Window.fit_pos hw hwidth hheight) h)
  row_le p q i j hi hj h := by
    obtain ⟨x, y, rfl, -, hrow⟩ := exists_of_pixel? hw hi
    obtain ⟨x', y', rfl, -, hrow'⟩ := exists_of_pixel? hw hj
    rw [le_finite, decide_eq_true_iff] at h
    rw [hrow, hrow']
    exact snap_le_snap height
      (sub_le_sub_left (along_le_along (Window.fit_pos hw hwidth hheight) h) _)
  pixel?_eq_none_iff p := by
    have hsome := (ofWindow w.exact width height).isSome_pixel? p
    rw [← Option.not_isSome_iff_eq_none, hsome, Bool.not_eq_true]
    rfl

omit hw hwidth hheight in
/-- A window twice as wide as high in a square image. Its lower right corner is on a closing edge in
both directions, but only to the left and right there is no margin. -/
theorem letterbox_ofWindow_wide :
    let w : Window ℚ := ⟨0, 2, 0, 1⟩
    let m := ofWindow w.exact 4 4
    (w.Proper ∧ 4 ≤ maxCount) ∧ m.Letterbox w 4 4 ∧
      m.column ⟨finite 2, finite 0⟩ = finite 4 ∧ m.row ⟨finite 2, finite 0⟩ = finite 3 ∧
      m.pixel? ⟨finite 2, finite 0⟩ = some (3, 3) := by
  intro w m
  have hw : w.Proper := ⟨by norm_num, by norm_num⟩
  have hcount : 4 ≤ maxCount := by decide
  refine ⟨⟨hw, hcount⟩, letterbox_ofWindow hw (by decide) (by decide) hcount hcount, ?_⟩
  decide +kernel

end Letterbox

end PixelMap

end Starfilm
