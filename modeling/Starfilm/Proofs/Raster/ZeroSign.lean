import Starfilm.Proofs.Raster.Gather
import Starfilm.Proofs.Window.ZeroSign

/-!
# Pictures and the sign of zero

Where a point lies in an image is rounded to a pixel, and the sign of a zero is gone with that. So
frames whose points are the same up to the signs of zeros have one picture, each in its own of two
windows that are the same in that sense and have one width and one height (`Look.draw_plain`).
-/

namespace Starfilm

open Double

namespace Frame

/-- A frame without the signs of zeros among its coordinates. -/
def plain (f : Frame Double) : Frame Double :=
  { f with
    disk := f.disk.map Point.plain
    bulge := f.bulge.map Point.plain
    newStars := f.newStars.map Point.plain }

variable (f : Frame Double)

theorem tagged_plain : f.plain.tagged = f.tagged.map (Prod.map id Point.plain) := by
  simp only [tagged, plain, List.map_append, List.map_map]
  rfl

theorem pointSets_plain : f.plain.pointSets = f.pointSets.map fun ps => ps.map Point.plain := rfl

end Frame

theorem Window.same_refl (w : Window Double) : w.Same w := ⟨rfl, rfl, rfl⟩

namespace Window.Same

variable {w w' : Window Double} (h : w.Same w')

include h

theorem contains_eq {p p' : Point Double} (hp : p.plain = p'.plain) :
    w.contains p = w'.contains p' := by
  have hplain (v : Window Double) (r : Point Double) : v.plain.contains r.plain = v.contains r := by
    simp only [contains, Window.plain, Point.plain, le_plain_left, le_plain_right]
  rw [← hplain w p, h.plain_eq, hp, hplain]

theorem pixels_eq (size : FrameSize) : size.pixels w = size.pixels w' := by
  have haspect : w.aspect = w'.aspect := by rw [aspect, aspect, h.width_eq, h.height_eq]
  cases size with
  | fixed width height => rfl
  | fitHeight height => simp only [FrameSize.pixels, haspect]

/-- **A point keeps its pixel** in a window that is the same up to the signs of zeros. -/
theorem pixel?_eq (width height : ℕ) {p p' : Point Double} (hp : p.plain = p'.plain) :
    (PixelMap.ofWindow w width height).pixel? p =
      (PixelMap.ofWindow w' width height).pixel? p' := by
  have hx : p.x.plain = p'.x.plain := congrArg Point.x hp
  have hy : p.y.plain = p'.y.plain := congrArg Point.y hp
  have hxmin : w.xmin.plain = w'.xmin.plain := congrArg Window.xmin h.plain_eq
  have hymin : w.ymin.plain = w'.ymin.plain := congrArg Window.ymin h.plain_eq
  have hline {a b u v : Double} (x₀ s : Double) (hu : u.plain = v.plain) (ha : a.plain = b.plain) :
      (x₀ + s * (u - a)).plain = (x₀ + s * (v - b)).plain :=
    plain_add_congr rfl (plain_mul_congr rfl (plain_sub_congr hu ha))
  have hsnap {n : ℕ} {u v : Double} (huv : u.plain = v.plain) :
      PixelMap.snap n u = PixelMap.snap n v := by
    rw [PixelMap.snap, PixelMap.snap, ← toInt_plain u, huv, toInt_plain]
  have hmap : PixelMap.ofWindow w width height =
      { PixelMap.ofWindow w' width height with window := w } := by
    simp only [PixelMap.ofWindow, h.width_eq, h.height_eq]
  have hcontains : (PixelMap.ofWindow w width height).window.contains p =
      (PixelMap.ofWindow w' width height).window.contains p' := h.contains_eq hp
  rw [PixelMap.pixel?, PixelMap.pixel?, hcontains, hmap]
  congr 3
  · exact hsnap (hline _ _ hx hxmin)
  · exact hsnap (plain_sub_congr rfl (hline _ _ hy hymin))

end Window.Same

namespace Look

variable {G : Type} (l : Look G) {w w' : Window Double} (h : w.Same w')

include h

theorem mark?_plain (q : ParticleClass × Point Double) :
    l.mark? w (Prod.map id Point.plain q) = l.mark? w' q := by
  have hplain : q.2.plain.plain = q.2.plain := by simp only [Point.plain, plain_plain]
  simp only [mark?, pixelMap, h.pixels_eq, Prod.map_fst, Prod.map_snd, id, h.pixel?_eq _ _ hplain]

theorem filterMap_mark?_plain (f : Frame Double) :
    f.plain.tagged.filterMap (l.mark? w) = f.tagged.filterMap (l.mark? w') := by
  rw [Frame.tagged_plain, List.filterMap_map]
  exact congrArg (f.tagged.filterMap ·) (funext (l.mark?_plain h))

/-- **The picture of a frame does not depend on the signs of zeros**, neither in the frame nor in
its window. -/
theorem draw_plain [Arith G] (f : Frame Double) : l.draw w f.plain = l.draw w' f := by
  rw [draw_eq, draw_eq, l.filterMap_mark?_plain h, h.pixels_eq]

end Look

end Starfilm
