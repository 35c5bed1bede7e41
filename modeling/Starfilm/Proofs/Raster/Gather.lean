import Starfilm.Arith.Double
import Starfilm.Arith.Single
import Starfilm.Proofs.Raster.Marks

/-!
# Frames, pixel by pixel

A frame is drawn point by point, each writing its disc into the image (`Look.writes`). The same
picture can be read off pixel by pixel: `Look.gather` is the colour that a pixel takes from the
points that reach it (`Look.Reaches`), in the order of drawing.

**Main statement**: `Look.draw_gathers`. The picture of a frame shows at each pixel what is gathered
there, and the writes behind it stay in the image and blend a pixel once for each point that reaches
it. Neither the arithmetic of the opacities nor the size of the image or of a disc is restricted.
-/

namespace Starfilm

variable {F G : Type}

/-- The points of a frame with their classes, in the order in which they are drawn. -/
def Frame.tagged (f : Frame F) : List (ParticleClass × Point F) :=
  f.disk.map (.disk, ·) ++ f.bulge.map (.bulge, ·) ++ f.newStars.map (.newStars, ·)

/-! ## Points and pixels -/

theorem PixelMap.isSome_pixel? [Arith F] (m : PixelMap F) (p : Point F) :
    (m.pixel? p).isSome = m.window.contains p := by
  rw [pixel?]
  cases m.window.contains p <;> rfl

namespace Double

theorem isNaN_iff (x : Double) : Arith.isNaN x = true ↔ x.isNumber = false := by
  simp [Arith.isNaN, Arith.le]

theorem isNumber_of_contains {w : Window Double} {p : Point Double} (h : w.contains p = true) :
    p.x.isNumber = true ∧ p.y.isNumber = true := by
  simp only [Window.contains, Arith.le, Bool.and_eq_true] at h
  obtain ⟨⟨⟨⟨⟨-, hx⟩, -⟩, -⟩, ⟨⟨-, hy⟩, -⟩⟩, -⟩ := h
  exact ⟨hx, hy⟩

/-- No window contains a point one of whose coordinates is no number. -/
theorem contains_eq_false {w : Window Double} {p : Point Double}
    (h : Arith.isNaN p.x = true ∨ Arith.isNaN p.y = true) : w.contains p = false := by
  by_contra hne
  obtain ⟨hx, hy⟩ := isNumber_of_contains (Bool.not_eq_false _ ▸ hne)
  rcases h with h | h
  · rw [isNaN_iff, hx] at h
    exact Bool.noConfusion h
  · rw [isNaN_iff, hy] at h
    exact Bool.noConfusion h

end Double

namespace Look

variable [Arith F] (l : Look G) (w : Window F)

/-- The map from a window to the pixels of its frames. -/
def pixelMap : PixelMap F := .ofWindow w (l.size.pixels w).1 (l.size.pixels w).2

/-- The mark of a point of some class; a point outside the window leaves none. -/
def mark? (q : ParticleClass × Point F) : Option (Mark G) :=
  ((l.pixelMap w).pixel? q.2).map fun c => ⟨c.1, c.2, l.style q.1⟩

/-- The places that are written for a point of some class, one after another. -/
def writes (q : ParticleClass × Point F) : List (ℕ × ℕ) :=
  (l.mark? w q).elim [] fun m => m.places (l.size.pixels w).1 (l.size.pixels w).2

/-- Whether a point of some class reaches a pixel: the window contains the point, and the pixel is
no further from the point's own pixel than the radius of the class. -/
def Reaches (q : ParticleClass × Point F) (x y : ℕ) : Prop :=
  w.contains q.2 = true ∧ ∃ c ∈ (l.pixelMap w).pixel? q.2,
    ((x : ℤ) - c.1) ^ 2 + ((y : ℤ) - c.2) ^ 2 ≤ ((l.style q.1).radius : ℤ) ^ 2

instance (q : ParticleClass × Point F) (x y : ℕ) : Decidable (l.Reaches w q x y) :=
  inferInstanceAs (Decidable (_ ∧ _))

/-- The colour that a pixel takes from the points of a frame that reach it. -/
def gather [Arith G] (f : Frame F) (x y : ℕ) : Rgb :=
  (f.tagged.filter fun q => l.Reaches w q x y).foldl (fun c q => (l.style q.1).blend c) .black

theorem mark?_eq_none {q : ParticleClass × Point F} (h : w.contains q.2 = false) :
    l.mark? w q = none := by
  have hsome := (l.pixelMap w).isSome_pixel? q.2
  rw [show (l.pixelMap w).window = w from rfl, h] at hsome
  rw [mark?, Option.map_eq_none_iff, ← Option.isNone_iff_eq_none, ← Option.not_isSome, hsome]
  rfl

theorem style_of_mem_mark? {q : ParticleClass × Point F} {m : Mark G} (h : m ∈ l.mark? w q) :
    m.style = l.style q.1 := by
  obtain ⟨c, -, rfl⟩ := Option.map_eq_some_iff.1 h
  rfl

/-- A point reaches the pixels that its mark covers. -/
theorem reaches_iff (q : ParticleClass × Point F) (x y : ℕ) :
    l.Reaches w q x y ↔ ∃ m ∈ l.mark? w q, m.covers x y = true := by
  constructor
  · rintro ⟨-, c, hc, hle⟩
    exact ⟨_, Option.map_eq_some_iff.2 ⟨c, hc, rfl⟩, (Mark.covers_iff _ x y).2 hle⟩
  · rintro ⟨m, hm, hcover⟩
    obtain ⟨c, hc, rfl⟩ := Option.map_eq_some_iff.1 hm
    refine ⟨?_, c, hc, (Mark.covers_iff _ x y).1 hcover⟩
    have hsome := (l.pixelMap w).isSome_pixel? q.2
    rw [hc] at hsome
    exact hsome.symm

/-! ## Writes -/

theorem lt_of_mem_writes {q : ParticleClass × Point F} {c : ℕ × ℕ} (h : c ∈ l.writes w q) :
    c.1 < (l.size.pixels w).1 ∧ c.2 < (l.size.pixels w).2 := by
  rw [writes] at h
  cases hm : l.mark? w q with
  | none => simp [hm] at h
  | some m =>
    rw [hm] at h
    obtain ⟨hx, hy, -⟩ := m.mem_places.1 h
    exact ⟨hx, hy⟩

theorem nodup_writes (q : ParticleClass × Point F) : (l.writes w q).Nodup := by
  rw [writes]
  cases l.mark? w q with
  | none => exact List.nodup_nil
  | some m => exact m.nodup_places _ _

theorem mem_writes {q : ParticleClass × Point F} {x y : ℕ} (hx : x < (l.size.pixels w).1)
    (hy : y < (l.size.pixels w).2) : (x, y) ∈ l.writes w q ↔ l.Reaches w q x y := by
  rw [reaches_iff, writes]
  cases l.mark? w q with
  | none => simp
  | some m => simp [m.mem_places, hx, hy]

/-- **A point blends a pixel that it reaches once**, and no other. -/
theorem count_writes (q : ParticleClass × Point F) {x y : ℕ} (hx : x < (l.size.pixels w).1)
    (hy : y < (l.size.pixels w).2) :
    (l.writes w q).count (x, y) = if l.Reaches w q x y then 1 else 0 := by
  rw [(l.nodup_writes w q).count]
  simp only [l.mem_writes w hx hy]

theorem writes_eq_nil {q : ParticleClass × Point F} (h : w.contains q.2 = false) :
    l.writes w q = [] := by
  rw [writes, l.mark?_eq_none w h]
  rfl

/-! ## Drawing -/

theorem marks_eq (f : Frame F) : l.marks (l.pixelMap w) f = f.tagged.filterMap (l.mark? w) := by
  simp only [marks, ParticleClass.all, Frame.tagged, List.flatMap_cons, List.flatMap_nil,
    List.append_nil, List.filterMap_append, List.filterMap_map, List.append_assoc]
  rfl

variable [Arith G]

/-- A frame is drawn from the marks of its points alone. -/
theorem draw_eq (f : Frame F) : l.draw w f =
    if (l.size.pixels w).1 = 0 && !(f.tagged.filterMap (l.mark? w)).isEmpty then
      .error .emptyRaster
    else .ok ((f.tagged.filterMap (l.mark? w)).foldl Image.lay
      (.blank (l.size.pixels w).1 (l.size.pixels w).2 .black)) := by
  rw [← l.marks_eq w f]
  rfl

/-- What the marks of some points leave at a pixel are the blends of the points that reach it. -/
theorem foldl_blend_tagged (qs : List (ParticleClass × Point F)) (x y : ℕ) (c : Rgb) :
    ((qs.filterMap (l.mark? w)).filter fun m => m.covers x y).foldl
        (fun c m => m.style.blend c) c =
      (qs.filter fun q => l.Reaches w q x y).foldl (fun c q => (l.style q.1).blend c) c := by
  rw [List.foldl_filter, List.foldl_filterMap, List.foldl_filter]
  congr 1
  funext c q
  simp only [l.reaches_iff w q x y]
  cases hm : l.mark? w q with
  | none => simp
  | some m => simp [l.style_of_mem_mark? w hm]

/-- What marks leave at a pixel is what is gathered there. -/
theorem foldl_blend_marks (f : Frame F) (x y : ℕ) :
    ((f.tagged.filterMap (l.mark? w)).filter fun m => m.covers x y).foldl
      (fun c m => m.style.blend c) .black = l.gather w f x y :=
  l.foldl_blend_tagged w f.tagged x y .black

/-- Laying the marks of some points is writing each of them. -/
theorem foldl_lay_marks (qs : List (ParticleClass × Point F)) (i : Image)
    (hwidth : i.width = (l.size.pixels w).1) (hheight : i.height = (l.size.pixels w).2) :
    (qs.filterMap (l.mark? w)).foldl Image.lay i =
      qs.foldl (fun i q =>
        (l.writes w q).foldl (fun i c => i.paint c.1 c.2 (l.style q.1).blend) i) i := by
  induction qs generalizing i with
  | nil => rfl
  | cons q qs ih =>
    rw [List.foldl_cons, writes]
    cases hm : l.mark? w q with
    | none => rw [List.filterMap_cons_none hm]; exact ih i hwidth hheight
    | some m =>
      rw [List.filterMap_cons_some hm, List.foldl_cons, Option.elim, ← hwidth, ← hheight,
        ← l.style_of_mem_mark? w hm, ← Image.lay_eq_foldl_paint]
      exact ih _ (by rwa [Image.lay_width]) (by rwa [Image.lay_height])

variable {l} in
/-- **The picture of a frame, gathered pixel by pixel.** In an image with columns each pixel shows
the blends, from black on, of the points that reach it: those in the window whose discs it lies in,
disk before bulge before new stars. The picture is made of writes inside the image alone; those for
one point blend a pixel once if the point reaches it and otherwise never; and a point outside the
window, or with a coordinate that is no number, is not written at all. -/
theorem draw_gathers {w : Window Double} (f : Frame Double) (hcolumns : 1 ≤ (l.size.pixels w).1) :
    ∃ i : Image, l.draw w f = .ok i ∧
      (i.width, i.height) = l.size.pixels w ∧
      (∀ x < i.width, ∀ y < i.height, i.pixel x y = l.gather w f x y) ∧
      i = f.tagged.foldl
        (fun i q => (l.writes w q).foldl (fun i c => i.paint c.1 c.2 (l.style q.1).blend) i)
        (.blank i.width i.height .black) ∧
      ∀ q : ParticleClass × Point Double,
        (∀ c ∈ l.writes w q, c.1 < i.width ∧ c.2 < i.height) ∧
        (∀ x < i.width, ∀ y < i.height,
          (l.writes w q).count (x, y) = if l.Reaches w q x y then 1 else 0) ∧
        (w.contains q.2 = false ∨ Arith.isNaN q.2.x = true ∨ Arith.isNaN q.2.y = true →
          l.writes w q = []) := by
  have hne : (l.size.pixels w).1 ≠ 0 := by omega
  let blank := Image.blank (l.size.pixels w).1 (l.size.pixels w).2 .black
  let i := (f.tagged.filterMap (l.mark? w)).foldl Image.lay blank
  have hwidth : i.width = (l.size.pixels w).1 := Image.foldl_lay_width ..
  have hheight : i.height = (l.size.pixels w).2 := Image.foldl_lay_height ..
  refine ⟨i, ?_, ?_, ?_, ?_, fun q => ⟨?_, ?_, ?_⟩⟩
  · rw [draw_eq]
    simp only [hne, decide_false, Bool.false_and, Bool.false_eq_true, if_false]
    rfl
  · rw [hwidth, hheight]
  · intro x hx y hy
    rw [hwidth] at hx
    rw [hheight] at hy
    rw [Image.pixel_foldl_lay blank _ hx hy, Image.pixel_blank hx hy, foldl_blend_marks]
  · rw [hwidth, hheight]
    exact l.foldl_lay_marks w f.tagged blank rfl rfl
  · rw [hwidth, hheight]
    exact fun c hc => l.lt_of_mem_writes w hc
  · rw [hwidth, hheight]
    exact fun x hx y hy => l.count_writes w q hx hy
  · rintro (hout | hnan)
    · exact l.writes_eq_nil w hout
    · exact l.writes_eq_nil w (Double.contains_eq_false hnan)

/-- A new star over a star of the disk, next to a point that is no number and one outside. -/
theorem draw_gathers_overlap :
    let l : Look Single := ⟨.fixed 3 2, ClassStyle.default⟩
    let at₁ (n : ℤ) : Double := Arith.decimal n 1
    let w : Window Double := ⟨at₁ 0, at₁ 30, at₁ 0, at₁ 20⟩
    let f : Frame Double := ⟨at₁ 0, [⟨at₁ 5, at₁ 15⟩, ⟨at₁ 30, at₁ 0⟩], [⟨.nan, at₁ 0⟩],
      [⟨at₁ 15, at₁ 15⟩, ⟨at₁ 40, at₁ 15⟩], at₁ 0⟩
    1 ≤ (l.size.pixels w).1 ∧ ∃ i, l.draw w f = .ok i ∧ (i.width, i.height) = (3, 2) ∧
      i.pixel 0 0 = ⟨10, 240, 240⟩ ∧ i.pixel 0 1 = .black := by
  intro l at₁ w f
  have hcolumns : 1 ≤ (l.size.pixels w).1 := by decide
  obtain ⟨i, hdraw, hsize, hpixel, -⟩ := draw_gathers f hcolumns
  have hsize' : (i.width, i.height) = (3, 2) := hsize
  obtain ⟨hwidth, hheight⟩ := Prod.mk.inj hsize'
  have hgather₀ : l.gather w f 0 0 = ⟨10, 240, 240⟩ := by decide +kernel
  have hgather₁ : l.gather w f 0 1 = .black := by decide +kernel
  refine ⟨hcolumns, i, hdraw, hsize', ?_, ?_⟩
  · rw [hpixel 0 (by omega) 0 (by omega), hgather₀]
  · rw [hpixel 0 (by omega) 1 (by omega), hgather₁]

end Look

end Starfilm
