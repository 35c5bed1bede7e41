import Starfilm.Proofs.Arith.Products
import Starfilm.Proofs.Raster.Words

/-!
# When drawing stops

A frame has columns, except if it has no height and follows a window of no shape
(`FrameSize.width_eq_zero_iff`). In an image with columns drawing in machine words stops only at a
mark with a square that is more than a word (`Look.exists_guarded_drawWords`), in one without
columns at every mark (`Look.guarded_drawWords_of_width_eq_zero`); and where it does not stop, it
gives the picture of the frame.

**Main statement**: `Look.drawWords_total`.
-/

namespace Starfilm

/-! ## The size of a frame -/

/-- A window that a width can follow. -/
def Window.HasShape (w : Window Double) : Prop :=
  Arith.isFinite w.aspect = true ∧ Arith.lt (Arith.nat 0) w.aspect = true

instance (w : Window Double) : Decidable w.HasShape := inferInstanceAs (Decidable (_ ∧ _))

/-- A size is two counts, or one. -/
def FrameSize.InCounts : FrameSize → Prop
  | .fixed width height => width ≤ maxCount ∧ height ≤ maxCount
  | .fitHeight height => height ≤ maxCount

instance : (size : FrameSize) → Decidable size.InCounts
  | .fixed .. => inferInstanceAs (Decidable (_ ∧ _))
  | .fitHeight .. => inferInstanceAs (Decidable (_ ≤ _))

namespace FrameSize

variable {size : FrameSize} (w : Window Double)

theorem one_le_height (size : FrameSize) : 1 ≤ (size.pixels w).2 := by
  cases size with
  | fixed width height => exact Nat.le_max_right ..
  | fitHeight height => exact Nat.le_max_right ..

theorem pixels_fitHeight_of_hasShape {w : Window Double} (h : w.HasShape) (height : ℕ) :
    ((fitHeight height).pixels w).1 =
      (Arith.toInt .nearest 1 maxCount (Arith.nat height * w.aspect)).toNat := by
  simp only [pixels, h.1, h.2, Bool.and_self, if_true]

theorem pixels_fitHeight_of_not_hasShape {w : Window Double} (h : ¬w.HasShape) (height : ℕ) :
    ((fitHeight height).pixels w).1 = height := by
  rw [Window.HasShape, ← Bool.and_eq_true] at h
  simp only [pixels, if_neg h]

/-- A width that follows a window is a count, and not `0`. -/
theorem width_mem_of_hasShape {w : Window Double} (h : w.HasShape) {height : ℕ}
    (hheight : height ≤ maxCount) :
    1 ≤ ((fitHeight height).pixels w).1 ∧ ((fitHeight height).pixels w).1 ≤ maxCount := by
  have hfinite : Arith.isFinite (Arith.nat height : Double) = true := by
    refine Double.isFinite_ofInt ?_
    simp only [maxCount] at hheight
    omega
  have hcounts : (1 : ℤ) ≤ maxCount := by decide
  obtain ⟨hlo, hhi⟩ := Double.toInt_mem .nearest hcounts (Double.isNumber_mul hfinite h.1)
  rw [pixels_fitHeight_of_hasShape h]
  omega

theorem pixels_le (hsize : size.InCounts) :
    (size.pixels w).1 ≤ maxCount ∧ (size.pixels w).2 ≤ maxCount := by
  have hone : 1 ≤ maxCount := by decide
  cases size with
  | fixed width height => exact ⟨max_le hsize.1 hone, max_le hsize.2 hone⟩
  | fitHeight height =>
    refine ⟨?_, max_le hsize hone⟩
    by_cases h : w.HasShape
    · exact (width_mem_of_hasShape h hsize).2
    · rw [pixels_fitHeight_of_not_hasShape h]
      exact hsize

/-- **A frame has columns**, unless it has no height and follows a window of no shape. -/
theorem width_eq_zero_iff (hsize : size.InCounts) :
    (size.pixels w).1 = 0 ↔ size = .fitHeight 0 ∧ ¬w.HasShape := by
  cases size with
  | fixed width height =>
    refine iff_of_false ?_ fun h => by cases h.1
    change max width 1 ≠ 0
    omega
  | fitHeight height =>
    by_cases h : w.HasShape
    · have hpos := (width_mem_of_hasShape h hsize).1
      exact iff_of_false (by omega) fun hno => hno.2 h
    · rw [pixels_fitHeight_of_not_hasShape h, fitHeight.injEq]
      exact (and_iff_left h).symm

end FrameSize

/-! ## Drawing -/

section Drawing

variable {F G : Type} [Arith F] [Arith G] {m : PixelMap F} {s : ClassStyle G}

theorem PixelMap.snap_lt {n : ℕ} (hn : 1 ≤ n) (x : F) : snap n x < n := by
  rw [snap]
  omega

theorem PixelMap.lt_of_pixel? (hwidth : 1 ≤ m.width) (hheight : 1 ≤ m.height) {p : Point F}
    {c : ℕ × ℕ} (h : m.pixel? p = some c) : c.1 < m.width ∧ c.2 < m.height := by
  rw [pixel?] at h
  split_ifs at h
  obtain rfl := Option.some.inj h
  exact ⟨snap_lt hwidth _, snap_lt hheight _⟩

theorem PixelMap.guarded_layPoint (hwidth : 1 ≤ m.width) (hheight : 1 ≤ m.height)
    (hwidth' : m.width ≤ maxCount) (hheight' : m.height ≤ maxCount) (hradius : s.radius ≤ maxCount)
    (p : Point F) {i : Image} (hi : i.size = (m.width, m.height)) :
    Guarded (∀ c ∈ m.pixel? p, Mark.InWords ⟨c.1, c.2, s⟩ m.width m.height) .overflow
      (m.layPoint s i p) ((m.pixel? p).elim i fun c => i.lay ⟨c.1, c.2, s⟩) := by
  obtain ⟨hwide, hhigh⟩ : i.width = m.width ∧ i.height = m.height := Prod.mk.inj hi
  rw [layPoint, pixelWord_eq_ok hwidth hheight hwidth' hheight']
  cases hp : m.pixel? p with
  | none => exact (Guarded.pure _ i).congr (iff_of_true trivial fun c hc => by cases hc)
  | some c =>
    obtain ⟨hx, hy⟩ := lt_of_pixel? hwidth hheight hp
    rw [← hwide] at hx hwidth'
    rw [← hhigh] at hy hheight'
    have hlay := Image.guarded_layWords (m := ⟨c.1, c.2, s⟩) hwidth' hheight' hradius hx hy
    rw [hwide, hhigh] at hlay
    refine hlay.congr ⟨fun h c' hc' => ?_, fun h => h c rfl⟩
    obtain rfl := Option.some.inj hc'
    exact h

theorem PixelMap.guarded_layPoint_of_width_eq_zero (hwidth : m.width = 0) (i : Image)
    (p : Point F) : Guarded (m.window.contains p = false) .bounds (m.layPoint s i p) i := by
  have hbind := (guarded_pixelWord hwidth p).bind (k := i.layFound s) (Guarded.pure .bounds i)
  exact hbind.congr (and_iff_left trivial)

end Drawing

/-- A look whose numbers of pixels are counts. -/
structure Look.InCounts {G : Type} (l : Look G) : Prop where
  size : l.size.InCounts
  radius_le (c : ParticleClass) : (l.style c).radius ≤ maxCount

namespace Look

variable {G : Type} [Arith G] {l : Look G} (hl : l.InCounts) (w : Window Double)
  (f : Frame Double)

/-- The loop over the classes and their points is one loop over the points with their classes. -/
theorem drawWords_eq :
    l.drawWords w f = Image.allot (l.size.pixels w).1 (l.size.pixels w).2 .black >>= fun i =>
      f.tagged.foldlM (fun i q => (l.pixelMap w).layPoint (l.style q.1) i q.2) i := by
  rw [drawWords]
  simp only [ParticleClass.all, Frame.tagged, List.foldlM_append, List.foldlM_map,
    List.foldlM_cons, List.foldlM_nil, bind_pure, bind_assoc]
  rfl

include hl

/-- In an image with columns that can be addressed, the marks tell whether drawing stops. -/
theorem exists_guarded_drawWords (hcolumns : 1 ≤ (l.size.pixels w).1)
    (hmemory : (3 * (l.size.pixels w).1 * (l.size.pixels w).2 : ℤ) ≤ maxWord) :
    ∃ i, l.draw w f = .ok i ∧ Guarded
      (∀ m ∈ l.marks (l.pixelMap w) f, m.InWords (l.size.pixels w).1 (l.size.pixels w).2) .overflow
      (l.drawWords w f) i := by
  have hrows := FrameSize.one_le_height w l.size
  obtain ⟨hwidth, hheight⟩ := FrameSize.pixels_le w hl.size
  let blank := Image.blank (l.size.pixels w).1 (l.size.pixels w).2 .black
  have hdraw : l.draw w f = .ok ((f.tagged.filterMap (l.mark? w)).foldl Image.lay blank) := by
    rw [draw_eq, if_neg]
    simp only [Bool.and_eq_true, decide_eq_true_eq, not_and]
    omega
  have hpoints := guarded_foldlM (l := f.tagged) (b := blank)
    (I := fun i => i.size = l.size.pixels w) ?_ (fun q _ i hi =>
      PixelMap.guarded_layPoint (m := l.pixelMap w) hcolumns hrows hwidth hheight
        (hl.radius_le q.1) q.2 hi) rfl
  · refine ⟨_, hdraw, ?_⟩
    have hallot : Image.allot (l.size.pixels w).1 (l.size.pixels w).2 .black = .ok blank :=
      if_pos hmemory
    rw [drawWords_eq, hallot, marks_eq]
    have hfold : (f.tagged.filterMap (l.mark? w)).foldl Image.lay blank = f.tagged.foldl (fun i q =>
        ((l.pixelMap w).pixel? q.2).elim i fun c => i.lay ⟨c.1, c.2, l.style q.1⟩) blank := by
      rw [List.foldl_filterMap]
      congr 1
      funext i q
      rw [mark?]
      cases (l.pixelMap w).pixel? q.2 <;> rfl
    rw [hfold]
    refine Guarded.congr hpoints ?_
    simp only [List.mem_filterMap, mark?, Option.map_eq_some_iff]
    constructor
    · rintro h m ⟨q, hq, c, hc, rfl⟩
      exact h q hq c hc
    · intro h q hq c hc
      exact h _ ⟨q, hq, c, hc, rfl⟩
  · intro i q hi
    cases (l.pixelMap w).pixel? q.2 with
    | none => exact hi
    | some c =>
      rw [← hi, Option.elim, Image.size, Image.lay_width, Image.lay_height, Image.size]

omit hl in
/-- In an image without columns no mark can be laid. -/
theorem guarded_drawWords_of_width_eq_zero (hcolumns : (l.size.pixels w).1 = 0) :
    Guarded (l.marks (l.pixelMap w) f = []) .bounds (l.drawWords w f)
      (.blank 0 (l.size.pixels w).2 .black) := by
  have hpoints := guarded_foldlM (l := f.tagged) (I := fun _ => True)
    (b := Image.blank 0 (l.size.pixels w).2 .black) (fun i q _ => trivial) (fun q _ i _ =>
      PixelMap.guarded_layPoint_of_width_eq_zero (m := l.pixelMap w) (s := l.style q.1) hcolumns i
        q.2) trivial
  have hallot : Image.allot 0 (l.size.pixels w).2 .black =
      .ok (.blank 0 (l.size.pixels w).2 .black) := if_pos (by simp; decide)
  rw [drawWords_eq, hcolumns, hallot, marks_eq]
  rw [List.foldl_fixed' (fun _ => rfl)] at hpoints
  refine Guarded.congr hpoints ?_
  rw [List.filterMap_eq_nil_iff]
  refine forall₂_congr fun q _ => ?_
  rw [mark?, Option.map_eq_none_iff, ← Option.not_isSome_iff_eq_none, PixelMap.isSome_pixel?,
    Bool.not_eq_true]

/-- **When drawing stops.** Every frame has a row, and it has columns unless it has no height and
follows a window whose shape is no positive number. In an image with columns the bounds of a pixel
are in their order, and every pixel is in the image, whatever the window is. So drawing in machine
words gives the picture of the frame, except if some square is more than a word, which none is if
the radii have no more than thirty-one bits. Only in an image without columns are the bounds of a
pixel in the wrong order, and drawing stops there as soon as the window contains a point. -/
theorem drawWords_total :
    let width := (l.size.pixels w).1
    let height := (l.size.pixels w).2
    let marks := l.marks (l.pixelMap w) f
    1 ≤ height ∧ (width = 0 ↔ l.size = .fitHeight 0 ∧ ¬w.HasShape) ∧
      (1 ≤ width → ∀ p, ∃ c, (l.pixelMap w).pixelWord p = .ok c ∧
        ∀ q ∈ c, (0 ≤ q.1 ∧ q.1 < width) ∧ 0 ≤ q.2 ∧ q.2 < height) ∧
      (1 ≤ width → (3 * width * height : ℤ) ≤ maxWord → ∃ i, l.draw w f = .ok i ∧
        Guarded (∀ m ∈ marks, m.InWords width height) .overflow (l.drawWords w f) i) ∧
      ((∀ c, (l.style c).radius ≤ 0x7FFFFFFF) → ∀ m ∈ marks, m.InWords width height) ∧
      (width = 0 → Guarded (marks = []) .bounds (l.drawWords w f) (.blank 0 height .black)) := by
  intro width height marks
  have hrows := FrameSize.one_le_height w l.size
  obtain ⟨hwidth, hheight⟩ := FrameSize.pixels_le w hl.size
  refine ⟨hrows, FrameSize.width_eq_zero_iff w hl.size, fun hcolumns p => ?_,
    l.exists_guarded_drawWords hl w f, fun hradius m hm => ?_,
    l.guarded_drawWords_of_width_eq_zero w f⟩
  · refine ⟨_, PixelMap.pixelWord_eq_ok hcolumns hrows hwidth hheight p, fun q hq => ?_⟩
    obtain ⟨c, hc, rfl⟩ := Option.map_eq_some_iff.1 hq
    obtain ⟨hx, hy⟩ := PixelMap.lt_of_pixel? hcolumns hrows hc
    change ((0 : ℤ) ≤ c.1 ∧ (c.1 : ℤ) < width) ∧ (0 : ℤ) ≤ c.2 ∧ (c.2 : ℤ) < height
    exact ⟨⟨by omega, Int.ofNat_lt.2 hx⟩, by omega, Int.ofNat_lt.2 hy⟩
  · rw [show marks = f.tagged.filterMap (l.mark? w) from l.marks_eq w f, List.mem_filterMap] at hm
    obtain ⟨q, -, hm⟩ := hm
    refine Mark.inWords_of_radius_le ?_ width height
    rw [l.style_of_mem_mark? w hm]
    exact hradius q.1

omit hl in
/-- A frame two pixels high that follows a window without height is two pixels wide. -/
theorem drawWords_total_flat :
    let l : Look Single := ⟨.fitHeight 2, ClassStyle.default⟩
    let w : Window Double := ⟨.ofInt 0, .ofInt 1, .ofInt 0, .ofInt 0⟩
    let f : Frame Double := ⟨.nan, [⟨Arith.decimal 5 1, .ofInt 0⟩], [], [], .ofInt 0⟩
    l.InCounts ∧ ¬w.HasShape ∧ l.size.pixels w = (2, 2) ∧
      ∃ i, l.draw w f = .ok i ∧ l.drawWords w f = .ok i := by
  intro l w f
  have hl : l.InCounts := by
    refine ⟨by decide, fun c => ?_⟩
    cases c <;> decide
  have hshape : ¬w.HasShape := by decide +kernel
  have hsize : l.size.pixels w = (2, 2) := by decide +kernel
  obtain ⟨-, -, -, hdraws, hsmall, -⟩ := drawWords_total hl w f
  obtain ⟨i, hdraw, hwords⟩ := hdraws (by rw [hsize]; decide) (by rw [hsize]; decide)
  have hmarks := hsmall fun c => by cases c <;> decide
  exact ⟨hl, hshape, hsize, i, hdraw, hwords.1 hmarks⟩

omit hl in
/-- A frame of no height that follows a window without height has no columns, and a point stops the
drawing; and so does a disc whose radius has no square in a word. -/
theorem drawWords_stops :
    let w : Window Double := ⟨.ofInt 0, .ofInt 1, .ofInt 0, .ofInt 0⟩
    let f : Frame Double := ⟨.ofInt 0, [⟨Arith.decimal 5 1, .ofInt 0⟩], [], [], .ofInt 0⟩
    let flat : Look Single := ⟨.fitHeight 0, ClassStyle.default⟩
    let wide : Look Single := ⟨.fixed 1 1, fun _ => ⟨.black, Arith.nat 1, maxCount⟩⟩
    (flat.InCounts ∧ flat.size.pixels w = (0, 1) ∧ flat.drawWords w f = .error .bounds) ∧
      wide.InCounts ∧ wide.size.pixels w = (1, 1) ∧ wide.drawWords w f = .error .overflow := by
  intro w f flat wide
  have hflat : flat.InCounts := by
    refine ⟨by decide, fun c => ?_⟩
    cases c <;> decide
  have hwide : wide.InCounts := ⟨by decide, fun c => by cases c <;> decide⟩
  have hnone : flat.size.pixels w = (0, 1) := by decide +kernel
  have hone : wide.size.pixels w = (1, 1) := by decide +kernel
  have hflatMarks : (flat.marks (flat.pixelMap w) f).isEmpty = false := by decide +kernel
  have hwideMarks : (wide.marks (wide.pixelMap w) f).isEmpty = false := by decide +kernel
  have hbounds := flat.guarded_drawWords_of_width_eq_zero w f (by rw [hnone])
  obtain ⟨i, -, hoverflow⟩ := wide.exists_guarded_drawWords hwide w f (by rw [hone])
    (by rw [hone]; decide)
  refine ⟨⟨hflat, hnone, hbounds.2 fun h => ?_⟩, hwide, hone, hoverflow.2 fun h => ?_⟩
  · rw [h] at hflatMarks
    cases hflatMarks
  · obtain ⟨m, hm⟩ := List.exists_mem_of_ne_nil _ (List.isEmpty_eq_false_iff.1 hwideMarks)
    have hradius := (h m hm).radius_le
    rw [marks_eq, List.mem_filterMap] at hm
    obtain ⟨q, -, hm⟩ := hm
    rw [wide.style_of_mem_mark? w hm] at hradius
    have hsquare : ¬(maxCount * maxCount : ℤ) ≤ maxWord := by decide
    exact hsquare hradius

end Look

end Starfilm
