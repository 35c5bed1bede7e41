import Starfilm.Proofs.Raster.Gather

/-!
# The order in which points are stored

Blends round, so laying marks in another order may give another picture. But marks of one style all
do the same to a pixel, and what counts is how many of them cover it
(`Image.pixel_foldl_lay_style`). So marks may change places as long as they do so within blocks of
one style (`Mark.Shuffle`), and the points of a class, or of classes with one style that are drawn
one after the other, may be stored in any order.

**Main statement**: `Look.draw_shuffled`.
-/

namespace Starfilm

variable {F G : Type}

/-! ## Images and their pixels -/

/-- Images of one size that show the same pixels are the same. -/
theorem Image.ext_pixel {i j : Image} (hwidth : i.width = j.width) (hheight : i.height = j.height)
    (h : ∀ x < i.width, ∀ y < i.height, i.pixel x y = j.pixel x y) : i = j := by
  obtain ⟨width, height, pixels, hi⟩ := i
  obtain ⟨_, _, pixels', hj⟩ := j
  obtain rfl : width = _ := hwidth
  obtain rfl : height = _ := hheight
  suffices pixels = pixels' by subst this; rfl
  refine Array.ext (hi.trans hj.symm) fun k hk hk' => ?_
  have hlt : k < width * height := hi ▸ hk
  have hpos : 0 < width := Nat.pos_of_mul_pos_right (Nat.zero_lt_of_lt hlt)
  have hx : k % width < width := Nat.mod_lt _ hpos
  have hy : k / width < height := Nat.div_lt_of_lt_mul hlt
  have hk₀ : k / width * width + k % width = k := Nat.div_add_mod' k width
  have hpixel := h _ hx _ hy
  simp only [pixel, hx, hy, and_self, if_true, hk₀] at hpixel
  rwa [Array.getD_eq_getD_getElem?, Array.getD_eq_getD_getElem?, Array.getElem?_eq_getElem hk,
    Array.getElem?_eq_getElem hk'] at hpixel

namespace Image

variable [Arith G]

/-- **Marks of one style blend a pixel as often as they cover it**, whatever their order. -/
theorem pixel_foldl_lay_style {ms : List (Mark G)} {s : ClassStyle G} (hs : ∀ m ∈ ms, m.style = s)
    (i : Image) {x y : ℕ} (hx : x < i.width) (hy : y < i.height) :
    (ms.foldl lay i).pixel x y = s.blend^[ms.countP fun m => m.covers x y] (i.pixel x y) := by
  rw [pixel_foldl_lay i ms hx hy, List.countP_eq_length_filter, ← List.foldl_const]
  refine List.foldl_ext _ _ _ fun c m hm => ?_
  rw [hs m (List.mem_of_mem_filter hm)]

theorem foldl_lay_eq_of_perm {ms ms' : List (Mark G)} {s : ClassStyle G} (h : ms.Perm ms')
    (hs : ∀ m ∈ ms, m.style = s) (i : Image) : ms.foldl lay i = ms'.foldl lay i := by
  have hs' : ∀ m ∈ ms', m.style = s := fun m hm => hs m (h.mem_iff.2 hm)
  refine ext_pixel (by simp) (by simp) fun x hx y hy => ?_
  rw [foldl_lay_width] at hx
  rw [foldl_lay_height] at hy
  rw [pixel_foldl_lay_style hs i hx hy, pixel_foldl_lay_style hs' i hx hy, h.countP_eq]

end Image

/-! ## Shuffles -/

/-- Marks in another order, with only marks of one block changing places, and all marks of a block
having one style. -/
inductive Mark.Shuffle : List (Mark G) → List (Mark G) → Prop
  | block {ms ms' : List (Mark G)} (s : ClassStyle G) (h : ms.Perm ms')
      (hs : ∀ m ∈ ms, m.style = s) : Shuffle ms ms'
  | append {ms ms' ns ns' : List (Mark G)} (hm : Shuffle ms ms') (hn : Shuffle ns ns') :
      Shuffle (ms ++ ns) (ms' ++ ns')

namespace Mark.Shuffle

theorem perm {ms ms' : List (Mark G)} (h : Shuffle ms ms') : ms.Perm ms' := by
  induction h with
  | block s h hs => exact h
  | append _ _ ihm ihn => exact ihm.append ihn

theorem foldl_lay [Arith G] {ms ms' : List (Mark G)} (h : Shuffle ms ms') (i : Image) :
    ms.foldl Image.lay i = ms'.foldl Image.lay i := by
  induction h generalizing i with
  | block s h hs => exact Image.foldl_lay_eq_of_perm h hs i
  | append _ _ ihm ihn => rw [List.foldl_append, List.foldl_append, ihm, ihn]

end Mark.Shuffle

/-! ## Points of a class -/

namespace Look

variable [Arith F] (l : Look G) (w : Window F)

/-- The marks of points of one class. -/
def classMarks (c : ParticleClass) (ps : List (Point F)) : List (Mark G) :=
  ps.filterMap fun p => l.mark? w (c, p)

theorem filterMap_tagged (f : Frame F) : f.tagged.filterMap (l.mark? w) =
    l.classMarks w .disk f.disk ++ l.classMarks w .bulge f.bulge ++
      l.classMarks w .newStars f.newStars := by
  simp only [Frame.tagged, classMarks, List.filterMap_append, List.filterMap_map,
    Function.comp_def]

theorem shuffle_classMarks (c : ParticleClass) {ps ps' : List (Point F)} (h : ps.Perm ps') :
    Mark.Shuffle (l.classMarks w c ps) (l.classMarks w c ps') := by
  refine .block (l.style c) (h.filterMap _) fun m hm => ?_
  obtain ⟨p, -, hp⟩ := List.mem_filterMap.1 hm
  exact l.style_of_mem_mark? w hp

variable {l} in
/-- Classes of one style leave the same marks, and so those of both are marks of either. -/
theorem classMarks_append {c c' : ParticleClass} (h : l.style c = l.style c')
    (ps ps' : List (Point F)) :
    l.classMarks w c ps ++ l.classMarks w c' ps' = l.classMarks w c (ps ++ ps') := by
  simp only [classMarks, mark?, h, List.filterMap_append]

variable [Arith G]

theorem draw_eq_of_shuffle {f f' : Frame F}
    (h : Mark.Shuffle (f.tagged.filterMap (l.mark? w)) (f'.tagged.filterMap (l.mark? w))) :
    l.draw w f = l.draw w f' := by
  rw [draw_eq, draw_eq, h.perm.isEmpty_eq, h.foldl_lay]

/-- **The picture does not depend on the order in which points are stored**: those of each class may
be permuted; and if disk and bulge have one style, as by default, their points may be exchanged in
any way. A frame that cannot be drawn stays one. -/
theorem draw_shuffled (f f' : Frame F) :
    ((∀ c, (f.points c).Perm (f'.points c)) → l.draw w f = l.draw w f') ∧
      (l.style .disk = l.style .bulge →
        ((f.disk ++ f.bulge).Perm (f'.disk ++ f'.bulge) → f.newStars.Perm f'.newStars →
            l.draw w f = l.draw w f') ∧
          l.draw w f = l.draw w { f with disk := f.bulge, bulge := f.disk }) ∧
      (ClassStyle.default .disk : ClassStyle G) = ClassStyle.default .bulge := by
  have hold : l.style .disk = l.style .bulge → ∀ f' : Frame F,
      (f.disk ++ f.bulge).Perm (f'.disk ++ f'.bulge) → f.newStars.Perm f'.newStars →
      l.draw w f = l.draw w f' := by
    intro hstyle f' hperm hnew
    refine l.draw_eq_of_shuffle w ?_
    rw [filterMap_tagged, filterMap_tagged, classMarks_append w hstyle, classMarks_append w hstyle]
    exact (l.shuffle_classMarks w .disk hperm).append (l.shuffle_classMarks w .newStars hnew)
  refine ⟨fun h => l.draw_eq_of_shuffle w ?_, fun hstyle => ⟨hold hstyle f', ?_⟩, rfl⟩
  · rw [filterMap_tagged, filterMap_tagged]
    exact ((l.shuffle_classMarks w .disk (h .disk)).append
      (l.shuffle_classMarks w .bulge (h .bulge))).append
      (l.shuffle_classMarks w .newStars (h .newStars))
  · exact hold hstyle _ List.perm_append_comm (.refl _)

/-- Two stars of the disk over one pixel change places, and one of them is exchanged with a star of
the bulge. -/
theorem draw_shuffled_overlap :
    let l : Look Single := ⟨.fixed 2 2, ClassStyle.default⟩
    let at₁ (n : ℤ) : Double := Arith.decimal n 1
    let w : Window Double := ⟨at₁ 0, at₁ 20, at₁ 0, at₁ 20⟩
    let f : Frame Double := ⟨at₁ 0, [⟨at₁ 5, at₁ 5⟩, ⟨at₁ 6, at₁ 5⟩], [⟨at₁ 15, at₁ 5⟩], [], at₁ 0⟩
    let f' : Frame Double := { f with disk := f.disk.reverse }
    let f'' : Frame Double :=
      { f with disk := [⟨at₁ 15, at₁ 5⟩, ⟨at₁ 5, at₁ 5⟩], bulge := [⟨at₁ 6, at₁ 5⟩] }
    ((∀ c, (f.points c).Perm (f'.points c)) ∧ l.draw w f = l.draw w f') ∧
      (l.style .disk = l.style .bulge ∧ (f.disk ++ f.bulge).Perm (f''.disk ++ f''.bulge)) ∧
      l.draw w f = l.draw w f'' := by
  intro l at₁ w f f' f''
  have hclasses : ∀ c, (f.points c).Perm (f'.points c) := by
    intro c
    cases c with
    | disk => exact (List.reverse_perm f.disk).symm
    | bulge => exact .refl f.bulge
    | newStars => exact .refl []
  have hstyle : l.style .disk = l.style .bulge := rfl
  have hold : (f.disk ++ f.bulge).Perm (f''.disk ++ f''.bulge) := by decide +kernel
  exact ⟨⟨hclasses, (l.draw_shuffled w f f').1 hclasses⟩, ⟨hstyle, hold⟩,
    ((l.draw_shuffled w f f'').2.1 hstyle).1 hold (.refl _)⟩

end Look

end Starfilm
