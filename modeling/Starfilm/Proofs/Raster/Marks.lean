import Mathlib.Algebra.Order.Ring.Abs
import Mathlib.Data.List.Nodup
import Mathlib.Tactic.Linarith
import Mathlib.Tactic.Ring
import Starfilm.Raster.Draw

/-!
# Marks on an image

Laying a mark paints a list of places one after another (`Image.lay_eq_foldl_paint`). The list holds
each place of the image that the mark covers once and no other (`Mark.mem_places`,
`Mark.nodup_places`), so a pixel sees a mark as one blend or not at all (`Image.pixel_lay`). A whole
list of marks is, at each pixel, the list of those that cover it (`Image.pixel_foldl_lay`): what is
scattered over the image mark by mark can be gathered pixel by pixel.
-/

namespace Starfilm

/-! ## The places of a mark -/

theorem cast_sqDist (a b : ℕ) : (sqDist a b : ℤ) = ((a : ℤ) - b) ^ 2 := by
  rcases le_total a b with h | h
  · rw [sqDist, Nat.sub_eq_zero_of_le h, zero_mul, zero_add]
    push_cast [Nat.cast_sub h]
    ring
  · rw [sqDist, Nat.sub_eq_zero_of_le h, zero_mul, add_zero]
    push_cast [Nat.cast_sub h]
    ring

theorem mem_near {a r n k : ℕ} : k ∈ near a r n ↔ k < n ∧ a ≤ k + r ∧ k ≤ a + r := by
  rw [near, List.mem_range'_1]
  omega

theorem nodup_near (a r n : ℕ) : (near a r n).Nodup := List.nodup_range'

namespace Mark

variable {G : Type} (m : Mark G)

theorem covers_iff (x y : ℕ) : m.covers x y = true ↔
    ((x : ℤ) - m.x) ^ 2 + ((y : ℤ) - m.y) ^ 2 ≤ (m.style.radius : ℤ) ^ 2 := by
  rw [covers, decide_eq_true_iff, ← cast_sqDist, ← cast_sqDist, pow_two]
  norm_cast

/-- A covered pixel lies in the square around the centre. -/
theorem near_of_covers {x y : ℕ} (h : m.covers x y = true) :
    (m.x ≤ x + m.style.radius ∧ x ≤ m.x + m.style.radius) ∧
      (m.y ≤ y + m.style.radius ∧ y ≤ m.y + m.style.radius) := by
  rw [covers_iff] at h
  have hx : |(x : ℤ) - m.x| ≤ m.style.radius :=
    abs_le_of_sq_le_sq (by linarith [sq_nonneg ((y : ℤ) - m.y)]) (Int.natCast_nonneg _)
  have hy : |(y : ℤ) - m.y| ≤ m.style.radius :=
    abs_le_of_sq_le_sq (by linarith [sq_nonneg ((x : ℤ) - m.x)]) (Int.natCast_nonneg _)
  rw [abs_le] at hx hy
  omega

/-- The places that a mark paints on an image of some size, in the order in which it does: row by
row, and in a row from the left. -/
def places (width height : ℕ) : List (ℕ × ℕ) :=
  (near m.y m.style.radius height).flatMap fun y =>
    ((near m.x m.style.radius width).filter fun x => m.covers x y).map fun x => (x, y)

theorem mem_places {width height x y : ℕ} : (x, y) ∈ m.places width height ↔
    x < width ∧ y < height ∧ m.covers x y = true := by
  simp only [places, List.mem_flatMap, List.mem_map, List.mem_filter, mem_near, Prod.mk.injEq]
  constructor
  · rintro ⟨y, ⟨hy, -⟩, x, ⟨⟨hx, -⟩, hcover⟩, rfl, rfl⟩
    exact ⟨hx, hy, hcover⟩
  · rintro ⟨hx, hy, hcover⟩
    obtain ⟨hnearx, hneary⟩ := m.near_of_covers hcover
    exact ⟨y, ⟨hy, hneary⟩, x, ⟨⟨hx, hnearx⟩, hcover⟩, rfl, rfl⟩

/-- **No place is painted twice.** -/
theorem nodup_places (width height : ℕ) : (m.places width height).Nodup := by
  rw [places, List.nodup_flatMap]
  refine ⟨fun y _ => ?_, (nodup_near ..).imp fun {y y'} hne => ?_⟩
  · exact ((nodup_near ..).filter _).map fun x x' h => (Prod.mk.inj h).1
  · intro p hp hp'
    obtain ⟨x, -, rfl⟩ := List.mem_map.1 hp
    obtain ⟨x', -, h⟩ := List.mem_map.1 hp'
    exact hne (Prod.mk.inj h).2.symm

end Mark

/-! ## Painting and laying -/

namespace Image

/-- What each step keeps of an image is kept by all steps together. -/
theorem foldl_keeps {A B : Type} {measure : Image → B} {step : Image → A → Image}
    (h : ∀ i a, measure (step i a) = measure i) (as : List A) (i : Image) :
    measure (as.foldl step i) = measure i := by
  induction as generalizing i with
  | nil => rfl
  | cons a as ih => rw [List.foldl_cons, ih, h]

theorem foldl_paint_width (qs : List (ℕ × ℕ)) (f : Rgb → Rgb) (i : Image) :
    (qs.foldl (fun i q => i.paint q.1 q.2 f) i).width = i.width :=
  foldl_keeps (fun i q => paint_width i q.1 q.2 f) qs i

theorem foldl_paint_height (qs : List (ℕ × ℕ)) (f : Rgb → Rgb) (i : Image) :
    (qs.foldl (fun i q => i.paint q.1 q.2 f) i).height = i.height :=
  foldl_keeps (fun i q => paint_height i q.1 q.2 f) qs i

/-- Painting places that are in the image and differ changes each of them once. -/
theorem pixel_foldl_paint {qs : List (ℕ × ℕ)} (hqs : qs.Nodup) (f : Rgb → Rgb) (i : Image)
    (hin : ∀ q ∈ qs, q.1 < i.width ∧ q.2 < i.height) (x y : ℕ) :
    (qs.foldl (fun i q => i.paint q.1 q.2 f) i).pixel x y =
      if (x, y) ∈ qs then f (i.pixel x y) else i.pixel x y := by
  induction qs generalizing i with
  | nil => rfl
  | cons q qs ih =>
    obtain ⟨hq, hqs⟩ := List.nodup_cons.1 hqs
    have hqin := hin q (by simp)
    have htail : ∀ p ∈ qs, p.1 < (i.paint q.1 q.2 f).width ∧ p.2 < (i.paint q.1 q.2 f).height := by
      intro p hp
      rw [paint_width, paint_height]
      exact hin p (by simp [hp])
    rw [List.foldl_cons, ih hqs _ htail, pixel_paint]
    by_cases hhead : (x, y) = q
    · subst hhead
      simp [hq, hqin]
    · have hne : ¬(x = q.1 ∧ y = q.2) := fun h => hhead (Prod.ext h.1 h.2)
      simp only [List.mem_cons, hhead, false_or, ← and_assoc, hne, false_and, if_false]

variable {G : Type} [Arith G]

/-- **Laying a mark is painting its places**, one after another. -/
theorem lay_eq_foldl_paint (i : Image) (m : Mark G) :
    i.lay m = (m.places i.width i.height).foldl (fun i q => i.paint q.1 q.2 m.style.blend) i := by
  rw [lay, Mark.places]
  generalize near m.y m.style.radius i.height = ys
  -- the width looked at in each row is that of the image painted so far
  suffices ∀ (w : ℕ) (j : Image), j.width = w →
      ys.foldl (fun i y => (near m.x m.style.radius i.width).foldl
        (fun i x => if m.covers x y then i.paint x y m.style.blend else i) i) j =
      (ys.flatMap fun y => ((near m.x m.style.radius w).filter fun x => m.covers x y).map
        fun x => (x, y)).foldl (fun i q => i.paint q.1 q.2 m.style.blend) j from this _ i rfl
  intro w j hj
  induction ys generalizing j with
  | nil => rfl
  | cons y ys ih =>
    have hrow : (near m.x m.style.radius j.width).foldl
        (fun i x => if m.covers x y then i.paint x y m.style.blend else i) j =
        (((near m.x m.style.radius w).filter fun x => m.covers x y).map fun x => (x, y)).foldl
          (fun i q => i.paint q.1 q.2 m.style.blend) j := by
      rw [hj, List.foldl_map, List.foldl_filter]
    rw [List.foldl_cons, List.flatMap_cons, List.foldl_append, ← hrow]
    refine ih _ ?_
    rw [hrow, foldl_paint_width, hj]

variable (i : Image) (m : Mark G)

@[simp] theorem lay_width : (i.lay m).width = i.width := by
  rw [lay_eq_foldl_paint, foldl_paint_width]

@[simp] theorem lay_height : (i.lay m).height = i.height := by
  rw [lay_eq_foldl_paint, foldl_paint_height]

/-- A pixel sees a mark as one blend if the mark covers it, and not at all otherwise. -/
theorem pixel_lay {x y : ℕ} (hx : x < i.width) (hy : y < i.height) :
    (i.lay m).pixel x y =
      if m.covers x y then m.style.blend (i.pixel x y) else i.pixel x y := by
  have hin : ∀ q ∈ m.places i.width i.height, q.1 < i.width ∧ q.2 < i.height := by
    rintro ⟨x', y'⟩ hq
    obtain ⟨hx', hy', -⟩ := m.mem_places.1 hq
    exact ⟨hx', hy'⟩
  rw [lay_eq_foldl_paint, pixel_foldl_paint (m.nodup_places _ _) _ _ hin]
  simp only [m.mem_places, hx, hy, true_and]

@[simp] theorem foldl_lay_width (ms : List (Mark G)) : (ms.foldl lay i).width = i.width :=
  foldl_keeps lay_width ms i

@[simp] theorem foldl_lay_height (ms : List (Mark G)) : (ms.foldl lay i).height = i.height :=
  foldl_keeps lay_height ms i

/-- **Scattering is gathering**: after all marks each pixel shows the blends of the marks that cover
it, in the order in which these were laid. -/
theorem pixel_foldl_lay (ms : List (Mark G)) {x y : ℕ} (hx : x < i.width) (hy : y < i.height) :
    (ms.foldl lay i).pixel x y =
      (ms.filter fun m => m.covers x y).foldl (fun c m => m.style.blend c) (i.pixel x y) := by
  induction ms generalizing i with
  | nil => rfl
  | cons m ms ih =>
    rw [List.foldl_cons, ih _ (by rwa [lay_width]) (by rwa [lay_height]), pixel_lay i m hx hy]
    cases hcover : m.covers x y with
    | false => rw [List.filter_cons_of_neg (by simp [hcover])]; rfl
    | true => rw [List.filter_cons_of_pos (by simp [hcover]), List.foldl_cons]; rfl

omit [Arith G] in
theorem pixel_blank {width height x y : ℕ} (hx : x < width) (hy : y < height) (c : Rgb) :
    (blank width height c).pixel x y = c := by
  have hlt := (blank width height c).index_lt hx hy
  rw [pixel, if_pos ⟨hx, hy⟩, Array.getD_eq_getD_getElem?, Array.getElem?_eq_getElem hlt,
    Option.getD_some]
  exact Array.getElem_replicate ..

end Image

end Starfilm
