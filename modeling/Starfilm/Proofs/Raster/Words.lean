import Mathlib.Data.Int.Range
import Mathlib.Data.List.Sort
import Starfilm.Proofs.Raster.Gather

/-!
# Drawing in machine words

Drawing is integer arithmetic in words of sixty-four bits, between bounds that must not be in the
wrong order, on places that must be in the image. `Look.drawWords` makes all these checks, and goes
through the whole square around a mark, skipping what is not in the image.

A check that does not depend on the image gathers over a loop (`guarded_foldlM`). So laying a mark
comes to one condition on its squares, `Mark.InWords`, and under it gives what `Image.lay` gives
(`Image.guarded_layWords`); and a pixel has its bounds in the right order as soon as there are
pixels (`PixelMap.pixelWord_eq_ok`).
-/

namespace Starfilm

/-- Why drawing in machine words stops. -/
inductive Stop where
  /-- The pixels are more bytes than can be addressed. -/
  | memory
  /-- A value is more than a word. -/
  | overflow
  /-- An upper bound is below the lower one. -/
  | bounds
  /-- A place is not in the image. -/
  | outside
  deriving DecidableEq

/-- What `x` computes is `a` if `P` holds; otherwise `x` stops as `e`. -/
def Guarded {A : Type} (P : Prop) (e : Stop) (x : Except Stop A) (a : A) : Prop :=
  (P → x = .ok a) ∧ (¬P → x = .error e)

namespace Guarded

variable {A B : Type} {P Q : Prop} {e : Stop} {x : Except Stop A} {a : A}

theorem pure (e : Stop) (a : A) : Guarded True e (.ok a) a :=
  ⟨fun _ => rfl, fun h => absurd trivial h⟩

theorem congr (h : Guarded P e x a) (hiff : P ↔ Q) : Guarded Q e x a :=
  ⟨fun hq => h.1 (hiff.2 hq), fun hq => h.2 (mt hiff.1 hq)⟩

theorem bind (h : Guarded P e x a) {k : A → Except Stop B} {b : B} (hk : Guarded Q e (k a) b) :
    Guarded (P ∧ Q) e (x >>= k) b := by
  by_cases hP : P
  · rw [h.1 hP]
    exact hk.congr (and_iff_right hP).symm
  · rw [h.2 hP]
    exact ⟨fun hPQ => absurd hPQ.1 hP, fun _ => rfl⟩

end Guarded

/-- **Steps one after another**, each with a condition of its own that does not depend on what came
before, are guarded by all these conditions. -/
theorem guarded_foldlM {A B : Type} {l : List A} {P : A → Prop} {e : Stop}
    {step : B → A → Except Stop B} {g : B → A → B} {I : B → Prop}
    (hkeep : ∀ b a, I b → I (g b a))
    (hstep : ∀ a ∈ l, ∀ b, I b → Guarded (P a) e (step b a) (g b a))
    {b : B} (hb : I b) :
    Guarded (∀ a ∈ l, P a) e (l.foldlM step b) (l.foldl g b) := by
  induction l generalizing b with
  | nil => exact ⟨fun _ => rfl, fun h => absurd (fun a ha => by cases ha) h⟩
  | cons a l ih =>
    obtain ⟨hok, herror⟩ := hstep a List.mem_cons_self b hb
    obtain ⟨hoks, herrors⟩ :=
      ih (fun a' ha' => hstep a' (List.mem_cons_of_mem a ha')) (hkeep b a hb)
    rw [List.foldlM_cons, List.foldl_cons]
    by_cases ha : P a
    · rw [hok ha]
      refine ⟨fun h => hoks fun a' ha' => h a' (List.mem_cons_of_mem a ha'), fun h => herrors ?_⟩
      exact fun hl => h (List.forall_mem_cons.2 ⟨ha, hl⟩)
    · rw [herror ha]
      exact ⟨fun h => absurd (h a List.mem_cons_self) ha, fun _ => rfl⟩

/-! ## The programs -/

/-- A value that has to be a word. -/
def word (i : ℤ) : Except Stop ℤ := if minWord ≤ i ∧ i ≤ maxWord then .ok i else .error .overflow

theorem guarded_word {i : ℤ} (h : minWord ≤ i) : Guarded (i ≤ maxWord) .overflow (word i) i :=
  ⟨fun hi => if_pos ⟨h, hi⟩, fun hi => if_neg fun hword => hi hword.2⟩

theorem word_eq_ok {i : ℤ} (h : minWord ≤ i ∧ i ≤ maxWord) : word i = .ok i := if_pos h

/-- `i` brought between two bounds, which have to be in their order. -/
def clampWord (lo hi i : ℤ) : Except Stop ℤ :=
  if lo ≤ hi then .ok (max lo (min hi i)) else .error .bounds

/-- The image that shows one colour, with three bytes for each pixel. -/
def Image.allot (width height : ℕ) (c : Rgb) : Except Stop Image :=
  if (3 * width * height : ℤ) ≤ maxWord then .ok (blank width height c) else .error .memory

section Programs

variable {F G : Type} [Arith F] [Arith G]

/-- The pixel of a point. -/
def PixelMap.pixelWord (m : PixelMap F) (p : Point F) : Except Stop (Option (ℤ × ℤ)) :=
  if m.window.contains p then do
    let x ← clampWord 0 (← word (m.width - 1)) (Arith.toInt .down minWord maxWord (m.column p))
    let y ← clampWord 0 (← word (m.height - 1)) (Arith.toInt .down minWord maxWord (m.row p))
    return some (x, y)
  else return none

namespace Image

/-- A place of the square around the centre of a mark: in an image of some size it is painted if the
mark covers it, and otherwise skipped. -/
def layPlace (width height : ℕ) (s : ClassStyle G) (x y py : ℤ) (i : Image) (px : ℤ) :
    Except Stop Image :=
  if px < 0 ∨ py < 0 ∨ width ≤ px ∨ height ≤ py then return i
  else do
    let dx ← word (px - x)
    let dy ← word (py - y)
    let distance ← word ((← word (dx * dx)) + (← word (dy * dy)))
    let reach ← word (s.radius * s.radius : ℤ)
    if reach < distance then return i
    else if px.toNat < i.width ∧ py.toNat < i.height then
      return i.paint px.toNat py.toNat s.blend
    else .error .outside

/-- The image with a mark laid over it. -/
def layWords (i : Image) (x y : ℤ) (s : ClassStyle G) : Except Stop Image := do
  let top ← word (y - s.radius)
  let bottom ← word (y + s.radius)
  let (width, height) := (i.width, i.height)
  (Int.range top (bottom + 1)).foldlM (fun i py => do
    let left ← word (x - s.radius)
    let right ← word (x + s.radius)
    (Int.range left (right + 1)).foldlM (layPlace width height s x y py) i) i

end Image

/-- The image with a mark laid over it at a pixel, if there is one. -/
def Image.layFound (s : ClassStyle G) (i : Image) : Option (ℤ × ℤ) → Except Stop Image
  | some (x, y) => i.layWords x y s
  | none => return i

/-- The image with the mark of a point laid over it. -/
def PixelMap.layPoint (m : PixelMap F) (s : ClassStyle G) (i : Image) (p : Point F) :
    Except Stop Image :=
  m.pixelWord p >>= i.layFound s

/-- The picture of a frame in a window. -/
def Look.drawWords (l : Look G) (w : Window F) (f : Frame F) : Except Stop Image := do
  let (width, height) := l.size.pixels w
  let i ← Image.allot width height .black
  let m := PixelMap.ofWindow w width height
  ParticleClass.all.foldlM (fun i c => (f.points c).foldlM (m.layPoint (l.style c)) i) i

end Programs

/-! ## The pixel of a point -/

section Pixel

variable {F : Type} [Arith F] {m : PixelMap F}

theorem clampWord_snap {n : ℕ} (hn : 1 ≤ n) (x : F) :
    clampWord 0 (n - 1) (Arith.toInt .down minWord maxWord x) = .ok (PixelMap.snap n x : ℤ) := by
  rw [clampWord, if_pos (by omega), PixelMap.snap]
  congr 1
  omega

theorem word_pred {n : ℕ} (hn : n ≤ maxCount) : word (n - 1) = .ok ((n : ℤ) - 1) :=
  word_eq_ok (by simp only [minWord, maxWord, maxCount] at *; omega)

/-- In an image with pixels the bounds are in their order. -/
theorem PixelMap.pixelWord_eq_ok (hwidth : 1 ≤ m.width) (hheight : 1 ≤ m.height)
    (hwidth' : m.width ≤ maxCount) (hheight' : m.height ≤ maxCount) (p : Point F) :
    m.pixelWord p = .ok ((m.pixel? p).map fun c => ((c.1 : ℤ), (c.2 : ℤ))) := by
  rw [pixelWord, pixel?, word_pred hwidth', word_pred hheight']
  split_ifs with h
  · change (clampWord 0 (m.width - 1) _ >>= fun x =>
      clampWord 0 (m.height - 1) _ >>= fun y => _) = _
    rw [clampWord_snap hwidth, clampWord_snap hheight]
    rfl
  · rfl

/-- In an image without columns no point of the window has a pixel. -/
theorem PixelMap.guarded_pixelWord (hwidth : m.width = 0) (p : Point F) :
    Guarded (m.window.contains p = false) .bounds (m.pixelWord p) none := by
  rw [pixelWord]
  split_ifs with h
  · refine ⟨fun hout => absurd h (by simp [hout]), fun _ => ?_⟩
    rw [hwidth]
    rfl
  · exact ⟨fun _ => rfl, fun hin => absurd (Bool.not_eq_false _ ▸ hin) h⟩

end Pixel

/-! ## A mark -/

/-- The squares that tell which pixels a mark covers are words: that of its radius, and those of the
distances to the pixels of the image that lie in the square around it. -/
structure Mark.InWords {G : Type} (m : Mark G) (width height : ℕ) : Prop where
  radius_le : (m.style.radius : ℤ) * m.style.radius ≤ maxWord
  distance_le : ∀ x ∈ near m.x m.style.radius width, ∀ y ∈ near m.y m.style.radius height,
    ((x : ℤ) - m.x) * (x - m.x) + ((y : ℤ) - m.y) * (y - m.y) ≤ maxWord

/-- The integers around an index that are indices. -/
theorem filter_range_eq (a r n : ℕ) :
    ((Int.range (a - r) (a + r + 1)).filter fun k : ℤ => 0 ≤ k ∧ k < n) =
      (near a r n).map fun k : ℕ => (k : ℤ) := by
  have hrange : (Int.range (a - r) (a + r + 1)).Pairwise (· < ·) := by
    rw [Int.range, List.pairwise_map]
    exact List.pairwise_lt_range.imp fun h => by omega
  have hnear : ((near a r n).map fun k : ℕ => (k : ℤ)).Pairwise (· < ·) := by
    rw [near, List.pairwise_map]
    exact (List.pairwise_lt_range' (s := a - r)).imp fun h => by omega
  refine (hrange.filter _).eq_of_mem_iff hnear fun k => ?_
  rw [List.mem_filter, Int.mem_range_iff, decide_eq_true_iff, List.mem_map]
  simp only [mem_near]
  constructor
  · intro h
    exact ⟨k.toNat, by omega, by omega⟩
  · rintro ⟨k, h, rfl⟩
    omega

/-- A loop over the square around an index that skips what is no index. -/
theorem foldl_range_eq {B : Type} (a r n : ℕ) (f : B → ℕ → B) (b : B) :
    (Int.range (a - r) (a + r + 1)).foldl
      (fun b (k : ℤ) => if 0 ≤ k ∧ k < n then f b k.toNat else b) b = (near a r n).foldl f b := by
  have hfilter : (Int.range (a - r) (a + r + 1)).foldl
      (fun b (k : ℤ) => if 0 ≤ k ∧ k < n then f b k.toNat else b) b =
      ((Int.range (a - r) (a + r + 1)).filter fun k : ℤ => 0 ≤ k ∧ k < n).foldl
        (fun b k => f b k.toNat) b := by
    simp only [List.foldl_filter, decide_eq_true_eq]
  rw [hfilter, filter_range_eq, List.foldl_map]
  rfl

/-- A radius of thirty-one bits is small enough for every image. -/
theorem Mark.inWords_of_radius_le {G : Type} {m : Mark G} (h : m.style.radius ≤ 0x7FFFFFFF)
    (width height : ℕ) : m.InWords width height := by
  have hsquare {d : ℤ} (hd : |d| ≤ m.style.radius) : d * d ≤ 0x7FFFFFFF * 0x7FFFFFFF := by
    rw [← abs_mul_abs_self]
    have hle : |d| ≤ 0x7FFFFFFF := by omega
    exact mul_le_mul hle hle (abs_nonneg d) (by decide)
  refine ⟨?_, fun x hx y hy => ?_⟩
  · have hradius := hsquare (d := m.style.radius) (by rw [Nat.abs_cast])
    simp only [maxWord]
    omega
  · rw [mem_near] at hx hy
    have hdx := hsquare (d := (x : ℤ) - m.x) (abs_le.2 (by omega))
    have hdy := hsquare (d := (y : ℤ) - m.y) (abs_le.2 (by omega))
    simp only [maxWord]
    omega

section Laying

variable {G : Type} [Arith G] {m : Mark G} {width height : ℕ}

namespace Image

/-- Width and height. -/
def size (i : Image) : ℕ × ℕ := (i.width, i.height)

/-- The image with one of its places painted if a mark covers it. -/
def layAt (m : Mark G) (y : ℕ) (i : Image) (x : ℕ) : Image :=
  if m.covers x y then i.paint x y m.style.blend else i

/-- The image with one row of a mark laid over it. -/
def layRow (m : Mark G) (i : Image) (y : ℕ) : Image :=
  (near m.x m.style.radius i.width).foldl (layAt m y) i

theorem lay_eq_foldl_layRow (i : Image) (m : Mark G) :
    i.lay m = (near m.y m.style.radius i.height).foldl (layRow m) i := rfl

theorem size_layAt (y : ℕ) (i : Image) (x : ℕ) : (layAt m y i x).size = i.size := by
  rw [layAt]
  split_ifs
  · rw [size, paint_width, paint_height, size]
  · rfl

theorem size_layRow (i : Image) (y : ℕ) : (layRow m i y).size = i.size :=
  foldl_keeps (size_layAt y) _ i

end Image

/-- The squares that are looked at for one place of the image are words. -/
def Mark.PlaceInWords (m : Mark G) (width height : ℕ) (px py : ℤ) : Prop :=
  0 ≤ px → px < width → 0 ≤ py → py < height →
    (px - m.x) * (px - m.x) + (py - m.y) * (py - m.y) ≤ maxWord ∧
      (m.style.radius : ℤ) * m.style.radius ≤ maxWord

omit [Arith G] in
/-- The condition of a mark is that of the places of its square, one of which is its centre. -/
theorem Mark.inWords_iff (hx : m.x < width) (hy : m.y < height) :
    (∀ py ∈ Int.range (m.y - m.style.radius) (m.y + m.style.radius + 1),
      ∀ px ∈ Int.range (m.x - m.style.radius) (m.x + m.style.radius + 1),
        m.PlaceInWords width height px py) ↔ m.InWords width height := by
  simp only [Int.mem_range_iff]
  constructor
  · intro h
    refine ⟨?_, fun x hnearx y hneary => ?_⟩
    · obtain ⟨-, hradius⟩ :=
        h m.y (by omega) m.x (by omega) (by omega) (by omega) (by omega) (by omega)
      exact hradius
    · rw [mem_near] at hnearx hneary
      obtain ⟨hdistance, -⟩ :=
        h y (by omega) x (by omega) (by omega) (by omega) (by omega) (by omega)
      exact hdistance
  · intro h py hpy px hpx hpx₀ hpx₁ hpy₀ hpy₁
    obtain ⟨x, rfl⟩ := Int.eq_ofNat_of_zero_le hpx₀
    obtain ⟨y, rfl⟩ := Int.eq_ofNat_of_zero_le hpy₀
    have hnearx : x ∈ near m.x m.style.radius width := mem_near.2 (by omega)
    have hneary : y ∈ near m.y m.style.radius height := mem_near.2 (by omega)
    exact ⟨h.distance_le x hnearx y hneary, h.radius_le⟩

namespace Image

theorem guarded_layPlace (hwidth : width ≤ maxCount) (hheight : height ≤ maxCount)
    (hx : m.x < width) (hy : m.y < height) (px py : ℤ) {i : Image}
    (hi : i.size = (width, height)) :
    Guarded (m.PlaceInWords width height px py) .overflow
      (i.layPlace width height m.style m.x m.y py px)
      (if 0 ≤ px ∧ px < width then
        if 0 ≤ py ∧ py < height then layAt m py.toNat i px.toNat else i
      else i) := by
  by_cases hout : px < 0 ∨ py < 0 ∨ width ≤ px ∨ height ≤ py
  · -- skipped
    have hsame : (if 0 ≤ px ∧ px < width then
        if 0 ≤ py ∧ py < height then layAt m py.toNat i px.toNat else i
      else i) = i := by
      split_ifs <;> first | rfl | omega
    rw [layPlace, if_pos hout, hsame]
    refine (Guarded.pure _ i).congr (iff_of_true trivial fun _ _ _ _ => ?_)
    omega
  · obtain ⟨hpx, hpy⟩ : (0 ≤ px ∧ px < width) ∧ 0 ≤ py ∧ py < height := by omega
    have hmin : minWord ≤ 0 := by decide
    have hdx : word (px - m.x) = .ok (px - m.x) :=
      word_eq_ok (by simp only [minWord, maxWord, maxCount] at *; omega)
    have hdy : word (py - m.y) = .ok (py - m.y) :=
      word_eq_ok (by simp only [minWord, maxWord, maxCount] at *; omega)
    have hxx : 0 ≤ (px - m.x) * (px - m.x) := mul_self_nonneg _
    have hyy : 0 ≤ (py - m.y) * (py - m.y) := mul_self_nonneg _
    have hrr : 0 ≤ (m.style.radius : ℤ) * m.style.radius := mul_self_nonneg _
    have hcovers : m.covers px.toNat py.toNat = true ↔
        ¬(m.style.radius : ℤ) * m.style.radius <
          (px - m.x) * (px - m.x) + (py - m.y) * (py - m.y) := by
      rw [m.covers_iff, not_lt, Int.toNat_of_nonneg hpx.1, Int.toNat_of_nonneg hpy.1, pow_two,
        pow_two, pow_two]
    obtain ⟨hwide, hhigh⟩ : i.width = width ∧ i.height = height := Prod.mk.inj hi
    have hin : px.toNat < i.width ∧ py.toNat < i.height := by omega
    rw [layPlace, if_neg hout, hdx, hdy, if_pos hpx, if_pos hpy, layAt]
    change Guarded _ _ (word ((px - m.x) * (px - m.x)) >>= fun a =>
      word ((py - m.y) * (py - m.y)) >>= fun b =>
      word (a + b) >>= fun distance =>
      word (m.style.radius * m.style.radius) >>= fun reach =>
        if reach < distance then .ok i
        else if px.toNat < i.width ∧ py.toNat < i.height then
          .ok (i.paint px.toNat py.toNat m.style.blend)
        else .error .outside) _
    refine Guarded.congr ((guarded_word (hmin.trans hxx)).bind ((guarded_word (hmin.trans hyy)).bind
      ((guarded_word (hmin.trans (add_nonneg hxx hyy))).bind
        ((guarded_word (hmin.trans hrr)).bind (Q := True) ?_)))) ?_
    · by_cases hcover : m.covers px.toNat py.toNat = true
      · rw [if_neg (hcovers.1 hcover), if_pos hin, if_pos hcover]
        exact .pure _ _
      · rw [if_pos (not_not.1 (mt hcovers.2 hcover)), if_neg hcover]
        exact .pure _ _
    · constructor
      · rintro ⟨-, -, hsum, hreach, -⟩ _ _ _ _
        exact ⟨hsum, hreach⟩
      · intro h
        obtain ⟨hsum, hreach⟩ := h hpx.1 hpx.2 hpy.1 hpy.2
        exact ⟨by omega, by omega, hsum, hreach, trivial⟩

/-- A row of the square that is not in the image is skipped. -/
theorem guarded_layRow (hwidth : width ≤ maxCount) (hheight : height ≤ maxCount)
    (hx : m.x < width) (hy : m.y < height) (py : ℤ) {i : Image} (hi : i.size = (width, height)) :
    Guarded (∀ px ∈ Int.range (m.x - m.style.radius) (m.x + m.style.radius + 1),
        m.PlaceInWords width height px py) .overflow
      ((Int.range (m.x - m.style.radius) (m.x + m.style.radius + 1)).foldlM
        (layPlace width height m.style m.x m.y py) i)
      (if 0 ≤ py ∧ py < height then layRow m i py.toNat else i) := by
  let step (j : Image) (x : ℕ) : Image :=
    if 0 ≤ py ∧ py < height then layAt m py.toNat j x else j
  have hkeep (j : Image) (x : ℕ) : (step j x).size = j.size := by
    by_cases hrow : 0 ≤ py ∧ py < height
    · simp only [step, if_pos hrow, size_layAt]
    · simp only [step, if_neg hrow]
  have hplaces := guarded_foldlM (I := fun j => j.size = (width, height)) ?_
    (fun px _ j hj => guarded_layPlace hwidth hheight hx hy px py hj) hi
    (l := Int.range (m.x - m.style.radius) (m.x + m.style.radius + 1))
  · have hsquare := foldl_range_eq m.x m.style.radius width step i
    have hrow : (near m.x m.style.radius width).foldl step i =
        if 0 ≤ py ∧ py < height then layRow m i py.toNat else i := by
      by_cases hrow : 0 ≤ py ∧ py < height
      · simp only [step, if_pos hrow, layRow, (Prod.mk.inj hi).1]
      · rw [if_neg hrow]
        exact List.foldl_fixed' (fun _ => if_neg hrow) _
    rw [← hrow, ← hsquare]
    exact hplaces
  · intro j px hj
    by_cases hcolumn : 0 ≤ px ∧ px < width
    · rw [if_pos hcolumn]
      exact (hkeep j px.toNat).trans hj
    · rwa [if_neg hcolumn]

theorem guarded_layWords {i : Image} (hwidth : i.width ≤ maxCount)
    (hheight : i.height ≤ maxCount) (hradius : m.style.radius ≤ maxCount) (hx : m.x < i.width)
    (hy : m.y < i.height) :
    Guarded (m.InWords i.width i.height) .overflow (i.layWords m.x m.y m.style) (i.lay m) := by
  have hbounds {a n : ℕ} (ha : a < n) (hn : n ≤ maxCount) :
      word (a - m.style.radius) = .ok ((a : ℤ) - m.style.radius) ∧
        word (a + m.style.radius) = .ok ((a : ℤ) + m.style.radius) := by
    constructor
    · exact word_eq_ok (by simp only [minWord, maxWord, maxCount] at *; omega)
    · exact word_eq_ok (by simp only [minWord, maxWord, maxCount] at *; omega)
  rw [layWords, (hbounds hx hwidth).1, (hbounds hx hwidth).2, (hbounds hy hheight).1,
    (hbounds hy hheight).2]
  change Guarded _ _ ((Int.range (m.y - m.style.radius) (m.y + m.style.radius + 1)).foldlM
    (fun i' py => (Int.range (m.x - m.style.radius) (m.x + m.style.radius + 1)).foldlM
      (layPlace i.width i.height m.style m.x m.y py) i') i) _
  have hrows := guarded_foldlM (I := fun j => j.size = (i.width, i.height)) ?_
    (fun py _ j hj => guarded_layRow hwidth hheight hx hy py hj) (b := i) rfl
    (l := Int.range (m.y - m.style.radius) (m.y + m.style.radius + 1))
  · rw [foldl_range_eq, ← lay_eq_foldl_layRow] at hrows
    exact hrows.congr (Mark.inWords_iff hx hy)
  · intro j py hj
    split_ifs
    · rwa [size_layRow]
    · exact hj

end Image

end Laying

end Starfilm
