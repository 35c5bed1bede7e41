/-!
# Images

An image is a grid of pixels, kept row by row from the top in one array. `pixel` looks at one,
`paint` changes one, and a place outside the image shows black and cannot be painted. The three
lemmas at the end are all that drawing needs to know about the array.
-/

namespace Starfilm

/-- A colour, a byte for each channel. -/
structure Rgb where
  red : UInt8
  green : UInt8
  blue : UInt8
  deriving DecidableEq, Repr, Inhabited

def Rgb.black : Rgb := ⟨0, 0, 0⟩

/-- A grid of pixels. -/
structure Image where
  width : Nat
  height : Nat
  pixels : Array Rgb
  size_eq : pixels.size = width * height

namespace Image

instance : DecidableEq Image := fun a b =>
  if h : a.width = b.width ∧ a.height = b.height ∧ a.pixels = b.pixels then
    isTrue (by cases a; cases b; simp_all)
  else isFalse (by rintro rfl; exact h ⟨rfl, rfl, rfl⟩)

/-- The image that shows one colour. -/
def blank (width height : Nat) (c : Rgb) : Image where
  width := width
  height := height
  pixels := Array.replicate (width * height) c
  size_eq := by simp

instance : Inhabited Image := ⟨blank 0 0 .black⟩

/-- The pixel in column `x` of row `y`. -/
def pixel (i : Image) (x y : Nat) : Rgb :=
  if x < i.width ∧ y < i.height then i.pixels.getD (y * i.width + x) .black else .black

/-- The image with one pixel changed by `f`. -/
def paint (i : Image) (x y : Nat) (f : Rgb → Rgb) : Image :=
  if x < i.width ∧ y < i.height then
    { i with
      pixels := i.pixels.modify (y * i.width + x) f
      size_eq := by simpa using i.size_eq }
  else i

/-- The image with the pixels that `f` gives, column and row. -/
def ofPixels (width height : Nat) (f : Nat → Nat → Rgb) : Image where
  width := width
  height := height
  pixels := Array.ofFn fun k : Fin (width * height) => f (k % width) (k / width)
  size_eq := by simp

@[simp] theorem paint_width (i : Image) (x y : Nat) (f : Rgb → Rgb) :
    (i.paint x y f).width = i.width := by
  unfold paint; split <;> rfl

@[simp] theorem paint_height (i : Image) (x y : Nat) (f : Rgb → Rgb) :
    (i.paint x y f).height = i.height := by
  unfold paint; split <;> rfl

/-- A place in the grid is an index of the array. -/
theorem index_lt (i : Image) {x y : Nat} (hx : x < i.width) (hy : y < i.height) :
    y * i.width + x < i.pixels.size := by
  rw [i.size_eq]
  calc y * i.width + x < y * i.width + i.width := by omega
    _ = (y + 1) * i.width := by rw [Nat.add_mul, Nat.one_mul]
    _ ≤ i.height * i.width := Nat.mul_le_mul_right _ hy
    _ = i.width * i.height := Nat.mul_comm _ _

/-- Two places in a grid with the same index are the same. -/
theorem index_inj {w x y x' y' : Nat} (hx : x < w) (hx' : x' < w)
    (h : y * w + x = y' * w + x') : x = x' ∧ y = y' := by
  have hmod := congrArg (· % w) h
  have hdiv := congrArg (· / w) h
  have hw : 0 < w := by omega
  simp only [Nat.mul_comm _ w, Nat.mul_add_mod, Nat.mod_eq_of_lt hx, Nat.mod_eq_of_lt hx'] at hmod
  simp only [Nat.mul_comm _ w, Nat.mul_add_div hw, Nat.div_eq_of_lt hx,
    Nat.div_eq_of_lt hx'] at hdiv
  exact ⟨hmod, by omega⟩

/-- Painting changes the painted pixel and no other. -/
theorem pixel_paint (i : Image) (x y : Nat) (f : Rgb → Rgb) (x' y' : Nat) :
    (i.paint x y f).pixel x' y' =
      if x' = x ∧ y' = y ∧ x < i.width ∧ y < i.height then f (i.pixel x y)
      else i.pixel x' y' := by
  unfold pixel paint
  by_cases hin : x < i.width ∧ y < i.height
  · simp only [hin, and_self, if_true, and_true]
    by_cases hin' : x' < i.width ∧ y' < i.height
    · simp only [hin', and_self, if_true]
      have hlt := i.index_lt hin'.1 hin'.2
      have hlt₀ := i.index_lt hin.1 hin.2
      simp only [Array.getD_eq_getD_getElem?, Array.getElem?_modify]
      by_cases heq : x' = x ∧ y' = y
      · obtain ⟨rfl, rfl⟩ := heq
        simp [hlt]
      · have hne : y * i.width + x ≠ y' * i.width + x' := fun h =>
          heq (let ⟨hx, hy⟩ := index_inj hin.1 hin'.1 h; ⟨hx.symm, hy.symm⟩)
        simp [heq, hne]
    · simp only [hin', if_false]
      have : ¬(x' = x ∧ y' = y) := by rintro ⟨rfl, rfl⟩; exact hin' hin
      simp [this]
  · simp [hin]

end Image

end Starfilm
