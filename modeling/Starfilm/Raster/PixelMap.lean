import Starfilm.Window

/-!
# From the window to pixels

Both axes have one scale, the larger one with which the whole window fits into the image, and the
window is centred: an image of another shape keeps margins on two sides. Rows count downwards.
-/

namespace Starfilm

/-- A map from a window to the pixels of an image. -/
structure PixelMap (F : Type) where
  window : Window F
  width : Nat
  height : Nat
  /-- Pixels per unit of length. -/
  scale : F
  /-- Left margin. -/
  x₀ : F
  /-- Lower margin. -/
  y₀ : F

namespace PixelMap

variable {F : Type} [Arith F]

/-- The map onto an image of a given size. -/
def ofWindow (w : Window F) (width height : Nat) : PixelMap F :=
  let half : F := Arith.decimal 5 1
  let wide : F := Arith.nat width
  let high : F := Arith.nat height
  let scale := Arith.min (wide / w.width) (high / w.height)
  { window := w, width, height, scale
    x₀ := half * (wide - scale * w.width)
    y₀ := half * (high - scale * w.height) }

/-- The column of a point, not yet rounded to a pixel. -/
def column (m : PixelMap F) (p : Point F) : F := m.x₀ + m.scale * (p.x - m.window.xmin)

/-- The row of a point, not yet rounded to a pixel. -/
def row (m : PixelMap F) (p : Point F) : F :=
  Arith.nat m.height - (m.y₀ + m.scale * (p.y - m.window.ymin))

/-- A column or row rounded down to one of `n` pixels: the first for what lies before them, and the
last for what lies behind, as the closing edges of the window do. -/
def snap (n : Nat) (x : F) : Nat := Min.min (Arith.toInt .down minWord maxWord x).toNat (n - 1)

/-- The pixel of a point, column and row. A point outside the window has none. -/
def pixel? (m : PixelMap F) (p : Point F) : Option (Nat × Nat) :=
  if m.window.contains p then some (snap m.width (m.column p), snap m.height (m.row p)) else none

end PixelMap

end Starfilm
