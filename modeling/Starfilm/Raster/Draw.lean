import Starfilm.Caption
import Starfilm.Raster.Image
import Starfilm.Raster.PixelMap
import Starfilm.Raster.Size

/-!
# Drawing

Every point of a frame that its window contains leaves a mark, a disc of a class's colour laid over
the image with the class's opacity. The marks are laid one after another, disk and bulge before the
new stars, so that these stay on top; within a class in the order of its points.

The opacity and the blend have a number type `G` of their own, besides the `F` of the coordinates.
-/

namespace Starfilm

/-- How a class of particles is drawn. -/
structure ClassStyle (G : Type) where
  color : Rgb
  /-- Opacity. -/
  alpha : G
  /-- Radius of the disc in pixels; with `0` it is one pixel. -/
  radius : Nat
  deriving DecidableEq, Repr

namespace ClassStyle

variable {G : Type} [Arith G]

/-- Old stars are faint and white, new ones bright and cyan. -/
def default : ParticleClass → ClassStyle G
  | .disk | .bulge => ⟨⟨255, 255, 255⟩, Arith.decimal 4 1, 0⟩
  | .newStars => ⟨⟨0, 255, 255⟩, Arith.decimal 9 1, 1⟩

/-- One channel of a colour laid over another. -/
def blendChannel (alpha : G) (top under : UInt8) : UInt8 :=
  let value : G := Arith.nat under.toNat * (Arith.nat 1 - alpha) + Arith.nat top.toNat * alpha
  UInt8.ofNat (Arith.toInt .nearest 0 255 value).toNat

/-- The style's colour laid over another. -/
def blend (s : ClassStyle G) (under : Rgb) : Rgb :=
  ⟨blendChannel s.alpha s.color.red under.red, blendChannel s.alpha s.color.green under.green,
    blendChannel s.alpha s.color.blue under.blue⟩

end ClassStyle

/-- A disc to be laid over an image. -/
structure Mark (G : Type) where
  x : Nat
  y : Nat
  style : ClassStyle G

/-- The square of the distance of two indices. -/
def sqDist (a b : Nat) : Nat := (a - b) * (a - b) + (b - a) * (b - a)

/-- Whether a mark covers a pixel. -/
def Mark.covers {G : Type} (m : Mark G) (x y : Nat) : Bool :=
  sqDist x m.x + sqDist y m.y ≤ m.style.radius * m.style.radius

/-- The indices no further than `r` from `a`, among the first `n`. -/
def near (a r n : Nat) : List Nat := List.range' (a - r) (Min.min n (a + r + 1) - (a - r))

namespace Image

variable {G : Type} [Arith G]

/-- The image with a mark laid over it: within the square around the mark's centre every pixel of
the disc is painted once. -/
def lay (i : Image) (m : Mark G) : Image :=
  (near m.y m.style.radius i.height).foldl
    (fun i y =>
      (near m.x m.style.radius i.width).foldl
        (fun i x => if m.covers x y then i.paint x y m.style.blend else i) i) i

end Image

/-- A frame with the caption it is drawn with. -/
structure FrameRequest (F : Type) where
  index : Nat
  frame : Frame F
  window : Window F
  caption : Caption
  deriving DecidableEq, Repr

/-- The look of frames: their size, and the styles of the classes. -/
structure Look (G : Type) where
  size : FrameSize
  style : ParticleClass → ClassStyle G

namespace Look

variable {F G : Type} [Arith F] [Arith G]

/-- The marks of a frame, in the order in which they are laid. -/
def marks (l : Look G) (m : PixelMap F) (f : Frame F) : List (Mark G) :=
  ParticleClass.all.flatMap fun c =>
    (f.points c).filterMap fun p => (m.pixel? p).map fun (x, y) => ⟨x, y, l.style c⟩

/-- The picture of a frame in a window. An image without columns cannot take a mark. -/
def draw (l : Look G) (w : Window F) (f : Frame F) : Except Failure Image :=
  let (width, height) := l.size.pixels w
  let marks := l.marks (PixelMap.ofWindow w width height) f
  if width = 0 && !marks.isEmpty then .error .emptyRaster
  else .ok (marks.foldl Image.lay (Image.blank width height .black))

end Look

end Starfilm
