import Starfilm.Window

/-!
# Frame sizes

Frames have a fixed size, or a fixed height and the width that their window's shape asks for.
-/

namespace Starfilm

/-- The size of frames in pixels. -/
inductive FrameSize where
  | fixed (width height : Nat)
  /-- A height; the width follows the window. -/
  | fitHeight (height : Nat)
  deriving DecidableEq, Repr

/-- Width and height of a frame that shows a window. -/
def FrameSize.pixels {F : Type} [Arith F] (size : FrameSize) (w : Window F) : Nat × Nat :=
  match size with
  | .fixed width height => (Max.max width 1, Max.max height 1)
  | .fitHeight height =>
    let aspect := w.aspect
    let width :=
      if Arith.isFinite aspect && Arith.lt (Arith.nat 0) aspect then
        (Arith.toInt .nearest 1 maxCount (Arith.nat height * aspect)).toNat
      else height
    (width, Max.max height 1)

end Starfilm
