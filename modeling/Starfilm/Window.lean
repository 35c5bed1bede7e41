import Starfilm.View.Axis

/-!
# Windows

A window is the box of the screen plane that every frame of a run shows. Its edges belong to it.
-/

namespace Starfilm

/-- A box with sides along the axes. -/
structure Window (F : Type) where
  xmin : F
  xmax : F
  ymin : F
  ymax : F
  deriving DecidableEq, Repr

namespace Window

variable {F : Type} [Arith F]

def width (w : Window F) : F := w.xmax - w.xmin

def height (w : Window F) : F := w.ymax - w.ymin

def center (w : Window F) : Point F :=
  ⟨Arith.decimal 5 1 * (w.xmin + w.xmax), Arith.decimal 5 1 * (w.ymin + w.ymax)⟩

/-- Width over height. -/
def aspect (w : Window F) : F := w.width / w.height

/-- Whether a point lies in the window. -/
def contains (w : Window F) (p : Point F) : Bool :=
  Arith.le w.xmin p.x && Arith.le p.x w.xmax && Arith.le w.ymin p.y && Arith.le p.y w.ymax

end Window

end Starfilm
