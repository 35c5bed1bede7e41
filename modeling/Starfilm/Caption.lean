import Starfilm.Decimal.Grouped
import Starfilm.Frame
import Starfilm.View.Mode

/-!
# Captions

Three lines go with a frame: its time to the thousandth, its count of new stars with commas, and
the view.
-/

namespace Starfilm

/-- The lines that go with a frame. -/
structure Caption where
  time : String
  newStars : String
  view : String
  deriving DecidableEq, Repr

/-- The lines for a frame in a view. -/
def Caption.ofFrame {F : Type} [DecimalText F] (mode : ViewMode F) (f : Frame F) : Caption where
  time := s!"Time: {DecimalText.fixed 3 f.time} Gyr"
  newStars := s!"New stars: {Decimal.grouped f.newStarCount}"
  view := mode.label

end Starfilm
