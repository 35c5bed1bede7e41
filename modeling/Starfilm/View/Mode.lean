import Starfilm.Decimal.Text
import Starfilm.View.Transform
import Starfilm.Window.Settings

/-!
# Views

A run looks at its snapshots in one of three ways. The view decides the transform, whether the
vertical axis of the screen is the thin axis of the disks, and the caption that names it.
-/

namespace Starfilm

/-- The ways of looking. -/
inductive ViewKind where
  | faceOn
  | edgeOn
  | tilted
  deriving DecidableEq, Repr

namespace ViewKind

/-- The word for a way of looking. -/
def name : ViewKind → String
  | faceOn => "face-on"
  | edgeOn => "edge-on"
  | tilted => "tilted"

/-- The way of looking that a word stands for. -/
def ofName? (s : String) : Option ViewKind := [faceOn, edgeOn, tilted].find? fun k => k.name = s

end ViewKind

/-- The camera of a run. -/
inductive ViewMode (F : Type) where
  /-- Down the `z` axis. -/
  | faceOn
  /-- Along the `y` axis. -/
  | edgeOn
  /-- After a tilt, in degrees. -/
  | tilted (angleX angleZ : F)
  deriving DecidableEq, Repr

namespace ViewMode

variable {F : Type}

def transform : ViewMode F → Transform F
  | faceOn => .faceOn
  | edgeOn => .edgeOn
  | tilted angleX angleZ => .tilt angleX angleZ

/-- Whether the height of the window follows its width. -/
def thinAxis (s : Framing F) : ViewMode F → Bool
  | faceOn => false
  | edgeOn => true
  | tilted _ _ => s.tiltedThinAxis

/-- The way of looking, without the angles. -/
def kind : ViewMode F → ViewKind
  | faceOn => .faceOn
  | edgeOn => .edgeOn
  | tilted _ _ => .tilted

/-- The word for a view. -/
def name (m : ViewMode F) : String := m.kind.name

/-- The caption that names the camera. -/
def label [DecimalText F] : ViewMode F → String
  | faceOn => "Face-on view (X-Y plane)"
  | edgeOn => "Edge-on view (X-Z plane)"
  | tilted angleX angleZ =>
    s!"View: {DecimalText.shortest angleX}° tilt, {DecimalText.shortest angleZ}° rotation"

end ViewMode

end Starfilm
