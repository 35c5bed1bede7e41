import Starfilm.Raster.Size
import Starfilm.View.Mode

/-!
# Settings of a run

Where the snapshots are, where the frames and the film go, and how the camera looks. Counts are
machine words of thirty-two bits, as wide as the files that state them allow. `validate` checks the
counts and then the framing; the first broken rule is reported.
-/

namespace Starfilm

/-- What a run is asked to do. -/
structure Settings (F : Type) where
  /-- The directory that holds the snapshots. -/
  inputDir : Path
  /-- What the names of snapshots begin with. -/
  nameStart : String
  /-- What the names of snapshots end with, after a point. -/
  nameExtension : String
  /-- The directory for the frames and their index. -/
  framesDir : Path
  /-- The film. -/
  saveFile : Path
  /-- Frames per second. -/
  fps : UInt32
  mode : ViewMode F
  /-- Width of the frames in pixels; edge-on frames take it from their window. -/
  width : Option UInt32
  /-- Height of the frames in pixels. -/
  height : Option UInt32
  framing : Framing F
  deriving DecidableEq

namespace Settings

variable {F : Type}

/-- Two frames per second, seen face-on. -/
def default [Arith F] : Settings F where
  inputDir := .ofString "../output"
  nameStart := "snapshot_"
  nameExtension := "hdf5"
  framesDir := .ofString "frames"
  saveFile := .ofString "galaxy_collision.mp4"
  fps := 2
  mode := .faceOn
  width := none
  height := none
  framing := .default

/-- Whether a run can be made with these settings. -/
def validate [Arith F] [DecimalText F] (s : Settings F) : Except Failure Unit :=
  if s.fps = 0 then .error (.invalidSettings "fps must be positive")
  else if s.width = some 0 || s.height = some 0 then
    .error (.invalidSettings "frame size must be positive")
  else s.framing.validate

/-- The size of the frames: squares face-on, six to five when tilted, and edge-on as wide as the
window asks for. -/
def frameSize (s : Settings F) : FrameSize :=
  match s.mode with
  | .faceOn => .fixed (s.width.getD 1500).toNat (s.height.getD 1500).toNat
  | .tilted _ _ => .fixed (s.width.getD 1800).toNat (s.height.getD 1500).toNat
  | .edgeOn => .fitHeight (s.height.getD 1200).toNat

end Settings

end Starfilm
