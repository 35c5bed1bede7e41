import Starfilm.Film
import Starfilm.Frame.Files
import Starfilm.Settings
import Starfilm.Snapshot.Discovery
import Starfilm.Window.Estimate

/-!
# Rendering

A run looks at all snapshots before it draws the first: their frames share one window. So the
settings are checked and the window is estimated while the disk is still untouched; then the frames
are rendered, and then the film is assembled. `renderDirectory` finds and loads the snapshots first.
-/

namespace Starfilm

variable {F : Type} [Arith F] [Elementary F] [DecimalText F]

/-- The frames of a sequence, in its order. -/
def Settings.frames (s : Settings F) (q : Sequence F) : List (Frame F) :=
  q.snapshots.map fun t => .ofSnapshot s.mode.transform t

/-- The one window of some frames. -/
def Settings.window (s : Settings F) (frames : List (Frame F)) : Except Failure (Window F) :=
  estimate s.framing (s.mode.thinAxis s.framing) (frames.flatMap Frame.pointSets)

/-- What a run has made. -/
structure Summary (F : Type) where
  window : Window F
  frames : List Path
  index : Path
  assembly : Assembly

/-- Renders a sequence and assembles the film. -/
def renderSequence (s : Settings F) (render : Renderer F) (assemblers : List Assembler)
    (q : Sequence F) : Run F (Summary F) := do
  s.validate
  let frames := s.frames q
  let window ← s.window frames
  let paths ← renderFrames render s.mode s.framesDir window frames
  let assembly ← assembleWithFallback paths s.saveFile s.fps.toNat assemblers
  return ⟨window, paths, indexPath s.framesDir, assembly⟩

/-- Finds and loads the snapshots, and renders their sequence. -/
def renderDirectory (s : Settings F) (read : Reader F) (render : Renderer F)
    (assemblers : List Assembler) : Run F (Summary F) := do
  let paths ← Run.look (discover s.inputDir s.nameStart s.nameExtension)
  if paths.isEmpty then throw .nothingToFrame
  let q ← Sequence.load read paths
  renderSequence s render assemblers q

end Starfilm
