import Starfilm.CommandLine
import Starfilm.Film.External
import Starfilm.Film.Loop
import Starfilm.Render
import Starfilm.Snapshot.Container

/-!
# The command

The command renders the snapshots of a directory and assembles the film, with the external encoder
if it can and as a looping picture otherwise. It reports how many frames there are and where, and
what has become of the film.
-/

namespace Starfilm

/-- What the command leaves behind besides files. -/
structure Report where
  /-- The exit code. -/
  code : Nat
  /-- What it prints. -/
  output : String
  /-- What went wrong, and below it why. -/
  causes : List String
  deriving DecidableEq

namespace Command

/-- The command's own name. -/
def name : String := "render-snapshots"

/-- The assemblers, in the order in which they are asked. -/
def assemblers (launch : Launcher) (args : List String) : List Assembler :=
  if CommandLine.wantsFilm args then
    [ExternalEncoder.default.assembler launch, LoopEncoder.assembler]
  else []

/-- The report of a run that has come to its end. -/
def success {F : Type} (framesDir : Path) (s : Summary F) : Report :=
  let film :=
    match s.assembly with
    | .encoded encoder path => s!"animation ({encoder}): {path.text}\n"
    | .imageSequence _ => "no animation written\n"
  ⟨0, s!"{s.frames.length} frames in {framesDir.text}\n" ++ film, []⟩

/-- The report of a run that has ended early. -/
def failure (causes : List String) : Report := ⟨1, "", causes⟩

/-- Runs the command with these arguments. -/
def run (F G : Type) [Arith F] [Elementary F] [DecimalText F] [DecimalReader F] [Arith G]
    (launch : Launcher) (arguments : List String) (d : Disk) : Report × Disk :=
  let args := name :: arguments
  match (CommandLine.settings d args : Except ArgumentError (Settings F)) with
  | .error e => (failure (e.message :: e.cause?.toList), d)
  | .ok s =>
    let look : Look G := ⟨s.frameSize, ClassStyle.default⟩
    let (r, state) :=
      renderDirectory s Container.reader look.renderer (assemblers launch args) ⟨d, []⟩
    match r with
    | .ok summary => (success s.framesDir summary, state.disk)
    | .error e => (failure ("rendering failed" :: e.message :: e.cause?.toList), state.disk)

end Command

end Starfilm
