import Starfilm.Run

/-!
# Films

An assembler makes a film of the files of the frames. Assemblers are asked in turn, and the first
one that does not fail over its encoding decides: its film is the film of the run, or its failure is
the failure of the run. When every encoding fails the frames stay what they are.
-/

namespace Starfilm

/-- A way to make a film of frames. The path it gives may differ from the one it was given. -/
structure Assembler where
  name : String
  /-- Makes the film of some frames, to be written to a path, with a number of frames a second. -/
  assemble : List Path → Path → Nat → OnDisk Path

/-- What has become of the frames. -/
inductive Assembly where
  /-- A film, by one of the encoders. -/
  | encoded (encoder : String) (path : Path)
  /-- No film: so many frames. -/
  | imageSequence (frames : Nat)
  deriving DecidableEq

/-- A film by the first assembler whose encoding does not fail. -/
def assembleWithFallback {F : Type} (frames : List Path) (output : Path) (fps : Nat) :
    List Assembler → Run F Assembly
  | [] => return .imageSequence frames.length
  | a :: rest => do
    Run.record (.assemble a.name frames output fps)
    match ← Run.attempt (Run.onDisk (a.assemble frames output fps)) with
    | .ok path => return .encoded a.name path
    | .error e =>
      if e.isRecoverable then assembleWithFallback frames output fps rest else throw e

end Starfilm
