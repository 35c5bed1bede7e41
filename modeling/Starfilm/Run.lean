import Starfilm.Disk
import Starfilm.Raster.Draw

/-!
# Runs

A run works on a disk and keeps a log. `OnDisk` are the computations that may change the disk and
may fail; renderers and assemblers are given as such. `Run` has the log besides: it is written by
the run itself, at each snapshot that is read, each frame that is rendered, the index, and each
assembler that is asked. A failure leaves disk and log as they are at that point.
-/

namespace Starfilm

/-- Computations on a disk that may fail. -/
abbrev OnDisk (A : Type) := ExceptT Failure (StateM Disk) A

namespace OnDisk

/-- What is looked up on the disk, with the path at which that may fail. -/
def look {A : Type} (at_ : Path) (f : Disk → Except Disk.Fault A) : OnDisk A := do
  match f (← get) with
  | .ok a => return a
  | .error e => throw (.disk at_ e.message)

/-- A change of the disk, with the path at which it may fail. -/
def change (at_ : Path) (f : Disk → Except Disk.Fault Disk) : OnDisk Unit := do
  match f (← get) with
  | .ok d => set d
  | .error e => throw (.disk at_ e.message)

end OnDisk

/-- What a run has done. -/
inductive Event (F : Type) where
  /-- A snapshot was to be read. -/
  | read (path : Path)
  /-- A frame was to be rendered. -/
  | render (request : FrameRequest F) (path : Path)
  /-- The index was to be written. -/
  | index (path : Path)
  /-- An assembler was asked for a film. -/
  | assemble (name : String) (frames : List Path) (output : Path) (fps : Nat)
  deriving DecidableEq

/-- The disk and the log of a run. -/
structure RunState (F : Type) where
  disk : Disk
  /-- The events, the earliest first. -/
  log : List (Event F)

/-- Computations on a disk that keep a log and may fail. -/
abbrev Run (F A : Type) := ExceptT Failure (StateM (RunState F)) A

namespace Run

variable {F A : Type}

/-- An event for the log. -/
def record (e : Event F) : Run F Unit := modify fun s => { s with log := s.log ++ [e] }

/-- A computation on the disk. -/
def onDisk (a : OnDisk A) : Run F A := fun s =>
  let (r, disk) := a s.disk
  (r, { s with disk })

/-- A computation whose failure is its result. -/
def attempt (a : Run F A) : Run F (Except Failure A) := fun s =>
  let (r, s) := a s
  (.ok r, s)

/-- A look at the disk. -/
def look (f : Disk → Except Failure A) : Run F A := do
  match f (← get).disk with
  | .ok a => return a
  | .error e => throw e

end Run

end Starfilm
