import Starfilm.Run
import Starfilm.Snapshot.Sequence

/-!
# Finding and loading snapshots

The snapshots of a directory are its files whose names begin and end as asked, in the order of their
names. They are read in that order, and the first that cannot be read ends the loading. A sequence
is made of them only when all have been read.
-/

namespace Starfilm

/-- Whether a name begins with `start` and has the extension `extension`. -/
def isSnapshotName (start extension : String) (name : Name) : Bool :=
  start.toList.isPrefixOf name && (Path.splitExtension name).2 == some extension.toList

/-- The names of the snapshots in a directory, in their order. -/
def snapshotNames (start extension : String) (d : Disk) (dir : Path) (names : List Name) :
    List Name :=
  (names.filter fun n => d.isFile (dir.join ⟨n⟩) && isSnapshotName start extension n).mergeSort
    Name.le

/-- The paths of the snapshots in a directory. -/
def discover (dir : Path) (start extension : String) (d : Disk) : Except Failure (List Path) :=
  match d.list dir with
  | .ok names => .ok ((snapshotNames start extension d dir names).map fun n => dir.join ⟨n⟩)
  | .error f => .error (.disk dir f.message)

/-- A way to read snapshots. Reading only looks at the disk. -/
abbrev Reader (F : Type) := Disk → Path → Except Failure (Snapshot F)

variable {F : Type}

/-- The snapshots of some paths, read one after another. -/
def readAll (read : Reader F) : List Path → Run F (List (Snapshot F))
  | [] => return []
  | p :: ps => do
    Run.record (.read p)
    let s ← Run.look fun d => read d p
    let rest ← readAll read ps
    return s :: rest

/-- The sequence of the snapshots of some paths. -/
def Sequence.load [Arith F] (read : Reader F) (paths : List Path) : Run F (Sequence F) := do
  let snapshots ← readAll read paths
  return .ofSnapshots snapshots

end Starfilm
