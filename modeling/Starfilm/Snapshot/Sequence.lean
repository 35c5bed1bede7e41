import Starfilm.Arith
import Starfilm.Snapshot

/-!
# Sequences of snapshots

A sequence holds its snapshots by rising time. The order of times is the one in which every value
has a place, so that times without a value are sorted too; snapshots of equal times keep the order
in which they came.
-/

namespace Starfilm

/-- Snapshots by rising time. -/
structure Sequence (F : Type) where
  snapshots : List (Snapshot F)

namespace Sequence

variable {F : Type}

/-- Whether a snapshot may come before another. -/
def inOrder [Arith F] (a b : Snapshot F) : Bool := Arith.totalLe a.time b.time

/-- The sequence of some snapshots. -/
def ofSnapshots [Arith F] (snapshots : List (Snapshot F)) : Sequence F :=
  ⟨snapshots.mergeSort inOrder⟩

def length (s : Sequence F) : Nat := s.snapshots.length

def isEmpty (s : Sequence F) : Bool := s.snapshots.isEmpty

/-- The number of particles of all snapshots. -/
def totalParticles (s : Sequence F) : Nat :=
  (s.snapshots.map Snapshot.totalParticles).foldl (· + ·) 0

end Sequence

end Starfilm
