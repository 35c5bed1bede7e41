import Starfilm.Snapshot
import Starfilm.View.Transform

/-!
# Frames

A frame is a snapshot seen through a transform: the points of each class, the time, and how many
stars of what mass have formed.
-/

namespace Starfilm

/-- A snapshot on the screen. -/
structure Frame (F : Type) where
  time : F
  disk : List (Point F)
  bulge : List (Point F)
  newStars : List (Point F)
  newStarMass : F
  deriving DecidableEq, Repr

namespace Frame

variable {F : Type}

/-- What a snapshot looks like through a transform. -/
def ofSnapshot [Arith F] [Elementary F] (t : Transform F) (s : Snapshot F) : Frame F where
  time := s.time
  disk := t.project s.disk
  bulge := t.project s.bulge
  newStars := t.project s.newStars.positions
  newStarMass := s.newStars.totalMass

/-- The points of a class. -/
def points (f : Frame F) : ParticleClass → List (Point F)
  | .disk => f.disk
  | .bulge => f.bulge
  | .newStars => f.newStars

/-- The points of every class, empty ones included. -/
def pointSets (f : Frame F) : List (List (Point F)) := ParticleClass.all.map f.points

/-- The old population: disk and bulge. -/
def oldStars (f : Frame F) : List (Point F) := f.disk ++ f.bulge

def newStarCount (f : Frame F) : Nat := f.newStars.length

def totalParticles (f : Frame F) : Nat := (f.pointSets.map List.length).foldl (· + ·) 0

end Frame

end Starfilm
