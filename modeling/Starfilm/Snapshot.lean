import Starfilm.Failure
import Starfilm.View.Axis

/-!
# Snapshots

A snapshot is one instant of a simulation: the positions of three classes of particles, and for the
stars formed since the start also their masses and times of formation. The three columns of new
stars have one length; `NewStars.ofColumns` refuses others and `NewStars.ofRows` builds them row by
row.
-/

namespace Starfilm

/-- The classes of particles that are drawn. -/
inductive ParticleClass where
  | disk
  | bulge
  | newStars
  deriving DecidableEq, Repr

namespace ParticleClass

/-- All classes, in the order in which they are drawn. -/
def all : List ParticleClass := [disk, bulge, newStars]

/-- The place of a class, from `0`. -/
def index : ParticleClass → Nat
  | disk => 0
  | bulge => 1
  | newStars => 2

/-- The group of a snapshot file that holds the class. -/
def groupName : ParticleClass → String
  | disk => "PartType2"
  | bulge => "PartType3"
  | newStars => "PartType4"

/-- What the class is called. -/
def title : ParticleClass → String
  | disk => "pre-existing disk"
  | bulge => "bulge"
  | newStars => "newly formed stars"

end ParticleClass

/-- Newly formed stars, as columns of one length. -/
structure NewStars (F : Type) where
  positions : List (Position F)
  masses : List F
  formationTimes : List F
  masses_length : masses.length = positions.length
  formationTimes_length : formationTimes.length = positions.length

namespace NewStars

variable {F : Type}

def empty : NewStars F := ⟨[], [], [], rfl, rfl⟩

/-- The stars with these columns. -/
def ofColumns (positions : List (Position F)) (masses formationTimes : List F) :
    Except Failure (NewStars F) :=
  if h : masses.length = positions.length ∧ formationTimes.length = positions.length then
    .ok ⟨positions, masses, formationTimes, h.1, h.2⟩
  else .error .unequalColumns

/-- The stars of a list of rows. -/
def ofRows (rows : List (Position F × F × F)) : NewStars F where
  positions := rows.map (·.1)
  masses := rows.map (·.2.1)
  formationTimes := rows.map (·.2.2)
  masses_length := by simp
  formationTimes_length := by simp

def length (s : NewStars F) : Nat := s.positions.length

def isEmpty (s : NewStars F) : Bool := s.positions.isEmpty

/-- The masses of all stars together. -/
def totalMass [Arith F] (s : NewStars F) : F := Arith.sum s.masses

end NewStars

/-- One instant of a simulation. -/
structure Snapshot (F : Type) where
  /-- The file it was read from. -/
  source : Option Path
  /-- Simulation time, in billions of years. -/
  time : F
  disk : List (Position F)
  bulge : List (Position F)
  newStars : NewStars F

namespace Snapshot

variable {F : Type}

/-- The positions of a class; those of a class that a file lacks are none. -/
def positions (s : Snapshot F) : ParticleClass → List (Position F)
  | .disk => s.disk
  | .bulge => s.bulge
  | .newStars => s.newStars.positions

/-- The number of particles of all classes. -/
def totalParticles (s : Snapshot F) : Nat :=
  (ParticleClass.all.map fun c => (s.positions c).length).foldl (· + ·) 0

def isEmpty (s : Snapshot F) : Bool := s.totalParticles == 0

end Snapshot

end Starfilm
