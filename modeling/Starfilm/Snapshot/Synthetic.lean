import Starfilm.Random.Uniform
import Starfilm.Random.Ziggurat
import Starfilm.Snapshot.Sequence

/-!
# Synthetic snapshots

Two thin disks approach each other along the `x` axis until their centres meet. A disk has an
exponential surface density and a normal profile across; a bulge is a normal cloud. New stars form
in a disk about the middle at a constant rate, so that there are none at the start, and their times
of formation are spread evenly over the time until now.
-/

namespace Starfilm

/-- Two disks on a course of collision. -/
structure Collision (F : Type) where
  diskParticles : Nat
  bulgeParticles : Nat
  /-- Radial scale of a disk, in thousands of parsecs. -/
  scaleLength : F
  /-- Scale across a disk. -/
  scaleHeight : F
  /-- Distance of the centres at the start. -/
  separation : F
  /-- Speed at which the centres approach. -/
  approachSpeed : F
  /-- New stars in a unit of time. -/
  formationRate : F

namespace Collision

variable {F : Type} [Arith F] [Elementary F] {S : Type} [Source S]

/-- The usual collision with given numbers of particles. -/
def ofCounts (diskParticles bulgeParticles : Nat) : Collision F where
  diskParticles
  bulgeParticles
  scaleLength := Arith.nat 3
  scaleHeight := Arith.decimal 3 1
  separation := Arith.nat 40
  approachSpeed := Arith.nat 20
  formationRate := Arith.nat 500

/-- Half the distance of the centres at a time; it does not grow again once they have met. -/
def halfDistance (c : Collision F) (time : F) : F :=
  let half : F := Arith.decimal 5 1
  Arith.max (half * c.separation - half * c.approachSpeed * time) (Arith.nat 0)

/-- The centre about which the particle in a place of a list lies: they take turns. -/
def centre (c : Collision F) (time : F) (i : Nat) : Position F :=
  let half := c.halfDistance time
  ⟨if i % 2 = 0 then -half else half, Arith.nat 0, Arith.nat 0⟩

/-- A position moved by another. -/
def moved (p q : Position F) : Position F := ⟨p.x + q.x, p.y + q.y, p.z + q.z⟩

/-- A particle of the disk about a centre. The sum of two exponential radii has an exponential
surface density. -/
def diskParticle (c : Collision F) (d : Densities F) (centre : Position F) :
    Draws S (Position F) := do
  let e₁ ← d.drawExponential
  let e₂ ← d.drawExponential
  let r := c.scaleLength * (e₁ + e₂)
  let angle ← Uniform.below (Arith.nat 0) (Arith.nat 2 * Elementary.pi)
  let phi ← angle.sample
  let z ← d.drawNormal
  return moved centre
    ⟨r * Elementary.cos phi, r * Elementary.sin phi, c.scaleHeight * z⟩

/-- A particle of the bulge about a centre. -/
def bulgeParticle (c : Collision F) (d : Densities F) (centre : Position F) :
    Draws S (Position F) := do
  let sigma := Arith.decimal 5 1 * c.scaleLength
  let x ← d.drawNormal
  let y ← d.drawNormal
  let z ← d.drawNormal
  return moved centre ⟨sigma * x, sigma * y, sigma * z⟩

/-- The number of stars that have formed at a time. -/
def newStarCount (c : Collision F) (time : F) : Nat :=
  (Arith.toInt .towardZero 0 maxIndex (Arith.max (c.formationRate * time) (Arith.nat 0))).toNat

/-- A star that has formed until a time: its position, mass and time of formation. -/
def newStar (c : Collision F) (d : Densities F) (time : F) : Draws S (Position F × F × F) := do
  let p ← c.diskParticle d ⟨Arith.nat 0, Arith.nat 0, Arith.nat 0⟩
  let ages ← Uniform.upTo (Arith.nat 0) time
  let age ← ages.sample
  return (p, Arith.decimal 1 5, time - age)

/-- The number of stars that can be held: each takes twenty-four bytes of memory, of which there are
fewer than `2 ^ 63`. -/
def maxStars : Nat := 0x7FFFFFFFFFFFFFFF / 24

/-- Stars drawn one after the other, if there is room for them. -/
def drawStars {A : Type} (n : Nat) (star : Nat → Draws S A) : Draws S (List A) :=
  if maxStars < n then throw .tooManyStars else (List.range n).mapM star

/-- The snapshot of a time. -/
def snapshot (c : Collision F) (d : Densities F) (time : F) : Draws S (Snapshot F) := do
  let disk ← drawStars c.diskParticles fun i => c.diskParticle d (c.centre time i)
  let bulge ← drawStars c.bulgeParticles fun i => c.bulgeParticle d (c.centre time i)
  let rows ← drawStars (c.newStarCount time) fun _ => c.newStar d time
  return ⟨none, time, disk, bulge, .ofRows rows⟩

/-- The sequence of the snapshots of some times, drawn in the order of the list. -/
def sequence (c : Collision F) (d : Densities F) (times : List F) : Draws S (Sequence F) := do
  let snapshots ← times.mapM fun t => c.snapshot d t
  return .ofSnapshots snapshots

end Collision

end Starfilm
