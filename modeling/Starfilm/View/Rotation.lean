import Starfilm.Arith.Elementary
import Starfilm.View.Axis

/-!
# Rotations

A tilt is a rotation about the `x` axis followed by one about the `z` axis, both right-handed, both
given in degrees. The matrix of a rotation about a unit axis is Rodrigues' formula entry by entry;
for an angle of zero it is the identity, without any rounding. A product of matrices sums three
products from the left, and no term is left out: zero times infinity is no number.
-/

namespace Starfilm

variable {F : Type} [Arith F] [Elementary F]

/-- A matrix of three rows. -/
structure Matrix3 (F : Type) where
  row₁ : Position F
  row₂ : Position F
  row₃ : Position F
  deriving DecidableEq, Repr

namespace Matrix3

/-- The product of a row and a column. -/
def dot (u v : Position F) : F := u.x * v.x + u.y * v.y + u.z * v.z

/-- The image of a position. -/
def apply (m : Matrix3 F) (p : Position F) : Position F :=
  ⟨dot m.row₁ p, dot m.row₂ p, dot m.row₃ p⟩

/-- The columns as rows. -/
def transpose (m : Matrix3 F) : Matrix3 F :=
  ⟨⟨m.row₁.x, m.row₂.x, m.row₃.x⟩, ⟨m.row₁.y, m.row₂.y, m.row₃.y⟩,
    ⟨m.row₁.z, m.row₂.z, m.row₃.z⟩⟩

/-- The product of two matrices: the right one acts first. -/
def mul (a b : Matrix3 F) : Matrix3 F :=
  let t := b.transpose
  let row (u : Position F) : Position F := ⟨dot u t.row₁, dot u t.row₂, dot u t.row₃⟩
  ⟨row a.row₁, row a.row₂, row a.row₃⟩

/-- The matrix that leaves everything in place. -/
def identity : Matrix3 F :=
  let o : F := Arith.nat 0
  let i : F := Arith.nat 1
  ⟨⟨i, o, o⟩, ⟨o, i, o⟩, ⟨o, o, i⟩⟩

end Matrix3

/-- The right-handed rotation about the unit axis `u` by an angle in radians. -/
def rotationAbout (u : Position F) (angle : F) : Matrix3 F :=
  if Arith.eqv angle (Arith.nat 0) then Matrix3.identity else
    let one : F := Arith.nat 1
    let s := Elementary.sin angle
    let c := Elementary.cos angle
    let diagonal (a : F) : F := a * a + (one - a * a) * c
    let rest := one - c
    ⟨⟨diagonal u.x, u.x * u.y * rest - u.z * s, u.x * u.z * rest + u.y * s⟩,
      ⟨u.x * u.y * rest + u.z * s, diagonal u.y, u.y * u.z * rest - u.x * s⟩,
      ⟨u.x * u.z * rest - u.y * s, u.y * u.z * rest + u.x * s, diagonal u.z⟩⟩

/-- The unit position along `x`. -/
def unitX : Position F := ⟨Arith.nat 1, Arith.nat 0, Arith.nat 0⟩

/-- The unit position along `z`. -/
def unitZ : Position F := ⟨Arith.nat 0, Arith.nat 0, Arith.nat 1⟩

/-- The tilt by `angleX` degrees about `x`, then by `angleZ` degrees about `z`. -/
def tilt (angleX angleZ : F) : Matrix3 F :=
  (rotationAbout unitZ (Elementary.radians angleZ)).mul
    (rotationAbout unitX (Elementary.radians angleX))

/-- The positions after a tilt. -/
def rotate (angleX angleZ : F) (positions : List (Position F)) : List (Position F) :=
  let m := tilt angleX angleZ
  positions.map m.apply

end Starfilm
