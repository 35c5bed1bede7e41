import Starfilm.View.Rotation

/-!
# From space to the screen

A transform either keeps two coordinates as they are or tilts the position and then keeps the first
two.
-/

namespace Starfilm

/-- A map from positions to points of the screen. -/
inductive Transform (F : Type) where
  /-- Keep the coordinates along two axes, in this order. -/
  | keep (across up : Axis)
  /-- Tilt, then keep the first two coordinates. -/
  | tilt (angleX angleZ : F)
  deriving DecidableEq, Repr

namespace Transform

variable {F : Type}

/-- Looking down the `z` axis. -/
def faceOn : Transform F := .keep .x .y

/-- Looking along the `y` axis. -/
def edgeOn : Transform F := .keep .x .z

/-- The points of a list of positions, in its order. -/
def project [Arith F] [Elementary F] : Transform F → List (Position F) → List (Point F)
  | .keep a b, positions => positions.map fun p => ⟨p.along a, p.along b⟩
  | .tilt angleX angleZ, positions =>
    (rotate angleX angleZ positions).map fun p => ⟨p.x, p.y⟩

end Transform

end Starfilm
