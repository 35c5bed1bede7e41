import Starfilm.Arith

/-!
# Positions, points and axes

Particles have positions in space; a view turns them into points of the screen.
-/

namespace Starfilm

/-- A position in space. -/
structure Position (F : Type) where
  x : F
  y : F
  z : F
  deriving DecidableEq, Repr

/-- A point of the screen. -/
structure Point (F : Type) where
  x : F
  y : F
  deriving DecidableEq, Repr

/-- Both coordinates are finite. -/
def Point.isFinite {F : Type} [Arith F] (p : Point F) : Bool :=
  Arith.isFinite p.x && Arith.isFinite p.y

/-- An axis of space. -/
inductive Axis where
  | x
  | y
  | z
  deriving DecidableEq, Repr

namespace Axis

/-- The place of an axis, from `0`. -/
def index : Axis → Nat
  | x => 0
  | y => 1
  | z => 2

/-- The axis in a place. -/
def ofIndex? : Nat → Option Axis
  | 0 => some x
  | 1 => some y
  | 2 => some z
  | _ => none

theorem ofIndex?_index (a : Axis) : ofIndex? a.index = some a := by
  cases a <;> rfl

/-- The name of an axis. -/
def name : Axis → String
  | x => "x"
  | y => "y"
  | z => "z"

/-- The axis with a name. -/
def ofName? (s : String) : Option Axis := [x, y, z].find? fun a => a.name = s

end Axis

/-- The coordinate of a position along an axis. -/
def Position.along {F : Type} (p : Position F) : Axis → F
  | .x => p.x
  | .y => p.y
  | .z => p.z

end Starfilm
