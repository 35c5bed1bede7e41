import Starfilm.Arith

/-!
# Elementary functions

The functions beyond arithmetic that rotations and random distributions call. As in `Arith`,
no law is asked; a statement that needs one, such as `cos a ^ 2 + sin a ^ 2 = 1`, names it.
-/

namespace Starfilm

/-- Trigonometry and exponentials. -/
class Elementary (F : Type) where
  sin : F → F
  cos : F → F
  exp : F → F
  ln : F → F
  sqrt : F → F
  /-- Half the circumference of the unit circle. -/
  pi : F

/-- Degrees as radians: the factor is formed first, so that every angle sees the same one. -/
def Elementary.radians {F : Type} [Arith F] [Elementary F] (degrees : F) : F :=
  degrees * (pi / Arith.nat 180)

end Starfilm
