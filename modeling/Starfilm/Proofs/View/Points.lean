import Starfilm.View.Mode

/-!
# Positions and the points at which they are seen

A transform sends every position to a point of its own (`Transform.project_eq_map`). Where it keeps
two coordinates, finite positions are seen at finite points.
-/

namespace Starfilm

/-- All three coordinates are finite. -/
def Position.isFinite {F : Type} [Arith F] (p : Position F) : Bool :=
  Arith.isFinite p.x && Arith.isFinite p.y && Arith.isFinite p.z

/-- The angles of a view are finite, if it has any. -/
def ViewMode.HasFiniteAngles {F : Type} [Arith F] : ViewMode F → Prop
  | faceOn => True
  | edgeOn => True
  | tilted angleX angleZ => Arith.isFinite angleX = true ∧ Arith.isFinite angleZ = true

/-! ## Points -/

section Points

variable {F : Type} [Arith F]

theorem Position.isFinite_along {p : Position F} (h : p.isFinite = true) (a : Axis) :
    Arith.isFinite (p.along a) = true := by
  simp only [isFinite, Bool.and_eq_true] at h
  cases a with
  | x => exact h.1.1
  | y => exact h.1.2
  | z => exact h.2

variable [Elementary F]

/-- Where a transform sends a position. -/
def Transform.point : Transform F → Position F → Point F
  | keep a b, p => ⟨p.along a, p.along b⟩
  | tilt angleX angleZ, p =>
    let q := (Starfilm.tilt angleX angleZ).apply p
    ⟨q.x, q.y⟩

theorem Transform.project_eq_map (t : Transform F)
    (ps : List (Position F)) : t.project ps = ps.map t.point := by
  cases t with
  | keep a b => rfl
  | tilt angleX angleZ => exact List.map_map

/-- Two coordinates of a finite position make a finite point. -/
theorem Transform.isFinite_point_keep {p : Position F} (h : p.isFinite = true) (a b : Axis) :
    ((keep a b).point p).isFinite = true :=
  Bool.and_eq_true_iff.2 ⟨Position.isFinite_along h a, Position.isFinite_along h b⟩

end Points

end Starfilm
