import Starfilm.Frame
import Starfilm.Proofs.Arith.Exact
import Starfilm.Proofs.View.Points
import Starfilm.Window

/-!
# Units of length

Positions, points, windows, snapshots and frames in another unit of length are those with all
coordinates multiplied by one number, their `scale`. With exact arithmetic multiplication by a
positive number passes through sums and products, also where these are infinite or no number, so
what is seen of scaled positions is the scaled view of them (`ViewMode.pointBy_scale`). Nothing is
asked of the matrix of a tilt.
-/

namespace Starfilm

/-! ## Lengths in another unit -/

section Scale

variable {F : Type} [Mul F] (a : F)

def Position.scale (p : Position F) : Position F := ⟨a * p.x, a * p.y, a * p.z⟩

def Point.scale (p : Point F) : Point F := ⟨a * p.x, a * p.y⟩

def Window.scale (w : Window F) : Window F := ⟨a * w.xmin, a * w.xmax, a * w.ymin, a * w.ymax⟩

/-- The stars with their positions scaled. Their masses and ages are no lengths. -/
def NewStars.scale (s : NewStars F) : NewStars F where
  positions := s.positions.map (·.scale a)
  masses := s.masses
  formationTimes := s.formationTimes
  masses_length := by rw [s.masses_length, List.length_map]
  formationTimes_length := by rw [s.formationTimes_length, List.length_map]

def Snapshot.scale (t : Snapshot F) : Snapshot F :=
  { t with
    disk := t.disk.map (·.scale a)
    bulge := t.bulge.map (·.scale a)
    newStars := t.newStars.scale a }

def Frame.scale (f : Frame F) : Frame F :=
  { f with
    disk := f.disk.map (·.scale a)
    bulge := f.bulge.map (·.scale a)
    newStars := f.newStars.map (·.scale a) }

end Scale

/-! ## Frames by a map of positions -/

section Views

variable {F : Type} [Arith F]

/-- A snapshot whose positions are seen through some map. -/
def Snapshot.seenBy (view : Position F → Point F) (t : Snapshot F) : Frame F where
  time := t.time
  disk := t.disk.map view
  bulge := t.bulge.map view
  newStars := t.newStars.positions.map view
  newStarMass := t.newStars.totalMass

theorem Frame.ofSnapshot_eq_seenBy [Elementary F] (tr : Transform F) (t : Snapshot F) :
    Frame.ofSnapshot tr t = t.seenBy tr.point := by
  simp only [Frame.ofSnapshot, Transform.project_eq_map, Snapshot.seenBy]

theorem Snapshot.seenBy_scale {a : F} {view : Position F → Point F}
    (h : ∀ p, view (p.scale a) = (view p).scale a) (t : Snapshot F) :
    (t.scale a).seenBy view = (t.seenBy view).scale a := by
  simp only [seenBy, scale, NewStars.scale, Frame.scale, List.map_map, Function.comp_def, h]
  rfl

namespace ViewMode

/-- Where a view sends a position, if its tilt has the matrix `m`. -/
def pointBy (m : Matrix3 F) : ViewMode F → Position F → Point F
  | faceOn, p => ⟨p.x, p.y⟩
  | edgeOn, p => ⟨p.x, p.z⟩
  | tilted _ _, p => ⟨Matrix3.dot m.row₁ p, Matrix3.dot m.row₂ p⟩

/-- The matrix of a view's tilt. -/
def matrix [Elementary F] : ViewMode F → Matrix3 F
  | faceOn => Matrix3.identity
  | edgeOn => Matrix3.identity
  | tilted angleX angleZ => tilt angleX angleZ

theorem transform_point [Elementary F] (mode : ViewMode F) :
    mode.transform.point = mode.pointBy mode.matrix := by
  cases mode <;> rfl

end ViewMode

end Views

/-! ## Multiplication by a positive number -/

variable {K : Type} [Field K] [LinearOrder K] [IsStrictOrderedRing K] [FloorRing K]

namespace Exact

theorem val_finite_mul (a : K) (x : Exact K) : (finite a * x).val = a * x.val := by
  obtain x | s | _ := x
  · rfl
  · rw [show finite a * infinite s = scaleInfinity s a from rfl, scaleInfinity]
    split_ifs <;> exact (mul_zero a).symm
  · exact (mul_zero a).symm

theorem isFinite_finite_mul (a : K) (x : Exact K) :
    Arith.isFinite (finite a * x) = Arith.isFinite x := by
  rw [isFinite_mul, isFinite_finite, Bool.true_and]

variable {a : K} (ha : 0 < a)

include ha

theorem finite_mul_infinite (s : Bool) : finite a * infinite s = (infinite s : Exact K) := by
  change scaleInfinity s a = _
  rw [scaleInfinity, if_neg ha.ne', decide_eq_false ha.not_gt, Bool.xor_false]

theorem finite_mul_scaleInfinity (s : Bool) (b : K) :
    finite a * scaleInfinity s b = scaleInfinity s b := by
  unfold scaleInfinity
  split_ifs
  · rfl
  · exact finite_mul_infinite ha _

theorem finite_mul_add (x y : Exact K) :
    finite a * (x + y) = finite a * x + finite a * y := by
  cases x with
  | finite x =>
    cases y with
    | finite y => exact congrArg finite (mul_add a x y)
    | infinite t =>
      rw [finite_mul_infinite ha]
      exact finite_mul_infinite ha t
    | nan => rfl
  | infinite s =>
    cases y with
    | finite y =>
      rw [finite_mul_infinite ha]
      exact finite_mul_infinite ha s
    | infinite t =>
      rw [finite_mul_infinite ha, finite_mul_infinite ha]
      change finite a * (if s = t then infinite s else nan) = if s = t then infinite s else nan
      split_ifs
      · exact finite_mul_infinite ha s
      · rfl
    | nan =>
      rw [finite_mul_infinite ha]
      rfl
  | nan => cases y <;> rfl

theorem mul_finite_mul (x y : Exact K) : x * (finite a * y) = finite a * (x * y) := by
  cases x with
  | finite x =>
    cases y with
    | finite y => exact congrArg finite (mul_left_comm x a y)
    | infinite t =>
      rw [finite_mul_infinite ha]
      exact (finite_mul_scaleInfinity ha t x).symm
    | nan => rfl
  | infinite s =>
    cases y with
    | finite y =>
      have hscale : scaleInfinity s (a * y) = scaleInfinity s y := by
        simp only [scaleInfinity, mul_eq_zero, mul_neg_iff, ha.ne', ha, ha.not_gt, false_or,
          true_and, false_and, or_false]
      exact hscale.trans (finite_mul_scaleInfinity ha s y).symm
    | infinite t =>
      rw [finite_mul_infinite ha]
      exact (finite_mul_infinite ha _).symm
    | nan => rfl
  | nan => cases y <;> rfl

/-- A positive factor keeps the order. -/
theorem le_finite_mul (x y : Exact K) :
    Arith.le (finite a * x) (finite a * y) = Arith.le x y := by
  cases x with
  | finite x =>
    cases y with
    | finite y => exact decide_eq_decide.2 (mul_le_mul_iff_right₀ ha)
    | infinite t =>
      rw [finite_mul_infinite ha]
      rfl
    | nan => rfl
  | infinite s =>
    rw [finite_mul_infinite ha]
    cases y with
    | finite y => rfl
    | infinite t => rw [finite_mul_infinite ha]
    | nan => rfl
  | nan => cases y <;> rfl

end Exact

/-! ## Views in another unit -/

section Scaled

open Exact

variable {a : K} (ha : 0 < a)

include ha

theorem Matrix3.dot_scale (u v : Position (Exact K)) :
    dot u (v.scale (finite a)) = finite a * dot u v := by
  simp only [dot, Position.scale, finite_mul_add ha, mul_finite_mul ha]

/-- **A view of scaled positions** is the scaled view of them, whatever the matrix of a tilt is. -/
theorem ViewMode.pointBy_scale (m : Matrix3 (Exact K)) (mode : ViewMode (Exact K))
    (p : Position (Exact K)) :
    mode.pointBy m (p.scale (finite a)) = (mode.pointBy m p).scale (finite a) := by
  cases mode with
  | faceOn => rfl
  | edgeOn => rfl
  | tilted angleX angleZ =>
    simp only [pointBy, Point.scale, Matrix3.dot_scale ha]

end Scaled

theorem Point.isFinite_scale (a : K) (p : Point (Exact K)) :
    (p.scale (.finite a)).isFinite = p.isFinite := by
  simp only [isFinite, scale, Exact.isFinite_finite_mul]

end Starfilm
