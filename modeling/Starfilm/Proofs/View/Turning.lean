import Starfilm.Proofs.Arith.Reals
import Starfilm.Proofs.View.Points

/-!
# Tilts are turns

With exact arithmetic the matrix of a rotation about `x` or `z` turns the two other coordinates by
the cosine and the sine of its angle (`rotationAbout_unitX`, `rotationAbout_unitZ`). Of these two
numbers nothing is used but that their squares add up to one (`Circular`).

A turn keeps products, it takes differences to differences, and the cross product of two positions
to that of their images (`Turn`). So it keeps distances and mirrors nothing. A tilt is a turn about
`x` followed by one about `z`, and turns can be put together (`Turn.comp`).

**Main statement**: `rotate_turned`.
-/

namespace Starfilm

section Positions

variable {F : Type} [Arith F]

namespace Position

/-- The way from `q` to `p`. -/
def sub (p q : Position F) : Position F := ⟨p.x - q.x, p.y - q.y, p.z - q.z⟩

/-- The cross product, which is right-handed. -/
def cross (p q : Position F) : Position F :=
  ⟨p.y * q.z - p.z * q.y, p.z * q.x - p.x * q.z, p.x * q.y - p.y * q.x⟩

/-- The distance of two positions. -/
def distance [Elementary F] (p q : Position F) : F :=
  Elementary.sqrt (Matrix3.dot (p.sub q) (p.sub q))

/-- A position turned about `x`, from `y` towards `z`, by an angle with this cosine and this
sine. -/
def turnX (c s : F) (p : Position F) : Position F := ⟨p.x, c * p.y - s * p.z, s * p.y + c * p.z⟩

/-- A position turned about `z`, from `x` towards `y`. -/
def turnZ (c s : F) (p : Position F) : Position F := ⟨c * p.x - s * p.y, s * p.x + c * p.y, p.z⟩

end Position

/-- The cosine and the sine of an angle in degrees, as rotations take them: of an angle of zero they
are one and zero, whatever the functions say. -/
def cosSin [Elementary F] (angle : F) : F × F :=
  if Arith.eqv (Elementary.radians angle) (Arith.nat 0) then (Arith.nat 1, Arith.nat 0)
  else (Elementary.cos (Elementary.radians angle), Elementary.sin (Elementary.radians angle))

/-- A position turned about `x` and then about `z`, by angles in degrees. -/
def Position.turn [Elementary F] (angleX angleZ : F) (p : Position F) : Position F :=
  (p.turnX (cosSin angleX).1 (cosSin angleX).2).turnZ (cosSin angleZ).1 (cosSin angleZ).2

/-- Finite positions are turned as one rigid body. -/
structure Turn (turn : Position F → Position F) : Prop where
  isFinite {p : Position F} : p.isFinite = true → (turn p).isFinite = true
  dot {p q : Position F} : p.isFinite = true → q.isFinite = true →
    Matrix3.dot (turn p) (turn q) = Matrix3.dot p q
  sub {p q : Position F} : p.isFinite = true → q.isFinite = true →
    (turn p).sub (turn q) = turn (p.sub q)
  cross {p q : Position F} : p.isFinite = true → q.isFinite = true →
    (turn p).cross (turn q) = turn (p.cross q)

/-- The positions `qs` are the positions `ps`, in their order, turned as one rigid body. -/
structure Turned [Elementary F] (turn : Position F → Position F) (ps qs : List (Position F)) :
    Prop where
  length_eq : qs.length = ps.length
  place (i : ℕ) (hi : i < ps.length) (hi' : i < qs.length) : qs[i] = turn ps[i]
  dot (i j : ℕ) (hi : i < ps.length) (hj : j < ps.length) (hi' : i < qs.length)
    (hj' : j < qs.length) : Matrix3.dot qs[i] qs[j] = Matrix3.dot ps[i] ps[j]
  distance (i j : ℕ) (hi : i < ps.length) (hj : j < ps.length) (hi' : i < qs.length)
    (hj' : j < qs.length) : qs[i].distance qs[j] = ps[i].distance ps[j]
  /-- Nothing is mirrored. -/
  cross (i j : ℕ) (hi : i < ps.length) (hj : j < ps.length) (hi' : i < qs.length)
    (hj' : j < qs.length) : qs[i].cross qs[j] = turn (ps[i].cross ps[j])

end Positions

variable {K : Type} [Field K] [LinearOrder K] [IsStrictOrderedRing K] [FloorRing K]

open Exact

/-- Cosines and sines of finite angles are the coordinates of points on the unit circle. -/
structure Circular (K : Type) [Field K] [LinearOrder K] [IsStrictOrderedRing K] [FloorRing K]
    [Elementary (Exact K)] : Prop where
  isFinite_pi : Arith.isFinite (Elementary.pi : Exact K) = true
  circle (a : K) : ∃ c s : K, Elementary.cos (finite a) = finite c ∧
    Elementary.sin (finite a) = finite s ∧ c ^ 2 + s ^ 2 = 1

theorem Circular.real : Circular ℝ where
  isFinite_pi := rfl
  circle a := ⟨Real.cos a, Real.sin a, rfl, rfl, Real.cos_sq_add_sin_sq a⟩

namespace Position

theorem exists_of_isFinite {p : Position (Exact K)} (h : p.isFinite = true) :
    ∃ x y z : K, p = ⟨finite x, finite y, finite z⟩ := by
  simp only [isFinite, Bool.and_eq_true] at h
  obtain ⟨⟨hx, hy⟩, hz⟩ := h
  refine ⟨p.x.val, p.y.val, p.z.val, ?_⟩
  rw [finite_val hx, finite_val hy, finite_val hz]

theorem isFinite_sub {p q : Position (Exact K)} (hp : p.isFinite = true) (hq : q.isFinite = true) :
    (p.sub q).isFinite = true := by
  obtain ⟨x, y, z, rfl⟩ := exists_of_isFinite hp
  obtain ⟨u, v, w, rfl⟩ := exists_of_isFinite hq
  rfl

end Position

/-! ## Turns -/

namespace Turn

variable {f g : Position (Exact K) → Position (Exact K)}

/-- Distances are kept, since differences and their products are. -/
theorem distance [Elementary (Exact K)] (hf : Turn f) {p q : Position (Exact K)}
    (hp : p.isFinite = true) (hq : q.isFinite = true) : (f p).distance (f q) = p.distance q := by
  have hsub := Position.isFinite_sub hp hq
  rw [Position.distance, hf.sub hp hq, hf.dot hsub hsub, Position.distance]

theorem comp (hg : Turn g) (hf : Turn f) : Turn fun p => g (f p) where
  isFinite hp := hg.isFinite (hf.isFinite hp)
  dot hp hq := by rw [hg.dot (hf.isFinite hp) (hf.isFinite hq), hf.dot hp hq]
  sub hp hq := by rw [hg.sub (hf.isFinite hp) (hf.isFinite hq), hf.sub hp hq]
  cross hp hq := by rw [hg.cross (hf.isFinite hp) (hf.isFinite hq), hf.cross hp hq]

/-- The images of some positions under a turn. -/
theorem turned_map [Elementary (Exact K)] (hf : Turn f) {ps : List (Position (Exact K))}
    (hps : ∀ p ∈ ps, p.isFinite = true) : Turned f ps (ps.map f) := by
  have hfinite (i : ℕ) (hi : i < ps.length) : ps[i].isFinite = true := hps _ (List.getElem_mem hi)
  constructor
  case length_eq => exact List.length_map f
  case place => intro i hi hi'; exact List.getElem_map f
  all_goals
    intro i j hi hj hi' hj'
    rw [List.getElem_map, List.getElem_map]
  · exact hf.dot (hfinite i hi) (hfinite j hj)
  · exact hf.distance (hfinite i hi) (hfinite j hj)
  · exact hf.cross (hfinite i hi) (hfinite j hj)

end Turn

section Axes

variable {c s : K} (h : c ^ 2 + s ^ 2 = 1)

include h

omit [FloorRing K] in
/-- Turning two coordinates keeps their part of a product. -/
theorem turned_mul_add_mul (x y u v : K) :
    (c * x - s * y) * (c * u - s * v) + (s * x + c * y) * (s * u + c * v) = x * u + y * v := by
  linear_combination (x * u + y * v) * h

omit [FloorRing K] in
/-- Turning two coordinates keeps the area that they span. -/
theorem turned_mul_sub_mul (x y u v : K) :
    (c * x - s * y) * (s * u + c * v) - (s * x + c * y) * (c * u - s * v) = x * v - y * u := by
  linear_combination (x * v - y * u) * h

theorem turn_turnX : Turn (Position.turnX (finite c : Exact K) (finite s)) := by
  constructor
  case isFinite =>
    intro p hp
    obtain ⟨x, y, z, rfl⟩ := Position.exists_of_isFinite hp
    rfl
  all_goals
    intro p q hp hq
    obtain ⟨x, y, z, rfl⟩ := Position.exists_of_isFinite hp
    obtain ⟨u, v, w, rfl⟩ := Position.exists_of_isFinite hq
    simp only [Position.turnX, Position.sub, Position.cross, Matrix3.dot, finite_mul, finite_sub,
      finite_add, Position.mk.injEq, finite.injEq]
  · linear_combination turned_mul_add_mul h y z v w
  · exact ⟨trivial, by ring, by ring⟩
  · exact ⟨turned_mul_sub_mul h y z v w, by ring, by ring⟩

theorem turn_turnZ : Turn (Position.turnZ (finite c : Exact K) (finite s)) := by
  constructor
  case isFinite =>
    intro p hp
    obtain ⟨x, y, z, rfl⟩ := Position.exists_of_isFinite hp
    rfl
  all_goals
    intro p q hp hq
    obtain ⟨x, y, z, rfl⟩ := Position.exists_of_isFinite hp
    obtain ⟨u, v, w, rfl⟩ := Position.exists_of_isFinite hq
    simp only [Position.turnZ, Position.sub, Position.cross, Matrix3.dot, finite_mul, finite_sub,
      finite_add, Position.mk.injEq, finite.injEq]
  · linear_combination turned_mul_add_mul h x y u v
  · exact ⟨by ring, by ring, trivial⟩
  · exact ⟨by ring, by ring, turned_mul_sub_mul h x y u v⟩

end Axes

/-! ## Matrices -/

section Matrices

variable [Elementary (Exact K)] {c s : K} {a : Exact K}

/-- The rotation about `x` turns `y` towards `z`. -/
theorem rotationAbout_unitX (h : cosSin a = (finite c, finite s)) :
    rotationAbout unitX (Elementary.radians a) =
      ⟨⟨finite 1, finite 0, finite 0⟩, ⟨finite 0, finite c, finite (-s)⟩,
        ⟨finite 0, finite s, finite c⟩⟩ := by
  rw [cosSin] at h
  rw [rotationAbout]
  split_ifs at h ⊢
  all_goals simp only [Arith.nat, ofInt_eq, Prod.mk.injEq, finite.injEq] at h
  · obtain ⟨rfl, rfl⟩ := h
    simp [Matrix3.identity]
  · simp [unitX, h.1, h.2]

/-- The rotation about `z` turns `x` towards `y`. -/
theorem rotationAbout_unitZ (h : cosSin a = (finite c, finite s)) :
    rotationAbout unitZ (Elementary.radians a) =
      ⟨⟨finite c, finite (-s), finite 0⟩, ⟨finite s, finite c, finite 0⟩,
        ⟨finite 0, finite 0, finite 1⟩⟩ := by
  rw [cosSin] at h
  rw [rotationAbout]
  split_ifs at h ⊢
  all_goals simp only [Arith.nat, ofInt_eq, Prod.mk.injEq, finite.injEq] at h
  · obtain ⟨rfl, rfl⟩ := h
    simp [Matrix3.identity]
  · simp [unitZ, h.1, h.2]

section Circle

variable (hcircle : Circular K)

include hcircle

/-- A finite angle has a cosine and a sine on the unit circle. -/
theorem exists_cosSin (ha : Arith.isFinite a = true) :
    ∃ c s : K, cosSin a = (finite c, finite s) ∧ c ^ 2 + s ^ 2 = 1 := by
  obtain ⟨r, hr⟩ : ∃ r, Elementary.radians a = finite r := by
    rw [Elementary.radians, ← finite_val hcircle.isFinite_pi, ← finite_val ha, Arith.nat, ofInt_eq,
      finite_div _ _ (by norm_num), finite_mul]
    exact ⟨_, rfl⟩
  rw [cosSin, hr]
  split_ifs
  · exact ⟨1, 0, by simp, by ring⟩
  · obtain ⟨c, s, hc, hs, h⟩ := hcircle.circle r
    exact ⟨c, s, by rw [hc, hs], h⟩

/-- An angle of zero turns nothing. -/
theorem cosSin_zero : cosSin (Arith.nat 0 : Exact K) = (finite 1, finite 0) := by
  have hzero : Elementary.radians (Arith.nat 0 : Exact K) = finite 0 := by
    rw [Elementary.radians, ← finite_val hcircle.isFinite_pi, Arith.nat, Arith.nat, ofInt_eq,
      ofInt_eq, finite_div _ _ (by norm_num), finite_mul, Nat.cast_zero, Int.cast_zero, zero_mul]
  rw [cosSin, hzero]
  simp

variable {angleX angleZ : Exact K} (hx : Arith.isFinite angleX = true)
  (hz : Arith.isFinite angleZ = true)

include hx hz

/-- **A tilt turns about `x` first**, then about `z`. -/
theorem tilt_apply {p : Position (Exact K)} (hp : p.isFinite = true) :
    (tilt angleX angleZ).apply p = p.turn angleX angleZ := by
  obtain ⟨c, s, hcs, -⟩ := exists_cosSin hcircle hx
  obtain ⟨d, t, hdt, -⟩ := exists_cosSin hcircle hz
  obtain ⟨x, y, z, rfl⟩ := Position.exists_of_isFinite hp
  rw [tilt, rotationAbout_unitX hcs, rotationAbout_unitZ hdt, Position.turn, hcs, hdt]
  simp only [Matrix3.mul, Matrix3.transpose, Matrix3.apply, Matrix3.dot, Position.turnX,
    Position.turnZ, finite_mul, finite_add, finite_sub, Position.mk.injEq, finite.injEq]
  exact ⟨by ring, by ring, by ring⟩

theorem turn_turn : Turn (Position.turn angleX angleZ) := by
  obtain ⟨c, s, hcs, hc⟩ := exists_cosSin hcircle hx
  obtain ⟨d, t, hdt, hd⟩ := exists_cosSin hcircle hz
  have h := (turn_turnZ hd).comp (turn_turnX hc)
  unfold Position.turn
  rwa [hcs, hdt]

theorem rotate_eq_map_turn {ps : List (Position (Exact K))} (hps : ∀ p ∈ ps, p.isFinite = true) :
    rotate angleX angleZ ps = ps.map (Position.turn angleX angleZ) :=
  List.map_congr_left fun p hp => tilt_apply hcircle hx hz (hps p hp)

/-- The two turns of a tilt, one after the other. -/
theorem turn_turn_of_isFinite {p : Position (Exact K)} (hp : p.isFinite = true) :
    (p.turn angleX (Arith.nat 0)).turn (Arith.nat 0) angleZ = p.turn angleX angleZ := by
  obtain ⟨c, s, hcs, -⟩ := exists_cosSin hcircle hx
  obtain ⟨d, t, hdt, -⟩ := exists_cosSin hcircle hz
  obtain ⟨x, y, z, rfl⟩ := Position.exists_of_isFinite hp
  simp only [Position.turn, hcs, hdt, cosSin_zero hcircle]
  simp [Position.turnX, Position.turnZ]

/-- **A tilt is a proper rotation, about `x` first.** Finite angles turn finite positions as one
rigid body, without mirroring it and in the order in which they are listed, first about `x` from `y`
towards `z` and then about `z` from `x` towards `y`; the same comes of a tilt about `x` alone and
then one about `z` alone. On the screen the first two coordinates of the turned positions are
seen. -/
theorem rotate_turned {ps : List (Position (Exact K))} (hps : ∀ p ∈ ps, p.isFinite = true) :
    Turned (Position.turn angleX angleZ) ps (rotate angleX angleZ ps) ∧
      rotate angleX angleZ ps =
        rotate (Arith.nat 0) angleZ (rotate angleX (Arith.nat 0) ps) ∧
      (Transform.tilt angleX angleZ).project ps =
        (rotate angleX angleZ ps).map fun p => ⟨p.x, p.y⟩ := by
  have hzero : Arith.isFinite (Arith.nat 0 : Exact K) = true := rfl
  have hturn := turn_turn hcircle hx hzero
  refine ⟨?_, ?_, rfl⟩
  · rw [rotate_eq_map_turn hcircle hx hz hps]
    exact (turn_turn hcircle hx hz).turned_map hps
  · have hps' : ∀ p ∈ ps.map (Position.turn angleX (Arith.nat 0)), p.isFinite = true := by
      intro p hp
      obtain ⟨q, hq, rfl⟩ := List.mem_map.1 hp
      exact hturn.isFinite (hps q hq)
    rw [rotate_eq_map_turn hcircle hx hzero hps, rotate_eq_map_turn hcircle hzero hz hps',
      rotate_eq_map_turn hcircle hx hz hps, List.map_map]
    exact List.map_congr_left fun p hp => (turn_turn_of_isFinite hcircle hx hz (hps p hp)).symm

end Circle

end Matrices

/-- Quarter turns about both axes: what lies along `z` comes to `x`, and what lies along `y` to
`z`. -/
theorem rotate_turned_quarters :
    let quarter : Exact ℝ := finite 90
    let ps : List (Position (Exact ℝ)) :=
      [⟨finite 0, finite 0, finite 1⟩, ⟨finite 0, finite 1, finite 0⟩]
    (Circular ℝ ∧ Arith.isFinite quarter = true ∧ ∀ p ∈ ps, p.isFinite = true) ∧
      Turned (Position.turn quarter quarter) ps (rotate quarter quarter ps) ∧
      ps.map (Position.turn quarter quarter) =
        [⟨finite 1, finite 0, finite 0⟩, ⟨finite 0, finite 0, finite 1⟩] ∧
      (Transform.tilt quarter quarter).project ps =
        (rotate quarter quarter ps).map fun p => ⟨p.x, p.y⟩ := by
  intro quarter ps
  have hps : ∀ p ∈ ps, p.isFinite = true := by
    intro p hp
    simp only [ps, List.mem_cons, List.not_mem_nil, or_false] at hp
    rcases hp with rfl | rfl <;> rfl
  have hradians : Elementary.radians quarter = finite (Real.pi / 2) := by
    change finite 90 * (finite Real.pi / finite ((180 : ℤ) : ℝ)) = _
    rw [finite_div _ _ (by norm_num), finite_mul]
    congr 1
    push_cast
    ring
  have hcosSin : cosSin quarter = (finite 0, finite 1) := by
    rw [cosSin, hradians]
    change (if Arith.eqv (finite (Real.pi / 2)) (finite ((0 : ℤ) : ℝ)) then _ else
      (finite (Real.cos (Real.pi / 2)), finite (Real.sin (Real.pi / 2)))) = _
    have hne : Real.pi / 2 ≠ 0 := (by positivity : (0 : ℝ) < Real.pi / 2).ne'
    simp [hne]
  have hquarter : Arith.isFinite quarter = true := rfl
  obtain ⟨hturned, -, hproject⟩ := rotate_turned Circular.real hquarter hquarter hps
  refine ⟨⟨Circular.real, rfl, hps⟩, hturned, ?_, hproject⟩
  simp [ps, Position.turn, Position.turnX, Position.turnZ, hcosSin]

end Starfilm
