import Starfilm.Proofs.Arith.Finiteness
import Starfilm.Proofs.Arith.Interpolation
import Starfilm.Proofs.View.Points

/-!
# Views of finite positions in double precision

A product of matrices looks at all entries of both. So a tilt by an angle that is not finite shows
no position at a finite point (`ViewMode.hasFiniteAngles_of_isFinite_point`). With finite angles the
entries of its matrix are small, and a position is seen at a point that is not much further away
than the position is (`ViewMode.atMost_point`).

How well sines and cosines are rounded is left open. All that is asked of them is that they are
small for finite angles, and that a cosine is finite for no other angle (`Trigonometric`).
-/

namespace Starfilm

/-- Sines and cosines of finite angles are finite and at most two, and only these cosines are
finite. Half the circumference of the unit circle is at most four. -/
structure Trigonometric [Elementary Double] : Prop where
  isFinite_of_cos {a : Double} : Arith.isFinite (Elementary.cos a) = true → Arith.isFinite a = true
  cos {a : Double} : Arith.isFinite a = true → Double.AtMost (Elementary.cos a) 1
  sin {a : Double} : Arith.isFinite a = true → Double.AtMost (Elementary.sin a) 1
  pi : Double.AtMost Elementary.pi 2

/-! ## Bounded entries -/

/-- All three coordinates are finite and bounded by a power of two. -/
structure Position.AtMost (p : Position Double) (k : ℕ) : Prop where
  x : Double.AtMost p.x k
  y : Double.AtMost p.y k
  z : Double.AtMost p.z k

namespace Matrix3

/-- All entries are finite and bounded by a power of two. -/
structure AtMost (m : Matrix3 Double) (k : ℕ) : Prop where
  row₁ : m.row₁.AtMost k
  row₂ : m.row₂.AtMost k
  row₃ : m.row₃.AtMost k

variable {m n : Matrix3 Double} {u v : Position Double} {k l : ℕ}

theorem atMost_dot (hu : u.AtMost k) (hv : v.AtMost l) (hkl : k + l + 2 ≤ 1023) :
    Double.AtMost (dot u v) (k + l + 2) := by
  have hx := hu.x.mul hv.x (by omega)
  have hy := hu.y.mul hv.y (by omega)
  have hz := hu.z.mul hv.z (by omega)
  exact (hx.add hy (by omega)).add (hz.mono (Nat.le_succ _)) (by omega)

theorem AtMost.transpose (hm : m.AtMost k) : m.transpose.AtMost k :=
  ⟨⟨hm.row₁.x, hm.row₂.x, hm.row₃.x⟩, ⟨hm.row₁.y, hm.row₂.y, hm.row₃.y⟩,
    ⟨hm.row₁.z, hm.row₂.z, hm.row₃.z⟩⟩

theorem AtMost.apply (hm : m.AtMost k) (hv : v.AtMost l) (hkl : k + l + 2 ≤ 1023) :
    (m.apply v).AtMost (k + l + 2) :=
  ⟨atMost_dot hm.row₁ hv hkl, atMost_dot hm.row₂ hv hkl, atMost_dot hm.row₃ hv hkl⟩

/-- **The entries of a product are bounded** by those of the factors. -/
theorem AtMost.mul (hm : m.AtMost k) (hn : n.AtMost l) (hkl : k + l + 2 ≤ 1023) :
    (m.mul n).AtMost (k + l + 2) := by
  have hrow {w : Position Double} (hw : w.AtMost k) :
      Position.AtMost ⟨dot w n.transpose.row₁, dot w n.transpose.row₂, dot w n.transpose.row₃⟩
        (k + l + 2) :=
    ⟨atMost_dot hw hn.transpose.row₁ hkl, atMost_dot hw hn.transpose.row₂ hkl,
      atMost_dot hw hn.transpose.row₃ hkl⟩
  exact ⟨hrow hm.row₁, hrow hm.row₂, hrow hm.row₃⟩

/-- A product of a row and a column is finite only if both are. -/
theorem isFinite_of_dot (h : Arith.isFinite (dot u v) = true) :
    u.isFinite = true ∧ v.isFinite = true := by
  obtain ⟨hxy, hz⟩ := Double.isFinite_of_add h
  obtain ⟨hx, hy⟩ := Double.isFinite_of_add hxy
  obtain ⟨hux, hvx⟩ := Double.isFinite_of_mul hx
  obtain ⟨huy, hvy⟩ := Double.isFinite_of_mul hy
  obtain ⟨huz, hvz⟩ := Double.isFinite_of_mul hz
  simp only [Position.isFinite, Bool.and_eq_true]
  exact ⟨⟨⟨hux, huy⟩, huz⟩, ⟨hvx, hvy⟩, hvz⟩

end Matrix3

/-! ## Rotations -/

theorem nat_atMost {n k : ℕ} (hn : n ≤ 2 ^ k) (hk : k ≤ 53) : Double.AtMost (Arith.nat n) k := by
  obtain ⟨hfinite, hsize⟩ := Double.size_nat (hn.trans (Nat.pow_le_pow_right two_pos hk))
  refine ⟨hfinite, ?_⟩
  rw [hsize]
  exact_mod_cast hn

theorem zero_atMost : Double.AtMost (Arith.nat 0) 0 := nat_atMost zero_le_one (Nat.zero_le _)

theorem one_atMost : Double.AtMost (Arith.nat 1) 0 := nat_atMost le_rfl (Nat.zero_le _)

theorem unitX_atMost : unitX.AtMost 0 := ⟨one_atMost, zero_atMost, zero_atMost⟩

theorem unitZ_atMost : unitZ.AtMost 0 := ⟨zero_atMost, zero_atMost, one_atMost⟩

section Rotations

variable [Elementary Double] (ht : Trigonometric)

include ht

/-- An angle in radians is finite exactly when it is finite in degrees. -/
theorem isFinite_radians (a : Double) :
    Arith.isFinite (Elementary.radians a) = true ↔ Arith.isFinite a = true := by
  obtain ⟨hfinite, hsize⟩ := Double.size_nat (n := 180) (by norm_num)
  have hfactor : Double.AtMost (Elementary.pi / Arith.nat 180) 0 := by
    refine Double.AtMost.div (l := 2) ht.pi hfinite ?_ (Nat.zero_le _)
    rw [hsize]
    norm_num
  exact ⟨fun h => (Double.isFinite_of_mul h).1, fun h => Double.AtMost.isFinite_mul h hfactor⟩

variable {u : Position Double} {a : Double}

/-- The first entry of a rotation is finite for finite angles only. -/
theorem isFinite_of_rotationAbout (h : Arith.isFinite (rotationAbout u a).row₁.x = true) :
    Arith.isFinite a = true := by
  unfold rotationAbout at h
  split_ifs at h with hzero
  · rw [Arith.eqv, Bool.and_eq_true] at hzero
    exact Double.isFinite_of_le hzero.2 hzero.1 zero_atMost.isFinite
  · exact ht.isFinite_of_cos (Double.isFinite_of_mul (Double.isFinite_of_add h).2).2

/-- **A rotation by a finite angle has small entries.** -/
theorem rotationAbout_atMost (hu : u.AtMost 0) (ha : Arith.isFinite a = true) :
    (rotationAbout u a).AtMost 3 := by
  rw [rotationAbout]
  split_ifs
  · have hzero := zero_atMost.mono (Nat.zero_le 3)
    have hone := one_atMost.mono (Nat.zero_le 3)
    exact ⟨⟨hone, hzero, hzero⟩, ⟨hzero, hone, hzero⟩, ⟨hzero, hzero, hone⟩⟩
  · have hsin := ht.sin ha
    have hcos := ht.cos ha
    have hrest : Double.AtMost (Arith.nat 1 - Elementary.cos a) 2 :=
      (one_atMost.mono (Nat.zero_le 1)).sub hcos (by norm_num)
    have hdiagonal {b : Double} (hb : Double.AtMost b 0) :
        Double.AtMost (b * b + (Arith.nat 1 - b * b) * Elementary.cos a) 3 := by
      have hsquare : Double.AtMost (b * b) 0 := hb.mul hb (by norm_num)
      have hpart : Double.AtMost ((Arith.nat 1 - b * b) * Elementary.cos a) 2 :=
        (one_atMost.sub hsquare (by norm_num)).mul hcos (by norm_num)
      exact (hsquare.mono (Nat.zero_le 2)).add hpart (by norm_num)
    have hproduct {b c : Double} (hb : Double.AtMost b 0) (hc : Double.AtMost c 0) :
        Double.AtMost (b * c * (Arith.nat 1 - Elementary.cos a)) 2 :=
      (hb.mul hc (by norm_num)).mul hrest (by norm_num)
    have hturn {b : Double} (hb : Double.AtMost b 0) : Double.AtMost (b * Elementary.sin a) 2 :=
      (hb.mul hsin (by norm_num)).mono (by norm_num)
    refine ⟨⟨hdiagonal hu.x, ?_, ?_⟩, ⟨?_, hdiagonal hu.y, ?_⟩, ⟨?_, ?_, hdiagonal hu.z⟩⟩
    · exact (hproduct hu.x hu.y).sub (hturn hu.z) (by norm_num)
    · exact (hproduct hu.x hu.z).add (hturn hu.y) (by norm_num)
    · exact (hproduct hu.x hu.y).add (hturn hu.z) (by norm_num)
    · exact (hproduct hu.y hu.z).sub (hturn hu.x) (by norm_num)
    · exact (hproduct hu.x hu.z).sub (hturn hu.y) (by norm_num)
    · exact (hproduct hu.y hu.z).add (hturn hu.x) (by norm_num)

theorem tilt_atMost {angleX angleZ : Double} (hx : Arith.isFinite angleX = true)
    (hz : Arith.isFinite angleZ = true) : (tilt angleX angleZ).AtMost 8 :=
  (rotationAbout_atMost ht unitZ_atMost ((isFinite_radians ht _).2 hz)).mul
    (rotationAbout_atMost ht unitX_atMost ((isFinite_radians ht _).2 hx)) (by norm_num)

/-- The first row of a tilt is finite for finite angles only. -/
theorem isFinite_of_tilt {angleX angleZ : Double}
    (h : (tilt angleX angleZ).row₁.isFinite = true) :
    Arith.isFinite angleX = true ∧ Arith.isFinite angleZ = true := by
  simp only [Position.isFinite, Bool.and_eq_true] at h
  obtain ⟨hrow, hcolumn⟩ := Matrix3.isFinite_of_dot h.1.1
  simp only [Position.isFinite, Bool.and_eq_true] at hrow hcolumn
  exact ⟨(isFinite_radians ht _).1 (isFinite_of_rotationAbout ht hcolumn.1.1),
    (isFinite_radians ht _).1 (isFinite_of_rotationAbout ht hrow.1.1)⟩

end Rotations

/-! ## Points -/

/-- Both coordinates are finite and bounded by a power of two. -/
structure Point.AtMost (p : Point Double) (k : ℕ) : Prop where
  x : Double.AtMost p.x k
  y : Double.AtMost p.y k

theorem Point.AtMost.isFinite {p : Point Double} {k : ℕ} (h : p.AtMost k) : p.isFinite = true :=
  Bool.and_eq_true_iff.2 ⟨h.x.isFinite, h.y.isFinite⟩

/-- The coordinates that are finite are bounded by a power of two. -/
def Position.Within (p : Position Double) (k : ℕ) : Prop :=
  ∀ a, Arith.isFinite (p.along a) = true → Double.AtMost (p.along a) k

theorem Position.Within.atMost {p : Position Double} {k : ℕ} (h : p.Within k)
    (hp : p.isFinite = true) : p.AtMost k :=
  ⟨h .x (isFinite_along hp .x), h .y (isFinite_along hp .y), h .z (isFinite_along hp .z)⟩

namespace ViewMode

variable [Elementary Double] (ht : Trigonometric) {m : ViewMode Double} {p : Position Double}

include ht

/-- **Nothing is seen at a finite point** unless the angles of the view are finite. -/
theorem hasFiniteAngles_of_isFinite_point (h : (m.transform.point p).isFinite = true) :
    m.HasFiniteAngles := by
  cases m with
  | faceOn => exact trivial
  | edgeOn => exact trivial
  | tilted angleX angleZ =>
    exact isFinite_of_tilt ht (Matrix3.isFinite_of_dot (Bool.and_eq_true_iff.1 h).1).1

variable {k : ℕ} (hk : k + 10 ≤ 1023) (hp : p.Within k)

include hk hp

/-- **What is seen of bounded positions is bounded.** -/
theorem atMost_point_of_isFinite (h : (m.transform.point p).isFinite = true) :
    (m.transform.point p).AtMost (k + 10) := by
  have hkeep {a b : Axis} (h : ((Transform.keep a b).point p).isFinite = true) :
      ((Transform.keep a b).point p).AtMost (k + 10) := by
    obtain ⟨ha, hb⟩ := Bool.and_eq_true_iff.1 h
    exact ⟨(hp a ha).mono (Nat.le_add_right k 10), (hp b hb).mono (Nat.le_add_right k 10)⟩
  cases m with
  | faceOn => exact hkeep h
  | edgeOn => exact hkeep h
  | tilted angleX angleZ =>
    obtain ⟨hrow, hfinite⟩ := Matrix3.isFinite_of_dot (Bool.and_eq_true_iff.1 h).1
    obtain ⟨hx, hz⟩ := isFinite_of_tilt ht hrow
    have himage := (tilt_atMost ht hx hz).apply (hp.atMost hfinite) (by omega)
    rw [show 8 + k + 2 = k + 10 by omega] at himage
    exact ⟨himage.x, himage.y⟩

/-- **Bounded positions are seen at finite points**, when the angles of the view are finite. -/
theorem isFinite_point (hm : m.HasFiniteAngles) (hfinite : p.isFinite = true) :
    (m.transform.point p).isFinite = true := by
  cases m with
  | faceOn => exact Transform.isFinite_point_keep hfinite _ _
  | edgeOn => exact Transform.isFinite_point_keep hfinite _ _
  | tilted angleX angleZ =>
    have himage := (tilt_atMost ht hm.1 hm.2).apply (hp.atMost hfinite) (by omega)
    exact Bool.and_eq_true_iff.2 ⟨himage.x.isFinite, himage.y.isFinite⟩

end ViewMode

end Starfilm
