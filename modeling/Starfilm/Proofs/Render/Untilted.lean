import Starfilm.Proofs.Raster.ZeroSign
import Starfilm.Proofs.View.Scaling
import Starfilm.Render

/-!
# A tilt by nothing

A tilt by no angle multiplies every position by the identity matrix, with all its zeros; seen
face-on a position loses its third coordinate and keeps the others bit by bit. For finite positions
the two views differ in no more than signs of zeros (`Transform.plain_point_untilted`), and from the
points to the pictures nothing depends on these.

**Main statement**: `untilted_eq_faceOn`. It is about whole runs, from the snapshots of a sequence
to the picture of each frame, with the rounding of double precision in every step.
-/

namespace Starfilm

open Double

/-! ## Points -/

namespace Double

/-- A number among zeros is what their sum is, up to the sign of a zero. -/
theorem plain_dot_unit {x a b : Double} (hx : x.isNumber = true) (ha : a.plain = ⟨0⟩)
    (hb : b.plain = ⟨0⟩) : (x + a + b).plain = x.plain ∧ (a + x + b).plain = x.plain := by
  have hleft : (x + a).plain = x.plain := plain_add_zero hx ha
  have hright : (a + x).plain = x.plain := plain_zero_add hx ha
  have hnumber {y : Double} (hy : y.plain = x.plain) : y.isNumber = true := by
    rw [← isNumber_plain, hy, isNumber_plain, hx]
  exact ⟨(plain_add_zero (hnumber hleft) hb).trans hleft,
    (plain_add_zero (hnumber hright) hb).trans hright⟩

end Double

theorem tilt_nothing : tilt (Arith.nat 0 : Double) (Arith.nat 0) = Matrix3.identity := by
  decide +kernel

/-- **A finite position is seen face-on** when it is tilted by nothing, up to the signs of zeros. -/
theorem Transform.plain_point_untilted {p : Position Double} (hp : p.isFinite = true) :
    ((tilt (Arith.nat 0) (Arith.nat 0)).point p).plain = (faceOn.point p).plain := by
  simp only [Position.isFinite, Bool.and_eq_true] at hp
  obtain ⟨⟨hx, hy⟩, hz⟩ := hp
  have hnumber {x : Double} (h : Arith.isFinite x = true) : x.isNumber = true :=
    isNumber_iff_magnitude_le.2 (isFinite_iff_magnitude_lt.1 h).le
  have habscissa :=
    (plain_dot_unit (hnumber hx) (plain_zero_mul hy) (plain_zero_mul hz)).1
  have hordinate :=
    (plain_dot_unit (hnumber hy) (plain_zero_mul hx) (plain_zero_mul hz)).2
  rw [point, tilt_nothing]
  simp only [Point.plain, Matrix3.apply, Matrix3.dot, Matrix3.identity, nat_one_mul hx,
    nat_one_mul hy, habscissa, hordinate]
  rfl

/-! ## Frames -/

theorem Snapshot.plain_seenBy (t : Snapshot Double) {view view' : Position Double → Point Double}
    (h : ∀ c, ∀ p ∈ t.positions c, (view p).plain = (view' p).plain) :
    (t.seenBy view).plain = (t.seenBy view').plain := by
  simp only [Frame.plain, seenBy, List.map_map]
  congr 1
  · exact List.map_congr_left (h .disk)
  · exact List.map_congr_left (h .bulge)
  · exact List.map_congr_left (h .newStars)

/-- Frames that are the same up to the signs of zeros have the same windows, up to the signs of
zeros in them, and in these the same pictures. -/
theorem rendering_plain (s : Framing Double) (thin : Bool) {frames frames' : List (Frame Double)}
    (h : frames.map Frame.plain = frames'.map Frame.plain) :
    estimate s thin (frames.flatMap Frame.pointSets) = .error .nothingToFrame ∧
        estimate s thin (frames'.flatMap Frame.pointSets) = .error .nothingToFrame ∨
      ∃ w w', estimate s thin (frames.flatMap Frame.pointSets) = .ok w ∧
        estimate s thin (frames'.flatMap Frame.pointSets) = .ok w' ∧ w.plain = w'.plain ∧
        ∀ {G : Type} [Arith G] (l : Look G), frames.map (l.draw w) = frames'.map (l.draw w') := by
  have hsets : (frames.flatMap Frame.pointSets).map (fun ps => ps.map Point.plain) =
      (frames'.flatMap Frame.pointSets).map fun ps => ps.map Point.plain := by
    have hflat := congrArg (List.flatMap Frame.pointSets) h
    simpa only [List.flatMap_map, List.map_flatMap, Frame.pointSets_plain] using hflat
  rcases estimate_plain s thin hsets with hnothing | ⟨w, w', hw, hw', hsame⟩
  · exact .inl hnothing
  · refine .inr ⟨w, w', hw, hw', hsame.plain_eq, fun l => ?_⟩
    calc frames.map (l.draw w)
        = (frames.map Frame.plain).map (l.draw w) := by
          rw [List.map_map]
          exact List.map_congr_left fun f _ => (l.draw_plain w.same_refl f).symm
      _ = (frames'.map Frame.plain).map (l.draw w) := by rw [h]
      _ = frames'.map (l.draw w') := by
          rw [List.map_map]
          exact List.map_congr_left fun f _ => l.draw_plain hsame f

/-- **A tilt by nothing is the view face-on.** Of finite positions the two views give, in every
frame, points that are the same up to the signs of zeros; with the height of a tilted window not
tied to its width, both have nothing to frame, or their windows are the same up to the signs of
zeros and every frame has one picture in both, whatever its size and its styles. -/
theorem untilted_eq_faceOn (s : Settings Double) (hthin : s.framing.tiltedThinAxis = false)
    (q : Sequence Double)
    (hq : ∀ t ∈ q.snapshots, ∀ c, ∀ p ∈ t.positions c, p.isFinite = true) :
    let untilted : Settings Double := { s with mode := .tilted (Arith.nat 0) (Arith.nat 0) }
    let faceOn : Settings Double := { s with mode := .faceOn }
    let frames := untilted.frames q
    let frames' := faceOn.frames q
    frames.map Frame.plain = frames'.map Frame.plain ∧
      (untilted.window frames = .error .nothingToFrame ∧
          faceOn.window frames' = .error .nothingToFrame ∨
        ∃ w w', untilted.window frames = .ok w ∧ faceOn.window frames' = .ok w' ∧
          w.plain = w'.plain ∧
          ∀ {G : Type} [Arith G] (l : Look G),
            frames.map (l.draw w) = frames'.map (l.draw w')) := by
  intro untilted faceOn frames frames'
  have hframes : frames.map Frame.plain = frames'.map Frame.plain := by
    simp only [frames, frames', Settings.frames, List.map_map, Frame.ofSnapshot_eq_seenBy]
    refine List.map_congr_left fun t ht => ?_
    exact t.plain_seenBy fun c p hp => Transform.plain_point_untilted (hq t ht c p hp)
  have hsettings : untilted.window = faceOn.window := by
    funext fs
    exact congrArg (fun thin => estimate s.framing thin (fs.flatMap Frame.pointSets)) hthin
  rw [hsettings]
  exact ⟨hframes, rendering_plain s.framing false hframes⟩

/-- A star on the negative side of a zero comes to the positive side by a tilt, and is drawn as
before. -/
theorem untilted_eq_faceOn_negative_zero :
    let base : Settings Double := .default
    let s := { base with framing := { base.framing with tiltedThinAxis := false } }
    let t : Snapshot Double :=
      ⟨none, Arith.nat 0, [⟨-Arith.nat 0, Arith.nat 1, -Arith.nat 5⟩],
        [⟨Arith.nat 3, Arith.decimal 25 1, Arith.nat 2⟩], .empty⟩
    let q : Sequence Double := ⟨[t]⟩
    let untilted : Settings Double := { s with mode := .tilted (Arith.nat 0) (Arith.nat 0) }
    let faceOn : Settings Double := { s with mode := .faceOn }
    (s.framing.tiltedThinAxis = false ∧
        ∀ u ∈ q.snapshots, ∀ c, ∀ p ∈ u.positions c, p.isFinite = true) ∧
      untilted.frames q ≠ faceOn.frames q ∧
      (untilted.frames q).map Frame.plain = (faceOn.frames q).map Frame.plain ∧
      ∃ w w', untilted.window (untilted.frames q) = .ok w ∧
        faceOn.window (faceOn.frames q) = .ok w' ∧ w.plain = w'.plain ∧
        ∀ l : Look Single,
          (untilted.frames q).map (l.draw w) = (faceOn.frames q).map (l.draw w') := by
  intro base s t q untilted faceOn
  have hfinite : ∀ c ∈ ParticleClass.all, ∀ p ∈ t.positions c, p.isFinite = true := by
    decide +kernel
  have hq : ∀ u ∈ q.snapshots, ∀ c, ∀ p ∈ u.positions c, p.isFinite = true := by
    intro u hu c
    rw [List.mem_singleton.1 hu]
    exact hfinite c (by cases c <;> decide)
  have hpool : pool ((faceOn.frames q).flatMap Frame.pointSets) ≠ [] := by decide +kernel
  obtain ⟨hframes, ⟨-, hnothing⟩ | ⟨w, w', hw, hw', hplain, hdraw⟩⟩ := untilted_eq_faceOn s rfl q hq
  · rw [Settings.window, estimate_of_pool_ne_nil _ _ hpool] at hnothing
    cases hnothing
  · exact ⟨⟨rfl, hq⟩, by decide +kernel, hframes, w, w', hw, hw', hplain, fun l => hdraw l⟩

end Starfilm
