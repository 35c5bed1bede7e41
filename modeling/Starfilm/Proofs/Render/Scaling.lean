import Starfilm.Proofs.Raster.Scaling
import Starfilm.Proofs.Window.Seen
import Starfilm.Proofs.Window.Scaling
import Starfilm.Render

/-!
# Rendering in another unit of length

A run of snapshots whose positions are all multiplied by one positive number makes the window
multiplied by it, and the same pictures. The numbers that a run has of its own are no lengths but
shares, ranks and pixels, with one exception: a range that is nothing but zero is widened to a fixed
one. Where both percentiles of an axis are zero a unit of length could be told from the window, and
such points are left out.

**Main statement**: `rendering_scale`. It holds for every matrix in the place of the tilt's, so that
nothing depends on how sines and cosines are computed.
-/

namespace Starfilm

section Views

variable {F : Type} [Arith F]

/-- The frames of a sequence, if the tilt of the view has the matrix `m`. -/
def Settings.framesBy (s : Settings F) (m : Matrix3 F) (q : Sequence F) : List (Frame F) :=
  q.snapshots.map (·.seenBy (s.mode.pointBy m))

theorem Settings.frames_eq_framesBy [Elementary F] (s : Settings F) (q : Sequence F) :
    s.frames q = s.framesBy s.mode.matrix q := by
  simp only [frames, framesBy, Frame.ofSnapshot_eq_seenBy, ViewMode.transform_point]

/-- A sequence in another unit of length has the same order. -/
theorem Sequence.ofSnapshots_map_scale (a : F) (snapshots : List (Snapshot F)) :
    (ofSnapshots (snapshots.map (·.scale a))).snapshots =
      (ofSnapshots snapshots).snapshots.map (·.scale a) :=
  (List.map_mergeSort (f := Snapshot.scale a) fun _ _ _ _ => rfl).symm

end Views

variable {K : Type} [Field K] [LinearOrder K] [IsStrictOrderedRing K] [FloorRing K]

open Exact

theorem Settings.framesBy_map_scale (s : Settings (Exact K)) (m : Matrix3 (Exact K))
    (snapshots : List (Snapshot (Exact K))) {a : K} (ha : 0 < a) :
    s.framesBy m (.ofSnapshots (snapshots.map (·.scale (finite a)))) =
      (s.framesBy m (.ofSnapshots snapshots)).map (·.scale (finite a)) := by
  simp only [framesBy, Sequence.ofSnapshots_map_scale, List.map_map, Function.comp_def]
  refine List.map_congr_left fun t _ => ?_
  exact t.seenBy_scale (ViewMode.pointBy_scale ha m s.mode)

/-- The window of some frames is one of numbers, with positive sides. -/
theorem Settings.exists_proper_of_ne_nil {s : Settings (Exact K)} (hs : s.framing.Accepted)
    {frames : List (Frame (Exact K))} {points : List (Point (Exact K))}
    (hpoints : (points : Multiset (Point (Exact K))) =
      finitePoints (frames.flatMap Frame.pointSets)) (hne : points ≠ []) :
    ∃ v : Window K, v.Proper ∧ s.window frames = .ok v.exact := by
  refine ⟨_, Framing.exactWindow_proper hs _ ?_ ?_,
    Framing.estimate_eq_exactWindow hs _ hpoints hne⟩
  all_goals exact mt List.map_eq_nil_iff.1 hne

/-- **Rendering does not depend on the unit of length.** Snapshots whose positions are multiplied by
a positive number have the window multiplied by it, or nothing to frame as before, and every frame
keeps its picture, whatever its size and its styles; provided that on each axis that the window
follows not both percentiles are zero. There is a window once some point is finite. The tilt may
have any matrix, and the frames of a run are those by its own. -/
theorem rendering_scale [Elementary (Exact K)] [DecimalText (Exact K)] {s : Settings (Exact K)}
    (hs : s.validate = .ok ()) (hpadding : Arith.isFinite s.framing.padding = true)
    (hratio : Arith.isFinite s.framing.thinAxisRatio = true) (m : Matrix3 (Exact K))
    (snapshots : List (Snapshot (Exact K))) {a : K} (ha : 0 < a) {points : List (Point (Exact K))}
    (hpoints : (points : Multiset (Point (Exact K))) =
      finitePoints ((s.framesBy m (.ofSnapshots snapshots)).flatMap Frame.pointSets))
    (hx : ¬s.framing.AtZero (points.map (·.x)))
    (hy : s.mode.thinAxis s.framing = false → ¬s.framing.AtZero (points.map (·.y))) :
    let frames := s.framesBy m (.ofSnapshots snapshots)
    let frames' := s.framesBy m (.ofSnapshots (snapshots.map (·.scale (finite a))))
    s.window frames' = (s.window frames).map (·.scale (finite a)) ∧
      (∀ w, s.window frames = .ok w → ∀ {G : Type} [Arith G] (l : Look G),
        frames'.map (l.draw (w.scale (finite a))) = frames.map (l.draw w)) ∧
      (points ≠ [] → ∃ w : Window K, w.Proper ∧ s.window frames = .ok w.exact) ∧
      ∀ q, s.frames q = s.framesBy s.mode.matrix q := by
  intro frames frames'
  have hacc := Framing.accepted_of_validate (Settings.framing_valid hs) hpadding hratio
  have hframes : frames' = frames.map (·.scale (finite a)) :=
    s.framesBy_map_scale m snapshots ha
  have hsets : frames'.flatMap Frame.pointSets =
      (frames.flatMap Frame.pointSets).map fun ps => ps.map (·.scale (finite a)) := by
    rw [hframes, List.flatMap_map, List.map_flatMap]
    rfl
  refine ⟨?_, fun w hw G _ l => ?_, Settings.exists_proper_of_ne_nil hacc hpoints,
    s.frames_eq_framesBy⟩
  · rw [Settings.window, Settings.window, hsets]
    exact estimate_scale hacc ha _ hpoints hx hy
  · have hne : points ≠ [] := by
      rintro rfl
      have hnil := (pool_eq_nil_iff _).2 hpoints.symm
      cases (estimate_of_pool_eq_nil _ _ hnil).symm.trans hw
    obtain ⟨v, hv, hproper⟩ := Settings.exists_proper_of_ne_nil hacc hpoints hne
    obtain rfl : w = v.exact := Except.ok.inj (hw.symm.trans hproper)
    rw [hframes, List.map_map]
    exact List.map_congr_left fun f _ => l.draw_scale hv ha f

/-- Two snapshots seen after a turn, at first in one unit and then in one a thousand times
smaller. -/
theorem rendering_scale_thousandfold :
    let _text : DecimalText (Exact ℚ) := ⟨fun _ => "", fun _ _ => ""⟩
    let _elementary : Elementary (Exact ℚ) := ⟨id, id, id, id, id, finite (22 / 7)⟩
    let base : Settings (Exact ℚ) := .default
    let s :=
      { base with
        mode := .tilted (finite 0) (finite 37)
        framing := { base.framing with tiltedThinAxis := false } }
    let m : Matrix3 (Exact ℚ) :=
      ⟨⟨finite (4 / 5), finite (-3 / 5), finite 0⟩, ⟨finite (3 / 5), finite (4 / 5), finite 0⟩,
        ⟨finite 0, finite 0, finite 1⟩⟩
    let t : Snapshot (Exact ℚ) := ⟨none, finite 0, [], [⟨finite (-5), finite 0, nan⟩], .empty⟩
    let u : Snapshot (Exact ℚ) :=
      ⟨none, finite 1, [⟨finite (-5), finite 0, finite 2⟩, ⟨finite 5, finite 10, finite 3⟩], [],
        .empty⟩
    let frames := s.framesBy m (.ofSnapshots [t, u])
    let frames' := s.framesBy m (.ofSnapshots ([t, u].map (·.scale (finite 1000))))
    let points : List (Point (Exact ℚ)) := [⟨finite (-4), finite (-3)⟩, ⟨finite (-2), finite 11⟩]
    let w : Window ℚ := ⟨-522 / 125, -228 / 125, -529 / 125, 1529 / 125⟩
    (s.validate = .ok () ∧ Arith.isFinite s.framing.padding = true ∧
        Arith.isFinite s.framing.thinAxisRatio = true ∧ (0 : ℚ) < 1000 ∧
        (points : Multiset (Point (Exact ℚ))) = finitePoints (frames.flatMap Frame.pointSets) ∧
        ¬s.framing.AtZero (points.map (·.x)) ∧ s.mode.thinAxis s.framing = false ∧
        ¬s.framing.AtZero (points.map (·.y))) ∧
      s.window frames = .ok w.exact ∧ s.window frames' = .ok (w.scale 1000).exact ∧
      ∀ l : Look (Exact ℚ),
        frames'.map (l.draw (w.scale 1000).exact) = frames.map (l.draw w.exact) := by
  intro _text _elementary base s m t u frames frames' points w
  have hs : s.validate = .ok () := by decide +kernel
  have hratio : Arith.isFinite s.framing.thinAxisRatio = true := by decide +kernel
  have hframes : frames = [t, u].map (·.seenBy (s.mode.pointBy m)) := by
    have hsorted : [t, u].mergeSort Sequence.inOrder = [t, u] :=
      List.mergeSort_of_pairwise (by decide +kernel)
    simp only [frames, Settings.framesBy, Sequence.ofSnapshots, hsorted]
  have hpoints : (points : Multiset (Point (Exact ℚ))) =
      finitePoints (frames.flatMap Frame.pointSets) := by
    rw [hframes]
    decide +kernel
  have hxs : (points.map (·.x)).mergeSort Arith.totalLe = [finite (-4), finite (-2)] :=
    List.mergeSort_of_pairwise (by decide +kernel)
  have hys : (points.map (·.y)).mergeSort Arith.totalLe = [finite (-3), finite 11] :=
    List.mergeSort_of_pairwise (by decide +kernel)
  have hx : ¬s.framing.AtZero (points.map (·.x)) := by
    rw [Framing.AtZero, hxs]
    decide +kernel
  have hy : ¬s.framing.AtZero (points.map (·.y)) := by
    rw [Framing.AtZero, hys]
    decide +kernel
  have hwindow : s.window frames = .ok w.exact := by
    have hne : points ≠ [] := List.cons_ne_nil _ _
    have hxrange : paddedRange s.framing (points.map (·.x)) = (finite w.xmin, finite w.xmax) := by
      rw [paddedRange, hxs]
      decide +kernel
    have hyrange : paddedRange s.framing (points.map (·.y)) = (finite w.ymin, finite w.ymax) := by
      rw [paddedRange, hys]
      decide +kernel
    rw [Settings.window, estimate_eq_windowOf _ _ hpoints hne, windowOf, hxrange, hyrange]
    rfl
  have hpos : (0 : ℚ) < 1000 := by norm_num
  obtain ⟨hscaled, hpictures, -⟩ :=
    rendering_scale hs rfl hratio m [t, u] hpos hpoints hx fun _ => hy
  rw [hwindow] at hscaled
  exact ⟨⟨hs, rfl, hratio, hpos, hpoints, hx, rfl, hy⟩, hwindow, hscaled,
    fun l => hpictures w.exact hwindow l⟩

end Starfilm
