import Starfilm.Proofs.Raster.Scaling
import Starfilm.Proofs.Window.Exact
import Starfilm.Proofs.Window.Seen

/-!
# Edge-on frames

Seen edge-on, the height of a window is a share of its width, whatever the points are. So its shape
is that share (`Framing.aspect_exactWindow`), and a frame of a given height has the width that the
settings ask for.

**Main statement**: `edgeOn_pixels`. The percentiles, the padding and the positions take part in the
window, but not in the size of its frames.
-/

namespace Starfilm

/-! ## The size of a frame -/

/-- The height of accepted settings is at least one pixel. -/
theorem Settings.one_le_height {F : Type} [Arith F] [DecimalText F] {s : Settings F}
    (hs : s.validate = .ok ()) : 1 ≤ (s.height.getD 1200).toNat := by
  unfold validate at hs
  split_ifs at hs with _ hsize
  rw [Bool.or_eq_true, decide_eq_true_eq, decide_eq_true_eq, not_or] at hsize
  rw [Nat.one_le_iff_ne_zero]
  cases hheight : s.height with
  | none => decide
  | some n =>
    intro hzero
    exact hsize.2 (hheight.trans (congrArg some (UInt32.toNat_inj.1 hzero)))

variable {K : Type} [Field K] [LinearOrder K] [IsStrictOrderedRing K] [FloorRing K]

open Exact

/-- To the nearest integer, a half upwards, is a half away from zero for what is not negative. -/
theorem Rounding.integer_nearest {a : K} (ha : 0 ≤ a) :
    Rounding.nearest.integer a = (⌊a + 1 / 2⌋₊ : ℤ) := by
  rw [integer, if_pos ha, Int.natCast_floor_eq_floor (by positivity)]

/-- The width of a frame that follows a window of a known shape. -/
theorem FrameSize.pixels_fitHeight_exact {w : Window (Exact K)} {a : K} (hw : w.aspect = finite a)
    (ha : 0 < a) (height : ℕ) :
    (fitHeight height).pixels w =
      (min maxCount (max 1 ⌊height * a + 1 / 2⌋₊), max height 1) := by
  have hcounts : 1 ≤ maxCount := by decide
  have hrounded := Rounding.integer_nearest (mul_nonneg height.cast_nonneg ha.le : 0 ≤ height * a)
  simp only [pixels, hw, isFinite_finite, Arith.nat, ofInt_eq, Nat.cast_zero, Int.cast_zero,
    lt_finite, ha, decide_true, Bool.and_self, if_true, Int.cast_natCast, finite_mul, toInt_finite,
    hrounded]
  congr 1
  omega

/-- **The shape of a window whose height is a share of its width** is decided by that share. -/
theorem Framing.aspect_exactWindow {s : Framing (Exact K)} (hs : s.Accepted) {xs ys : List K}
    (hxs : xs ≠ []) (hys : ys ≠ []) :
    (s.exactWindow true xs ys).exact.aspect = finite (1 / (2 * s.thinAxisRatio.val)) := by
  rw [Window.aspect_exact (exactWindow_proper hs true hxs hys)]
  have hwidth : (s.exactRange xs).2 - (s.exactRange xs).1 ≠ 0 :=
    (sub_pos.2 (spans_exactRange hs hxs).lt).ne'
  have hratio := hs.ratio_pos.ne'
  simp only [exactWindow, if_true]
  congr 1
  field_simp
  ring

section Window

variable [Elementary (Exact K)] {s : Settings (Exact K)} {snapshots : List (Snapshot (Exact K))}

/-- The window of a sequence of which something is seen is that of some coordinates. -/
theorem Settings.exists_window_eq_exactWindow (hs : s.framing.Accepted)
    (hsees : s.SeesPoint snapshots) :
    ∃ xs ys : List K, xs ≠ [] ∧ ys ≠ [] ∧ s.window (s.frames (.ofSnapshots snapshots)) =
      .ok (s.framing.exactWindow (s.mode.thinAxis s.framing) xs ys).exact := by
  have hne := mt (pool_frames_eq_nil_iff s snapshots).1 (not_not.2 hsees)
  refine ⟨_, _, ?_, ?_, Framing.estimate_eq_exactWindow hs _ (coe_pool _) hne⟩
  all_goals exact mt List.map_eq_nil_iff.1 hne

/-- **Edge-on frames do not depend on the points.** Accepted settings with a finite padding and
ratio frame every sequence that has a finite particle, and the frames have the height of the
settings and the width that belongs to it by the ratio: to the nearest pixel, a half upwards, and
between `1` and the largest count. -/
theorem edgeOn_pixels [DecimalText (Exact K)] (hs : s.validate = .ok ()) (hmode : s.mode = .edgeOn)
    (hpadding : Arith.isFinite s.framing.padding = true)
    (hratio : Arith.isFinite s.framing.thinAxisRatio = true)
    (hp : ∃ t ∈ snapshots, ∃ c, ∃ p ∈ t.positions c, p.isFinite = true) :
    let height := (s.height.getD 1200).toNat
    ∃ w, s.window (s.frames (.ofSnapshots snapshots)) = .ok w ∧
      s.frameSize.pixels w =
        (min maxCount (max 1 ⌊height / (2 * s.framing.thinAxisRatio.val) + 1 / 2⌋₊), height) := by
  intro height
  have hacc := Framing.accepted_of_validate (Settings.framing_valid hs) hpadding hratio
  have hsees : s.SeesPoint snapshots := by
    refine Settings.seesPoint_of_keep (a := .x) (b := .z) ?_ hp
    rw [hmode]
    rfl
  obtain ⟨xs, ys, hxs, hys, hw⟩ := Settings.exists_window_eq_exactWindow hacc hsees
  refine ⟨_, hw, ?_⟩
  have hthin : s.mode.thinAxis s.framing = true := by
    rw [hmode]
    rfl
  have hsize : s.frameSize = .fitHeight height := by
    rw [Settings.frameSize, hmode]
  have hshape : 0 < 1 / (2 * s.framing.thinAxisRatio.val) := by
    have hpos := hacc.ratio_pos
    positivity
  rw [hsize, hthin,
    FrameSize.pixels_fitHeight_exact (Framing.aspect_exactWindow hacc hxs hys) hshape, mul_one_div,
    max_eq_left (Settings.one_le_height hs)]

end Window

/-- Five rows by a ratio of one: the width of two and a half pixels becomes three. -/
theorem edgeOn_pixels_half :
    let _text : DecimalText (Exact ℚ) := ⟨fun _ => "", fun _ _ => ""⟩
    let _elementary : Elementary (Exact ℚ) := ⟨id, id, id, id, id, nan⟩
    let base : Settings (Exact ℚ) := .default
    let s :=
      { base with
        mode := .edgeOn, width := some 7, height := some 5
        framing := { base.framing with thinAxisRatio := finite 1 } }
    let t : Snapshot (Exact ℚ) :=
      ⟨none, finite 0, [⟨finite 1, finite 2, finite 3⟩, ⟨nan, finite 0, finite 0⟩], [], .empty⟩
    (s.validate = .ok () ∧ s.mode = .edgeOn ∧ Arith.isFinite s.framing.padding = true ∧
        Arith.isFinite s.framing.thinAxisRatio = true ∧
        ∃ t' ∈ [t], ∃ c, ∃ p ∈ t'.positions c, p.isFinite = true) ∧
      ∃ w, s.window (s.frames (.ofSnapshots [t])) = .ok w ∧ s.frameSize.pixels w = (3, 5) := by
  intro _text _elementary base s t
  have hs : s.validate = .ok () := by decide +kernel
  have hp : ∃ t' ∈ [t], ∃ c, ∃ p ∈ t'.positions c, p.isFinite = true :=
    ⟨t, List.mem_singleton_self _, .disk, _, List.mem_cons_self, rfl⟩
  obtain ⟨w, hw, hpixels⟩ := edgeOn_pixels hs rfl rfl rfl hp
  refine ⟨⟨hs, rfl, rfl, rfl, hp⟩, w, hw, hpixels.trans ?_⟩
  have hwidth : ⌊((5 : ℕ) : ℚ) / (2 * 1) + 1 / 2⌋₊ = 3 := by norm_num
  change (min maxCount (max 1 ⌊((5 : ℕ) : ℚ) / (2 * 1) + 1 / 2⌋₊), 5) = _
  rw [hwidth]
  rfl

end Starfilm
