import Starfilm.Proofs.View.Finiteness
import Starfilm.Proofs.Window.Seen
import Starfilm.Proofs.Window.Width

/-!
# Which accepted settings frame a sequence

The rules that settings are checked by do not ask for finite numbers: an infinite padding keeps
them, an infinite ratio too, and no rule looks at the angles of a tilt. Nor do they bound anything,
so that finite numbers can be too large on the way to the window. Whatever the way, a window with
finite sides has been made from finite numbers (`Settings.UsesFinite`), and there is one when
nothing is excessively large (`Settings.Moderate`).

Such a window is to have a width and a height. It has, unless the percentiles of an axis are one
number close to the smallest ones (`Framing.Vanishes`), or a thin axis gets a share of the width
that is too small to be told from zero.

**Main statement**: `window_bounds`.
-/

namespace Starfilm

open Double

/-- All sides of a window are finite. -/
structure Window.HasFiniteSides (w : Window Double) : Prop where
  xmin : Arith.isFinite w.xmin = true
  xmax : Arith.isFinite w.xmax = true
  ymin : Arith.isFinite w.ymin = true
  ymax : Arith.isFinite w.ymax = true

/-- Settings with finite numbers wherever the way to the window looks at them. -/
structure Settings.UsesFinite (s : Settings Double) : Prop where
  padding : Arith.isFinite s.framing.padding = true
  ratio : s.mode.thinAxis s.framing = true → Arith.isFinite s.framing.thinAxisRatio = true
  angles : s.mode.HasFiniteAngles

/-- Nothing on the way to the window is excessively large. -/
structure Settings.Moderate (s : Settings Double) (snapshots : List (Snapshot Double)) : Prop where
  positions : ∀ t ∈ snapshots, ∀ c, ∀ p ∈ t.positions c, p.Within 900
  padding : Double.AtMost s.framing.padding 50
  ratio : s.mode.thinAxis s.framing = true → Double.AtMost s.framing.thinAxisRatio 50
  angles : s.mode.HasFiniteAngles

/-! ## The thin axis -/

section Thin

variable {ratio width : Double}

/-- Half the height at both sides of zero is a height, unless the share is rounded to zero. -/
theorem neg_lt_half_iff (hratio : Arith.le (Arith.nat 0) ratio = true)
    (hwidth : Arith.le (Arith.nat 0) width = true)
    (hhalf : Arith.isFinite (ratio * width) = true) :
    Arith.lt (-(ratio * width)) (ratio * width) = true ↔
      2 ^ (-1075 : ℤ) < ratio.size * width.size := by
  obtain ⟨hratiof, hwidthf⟩ := isFinite_of_mul hhalf
  have hvalue := value_of_zero_le (zero_le_mul hratio hwidth hwidthf hratiof)
  have hnearest := nearest_eq_zero_iff (mul_nonneg ratio.size_nonneg width.size_nonneg)
  have hzero : (ratio * width).size = 0 ↔ nearest (ratio.size * width.size) = 0 := by
    rw [size_eq_zero_iff hhalf, magnitude_mul hratiof hwidthf]
    omega
  rw [lt_iff_value_lt ((isFinite_neg _).2 hhalf) hhalf, value_neg, hvalue, neg_lt_self_iff,
    (ratio * width).size_nonneg.lt_iff_ne', Ne, hzero, hnearest, not_le]

end Thin

/-! ## Windows of points -/

section Points

variable {s : Framing Double} (hs : s.validate = .ok ()) (thin : Bool)
  {points : List (Point Double)} (hne : points ≠ []) (hn : points.length ≤ 2 ^ 53)

include hs hne hn

/-- **When a window with finite sides has a width and a height.** -/
theorem windowOf_lt_iff (hfinite : ∀ p ∈ points, p.isFinite = true) :
    let w := windowOf s thin (points.map (·.x)) (points.map (·.y))
    w.HasFiniteSides → Arith.isFinite s.padding = true ∧
      (thin = true → Arith.isFinite s.thinAxisRatio = true) ∧
      (Arith.lt w.xmin w.xmax = true ↔ ¬s.Vanishes (points.map (·.x))) ∧
      (Arith.lt w.ymin w.ymax = true ↔
        if thin then 2 ^ (-1075 : ℤ) < s.thinAxisRatio.size * w.width.size
        else ¬s.Vanishes (points.map (·.y))) := by
  intro w h
  have hrange (c : Point Double → Double) (hc : ∀ p ∈ points, Arith.isFinite (c p) = true) :=
    Framing.paddedRange_lt_iff hs (List.forall_mem_map.2 hc) (mt List.map_eq_nil_iff.1 hne)
      ((List.length_map _).trans_le hn)
  obtain ⟨hpadding, hle, hx⟩ :=
    hrange (·.x) (fun p hp => (Bool.and_eq_true_iff.1 (hfinite p hp)).1) h.xmin
  refine ⟨hpadding, ?_⟩
  cases thin with
  | false =>
    obtain ⟨-, -, hy⟩ :=
      hrange (·.y) (fun p hp => (Bool.and_eq_true_iff.1 (hfinite p hp)).2) h.ymin
    exact ⟨fun hthin => Bool.noConfusion hthin, hx, hy⟩
  | true =>
    have hhalf : Arith.isFinite (s.thinAxisRatio * w.width) = true := h.ymax
    have hratio : Arith.le (Arith.nat 0) s.thinAxisRatio = true :=
      (Bool.and_eq_true_iff.1 ((Framing.validate_eq_ok_iff s).1 hs).2.2.2.2).1
    have hwidth : Arith.le (Arith.nat 0) w.width = true :=
      (rounds_sub h.xmax h.xmin).zero_le (sub_nonneg.2 ((le_iff_value_le h.xmin h.xmax).1 hle))
    exact ⟨fun _ => (isFinite_of_mul hhalf).1, hx, neg_lt_half_iff hratio hwidth hhalf⟩

/-- **Bounded points make a window with finite sides.** -/
theorem windowOf_hasFiniteSides (hpadding : Double.AtMost s.padding 50)
    (hratio : thin = true → Double.AtMost s.thinAxisRatio 50)
    (hbound : ∀ p ∈ points, p.AtMost 910) :
    (windowOf s thin (points.map (·.x)) (points.map (·.y))).HasFiniteSides := by
  have hrange (c : Point Double → Double) (hc : ∀ p ∈ points, Double.AtMost (c p) 910) :
      Double.AtMost (paddedRange s (points.map c)).1 963 ∧
        Double.AtMost (paddedRange s (points.map c)).2 963 :=
    Framing.paddedRange_atMost hs (List.forall_mem_map.2 fun p hp => (hc p hp).isFinite)
      (mt List.map_eq_nil_iff.1 hne) ((List.length_map _).trans_le hn) (by norm_num) hpadding
      (List.forall_mem_map.2 hc)
  obtain ⟨hxmin, hxmax⟩ := hrange (·.x) fun p hp => (hbound p hp).x
  cases thin with
  | false =>
    obtain ⟨hymin, hymax⟩ := hrange (·.y) fun p hp => (hbound p hp).y
    exact ⟨hxmin.isFinite, hxmax.isFinite, hymin.isFinite, hymax.isFinite⟩
  | true =>
    have hhalf := (hratio rfl).mul (hxmax.sub hxmin (by norm_num)) (by norm_num)
    exact ⟨hxmin.isFinite, hxmax.isFinite, hhalf.neg.isFinite, hhalf.isFinite⟩

end Points

/-! ## The window of a run -/

section Window

variable [Elementary Double] (ht : Trigonometric) {s : Settings Double}
  {snapshots : List (Snapshot Double)}

include ht

/-- A window asks for finite angles. -/
theorem hasFiniteAngles_of_seesPoint (h : s.SeesPoint snapshots) : s.mode.HasFiniteAngles := by
  obtain ⟨t, -, c, p, hp, hfinite⟩ := h
  rw [Transform.project_eq_map] at hp
  obtain ⟨q, -, rfl⟩ := List.mem_map.1 hp
  exact ViewMode.hasFiniteAngles_of_isFinite_point ht hfinite

theorem seesPoint_of_moderate (h : s.Moderate snapshots)
    (hp : ∃ t ∈ snapshots, ∃ c, ∃ p ∈ t.positions c, p.isFinite = true) :
    s.SeesPoint snapshots := by
  obtain ⟨t, htime, c, p, hmem, hfinite⟩ := hp
  refine ⟨t, htime, c, s.mode.transform.point p, ?_, ?_⟩
  · rw [Transform.project_eq_map]
    exact List.mem_map_of_mem hmem
  · exact ViewMode.isFinite_point ht (by norm_num) (h.positions t htime c p hmem) h.angles hfinite

/-- What is seen of moderate positions is moderate. -/
theorem atMost_of_moderate (h : s.Moderate snapshots) {p : Point Double}
    (hp : p ∈ pool ((s.frames (.ofSnapshots snapshots)).flatMap Frame.pointSets)) :
    p.AtMost 910 := by
  obtain ⟨⟨t, htime, c, hproject⟩, hfinite⟩ := (mem_pool_frames s).1 hp
  rw [Transform.project_eq_map] at hproject
  obtain ⟨q, hq, rfl⟩ := List.mem_map.1 hproject
  exact ViewMode.atMost_point_of_isFinite ht (by norm_num) (h.positions t htime c q hq) hfinite

/-- **Which accepted settings frame a sequence** with a finite particle, in double precision. There
is nothing to frame exactly when no particle is seen at a finite point; that is so in no view that
keeps two coordinates, and whenever an angle is not finite. A window with finite sides has been made
from finite numbers. It has a width unless the percentiles of the abscissas are one number close to
the smallest ones, and a height unless those of the ordinates are, or where it follows the width,
unless its share of the width is rounded to zero. Moderate positions and settings make a window with
finite sides. -/
theorem window_bounds (hs : s.validate = .ok ())
    (hp : ∃ t ∈ snapshots, ∃ c, ∃ p ∈ t.positions c, p.isFinite = true)
    {points : List (Point Double)} (hpoints : (points : Multiset (Point Double)) =
      finitePoints ((s.frames (.ofSnapshots snapshots)).flatMap Frame.pointSets))
    (hn : points.length ≤ 2 ^ 53) :
    let window := s.window (s.frames (.ofSnapshots snapshots))
    let thin := s.mode.thinAxis s.framing
    ((window = .error .nothingToFrame ↔ ¬s.SeesPoint snapshots) ∧
        ((∃ a b, s.mode.transform = .keep a b) → s.SeesPoint snapshots) ∧
        (¬s.mode.HasFiniteAngles → ¬s.SeesPoint snapshots)) ∧
      (∀ w, window = .ok w → w.HasFiniteSides → s.UsesFinite ∧
        (Arith.lt w.xmin w.xmax = true ↔ ¬s.framing.Vanishes (points.map (·.x))) ∧
        (Arith.lt w.ymin w.ymax = true ↔
          if thin then 2 ^ (-1075 : ℤ) < s.framing.thinAxisRatio.size * w.width.size
          else ¬s.framing.Vanishes (points.map (·.y)))) ∧
      (s.Moderate snapshots → ∃ w, window = .ok w ∧ w.HasFiniteSides) := by
  intro window thin
  have hvalid := Settings.framing_valid hs
  have hfinite := fun p => isFinite_of_mem hpoints (p := p)
  have hsees : s.SeesPoint snapshots ↔ points ≠ [] := by
    rw [← not_iff_not, ← pool_frames_eq_nil_iff, not_not, pool_eq_nil_iff, ← hpoints,
      Multiset.coe_eq_zero]
  have hwindow (hne : points ≠ []) :
      window = .ok (windowOf s.framing thin (points.map (·.x)) (points.map (·.y))) :=
    estimate_eq_windowOf _ _ hpoints hne
  refine ⟨⟨⟨fun herror hsees => ?_, window_of_not_seesPoint⟩, ?_, ?_⟩, fun w hw hsides => ?_,
    fun h => ?_⟩
  · obtain ⟨w, hw⟩ := window_of_seesPoint hsees
    cases herror.symm.trans hw
  · rintro ⟨a, b, hkeep⟩
    exact Settings.seesPoint_of_keep hkeep hp
  · exact mt (hasFiniteAngles_of_seesPoint ht)
  · have hne : points ≠ [] := by
      rw [← hsees]
      by_contra hnone
      cases (window_of_not_seesPoint hnone).symm.trans hw
    obtain rfl := Except.ok.inj ((hwindow hne).symm.trans hw)
    obtain ⟨hpadding, hratio, hx, hy⟩ := windowOf_lt_iff hvalid thin hne hn hfinite hsides
    exact ⟨⟨hpadding, hratio, hasFiniteAngles_of_seesPoint ht (hsees.2 hne)⟩, hx, hy⟩
  · have hne : points ≠ [] := hsees.1 (seesPoint_of_moderate ht h hp)
    have hbound : ∀ p ∈ points, p.AtMost 910 := fun p hp =>
      atMost_of_moderate ht h ((pool_perm hpoints).mem_iff.2 hp)
    exact ⟨_, hwindow hne,
      windowOf_hasFiniteSides hvalid thin hne hn h.padding h.ratio hbound⟩

end Window

/-- A particle turned by a right angle twice, whose sine and cosine are rounded. -/
theorem window_bounds_tilted :
    let _elementary : Elementary Double :=
      { sin := fun a => if Arith.isFinite a then Arith.nat 1 else .nan
        cos := fun a => if Arith.isFinite a then ⟨0x3C91A62633145C07⟩ else .nan
        exp := id
        ln := id
        sqrt := id
        pi := ⟨0x400921FB54442D18⟩ }
    let s : Settings Double :=
      { Settings.default with mode := .tilted (Arith.nat 90) (Arith.nat 90) }
    let t : Snapshot Double :=
      ⟨none, Arith.nat 0,
        [⟨Arith.nat 1, Arith.nat 2, Arith.nat 3⟩, ⟨.nan, Arith.nat 0, Arith.nat 0⟩], [], .empty⟩
    let points : List (Point Double) := [⟨Arith.nat 3, ⟨0x3FEFFFFFFFFFFFFE⟩⟩]
    (Trigonometric ∧ s.validate = .ok () ∧
        (∃ t' ∈ [t], ∃ c, ∃ p ∈ t'.positions c, p.isFinite = true) ∧
        (points : Multiset (Point Double)) =
          finitePoints ((s.frames (.ofSnapshots [t])).flatMap Frame.pointSets) ∧
        points.length ≤ 2 ^ 53 ∧ s.Moderate [t]) ∧
      ∃ w, s.window (s.frames (.ofSnapshots [t])) = .ok w ∧ w.HasFiniteSides ∧ s.UsesFinite ∧
        Arith.lt w.xmin w.xmax = true ∧ ¬s.framing.Vanishes (points.map (·.x)) ∧
        Arith.lt w.ymin w.ymax = true ∧
        2 ^ (-1075 : ℤ) < s.framing.thinAxisRatio.size * w.width.size := by
  intro _elementary s t points
  have hsmall {x : Double} (hx : Arith.le (Arith.nat 0) x = true)
      (hx' : Arith.le x (Arith.nat 1) = true) : Double.AtMost x 0 :=
    zero_atMost.of_le_of_le one_atMost hx hx'
  have ht : Trigonometric := by
    refine ⟨fun {a} h => ?_, fun {a} h => ?_, fun {a} h => ?_, ?_⟩
    · by_contra ha
      change Arith.isFinite (if Arith.isFinite a then _ else _) = true at h
      rw [if_neg ha] at h
      cases h
    · change Double.AtMost (if Arith.isFinite a then _ else _) 1
      rw [if_pos h]
      exact (hsmall (by decide +kernel) (by decide +kernel)).mono zero_le_one
    · change Double.AtMost (if Arith.isFinite a then _ else _) 1
      rw [if_pos h]
      exact one_atMost.mono zero_le_one
    · have hfour : Double.AtMost (Arith.nat 4) 2 := nat_atMost (by norm_num) (by norm_num)
      exact (zero_atMost.mono (Nat.zero_le 2)).of_le_of_le hfour (by decide +kernel)
        (by decide +kernel)
  have hs : s.validate = .ok () := by decide +kernel
  have hp : ∃ t' ∈ [t], ∃ c, ∃ p ∈ t'.positions c, p.isFinite = true :=
    ⟨t, List.mem_singleton_self _, .disk, _, List.mem_cons_self, by decide +kernel⟩
  have hpoints : (points : Multiset (Point Double)) =
      finitePoints ((s.frames (.ofSnapshots [t])).flatMap Frame.pointSets) := by
    decide +kernel
  have hn : points.length ≤ 2 ^ 53 := by decide
  have hmoderate : s.Moderate [t] := by
    refine ⟨fun t' ht' c p hp' a ha => ?_, ?_, fun _ => ?_, ?_, ?_⟩
    · have hnat {n : ℕ} (hn : n ≤ 2 ^ 2) : Double.AtMost (Arith.nat n) 900 :=
        (nat_atMost hn (by norm_num)).mono (by norm_num)
      obtain rfl := List.mem_singleton.1 ht'
      cases c with
      | disk =>
        rcases List.mem_pair.1 hp' with rfl | rfl <;> cases a
        case inr.x => exact absurd ha (by decide +kernel)
        all_goals exact hnat (by norm_num)
      | bulge => cases hp'
      | newStars => cases hp'
    · exact (hsmall (by decide +kernel) (by decide +kernel)).mono (Nat.zero_le _)
    · exact (hsmall (by decide +kernel) (by decide +kernel)).mono (Nat.zero_le _)
    · decide +kernel
    · decide +kernel
  obtain ⟨-, hbounds, hexists⟩ := window_bounds ht hs hp hpoints hn
  obtain ⟨w, hw, hsides⟩ := hexists hmoderate
  obtain ⟨huses, hx, hy⟩ := hbounds w hw hsides
  have hw' : s.window (s.frames (.ofSnapshots [t])) = .ok ⟨⟨0x4006CCCCCCCCCCCD⟩,
      ⟨0x4009333333333333⟩, ⟨0xBFB9999999999995⟩, ⟨0x3FB9999999999995⟩⟩ := by
    decide +kernel
  obtain rfl := Except.ok.inj (hw.symm.trans hw')
  have hwidth : Arith.lt (⟨0x4006CCCCCCCCCCCD⟩ : Double) ⟨0x4009333333333333⟩ = true := by
    decide +kernel
  have hheight : Arith.lt (⟨0xBFB9999999999995⟩ : Double) ⟨0x3FB9999999999995⟩ = true := by
    decide +kernel
  exact ⟨⟨ht, hs, hp, hpoints, hn, hmoderate⟩, _, hw, hsides, huses, hwidth, hx.1 hwidth, hheight,
    hy.1 hheight⟩

/-- Accepted settings do not frame every finite particle. One at the smallest number makes a window
without a width, one at the largest number a window without an end, and an infinite share of no
distance is no number. -/
theorem window_collapses :
    let s : Settings Double := .default
    let wide := { s with framing := { s.framing with padding := .infinity } }
    let snapshot (x : Double) : Snapshot Double :=
      ⟨none, Arith.nat 0, [⟨x, Arith.nat 2, Arith.nat 3⟩], [], .empty⟩
    let small := snapshot ⟨1⟩
    let large := snapshot ⟨0x7FEFFFFFFFFFFFFF⟩
    let one := snapshot (Arith.nat 1)
    (s.validate = .ok () ∧ wide.validate = .ok () ∧
        ∀ t ∈ [small, large, one], ∃ p ∈ t.positions .disk, p.isFinite = true) ∧
      (∃ w, s.window (s.frames (.ofSnapshots [small])) = .ok w ∧ w.HasFiniteSides ∧
        w.xmin = ⟨1⟩ ∧ w.xmax = ⟨1⟩ ∧ Arith.lt w.xmin w.xmax = false) ∧
      (∃ w, s.window (s.frames (.ofSnapshots [large])) = .ok w ∧ ¬w.HasFiniteSides) ∧
      ∃ w, wide.window (wide.frames (.ofSnapshots [one])) = .ok w ∧ ¬w.HasFiniteSides := by
  intro s wide snapshot small large one
  have hvalid : s.validate = .ok () ∧ wide.validate = .ok () := by decide +kernel
  have hfinite : ∀ t ∈ [small, large, one], ∃ p ∈ t.positions .disk, p.isFinite = true := by
    decide +kernel
  refine ⟨⟨hvalid.1, hvalid.2, hfinite⟩, ?_, ?_, ?_⟩
  · refine ⟨⟨⟨1⟩, ⟨1⟩, ⟨0x3FFE666666666666⟩, ⟨0x4000CCCCCCCCCCCD⟩⟩, ?_, ?_, rfl, rfl, ?_⟩
    · decide +kernel
    · constructor <;> decide +kernel
    · decide +kernel
  · refine ⟨⟨⟨0x7FEE666666666665⟩, .infinity, ⟨0x3FFE666666666666⟩, ⟨0x4000CCCCCCCCCCCD⟩⟩, ?_,
      fun h => ?_⟩
    · decide +kernel
    · exact absurd h.xmax (by decide +kernel)
  · refine ⟨⟨.nan, .nan, .nan, .nan⟩, ?_, fun h => ?_⟩
    · decide +kernel
    · exact absurd h.xmin (by decide +kernel)

end Starfilm
