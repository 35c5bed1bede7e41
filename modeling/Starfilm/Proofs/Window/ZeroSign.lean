import Starfilm.Proofs.Arith.ZeroSign
import Starfilm.Proofs.Window.Pooling
import Starfilm.Proofs.Window.Widening

/-!
# Windows and the sign of zero

Coordinates that are zeros may change their signs without a consequence but a sign of a zero in the
window (`estimate_plain`). Sorting puts the two zeros in different places, but beside each other; a
percentile is a sum of products of differences; and where a range is widened, its lower end is not a
zero before, and so not after either (`Double.magnitude_sub_share_ne_zero`). Width and height keep
all their bits, since the ends of a range are never both zero.
-/

namespace Starfilm

open Arith

/-- A point without the signs of zeros. -/
def Point.plain (p : Point Double) : Point Double := ⟨p.x.plain, p.y.plain⟩

/-- A window without the signs of zeros. -/
def Window.plain (w : Window Double) : Window Double :=
  ⟨w.xmin.plain, w.xmax.plain, w.ymin.plain, w.ymax.plain⟩

namespace Double

/-! ## Percentiles -/

theorem placeKey_plain (x : Double) :
    x.plain.placeKey = if x.magnitude = 0 then 0 else x.placeKey := by
  unfold plain
  split_ifs <;> rfl

/-- Taking the signs from zeros keeps the order of places. -/
theorem totalLe_plain {x y : Double} (h : totalLe x y = true) :
    totalLe x.plain y.plain = true := by
  have hkey : x.placeKey ≤ y.placeKey := of_decide_eq_true h
  refine decide_eq_true ?_
  rw [placeKey_plain, placeKey_plain]
  unfold placeKey at *
  split_ifs at * <;> omega

theorem mergeSort_map_plain (xs : List Double) :
    (xs.map plain).mergeSort totalLe = (xs.mergeSort totalLe).map plain :=
  mergeSort_totalLe_eq ((List.mergeSort_perm xs totalLe).symm.map plain)
    ((pairwise_mergeSort_totalLe xs).map plain fun _ _ => totalLe_plain)

theorem plain_line (c x y : Double) :
    (x.plain + c * (y.plain - x.plain)).plain = (x + c * (y - x)).plain :=
  plain_add_congr x.plain_plain (plain_mul_congr rfl (plain_sub y x))

theorem plain_percentile (v : List Double) (q : Double) :
    (percentile (v.map plain) q).map plain = (percentile v q).map plain := by
  rw [percentile, percentile, List.length_map, List.getElem?_map, List.getElem?_map]
  generalize rank v.length q = r
  generalize lowerIndex v.length r = i
  generalize upperIndex v.length r = j
  generalize r - Arith.nat i = c
  cases v[i]? with
  | none => simp only [Option.map_none, Option.bind_eq_bind, Option.bind_none]
  | some lo =>
    cases v[j]? with
    | none =>
      simp only [Option.map_none, Option.map_some, Option.bind_eq_bind, Option.bind_some,
        Option.bind_none]
    | some hi =>
      simp only [Option.map_some, Option.bind_eq_bind, Option.bind_some, plain_line]

/-! ## Ranges -/

/-- A share of a number leaves something of it: a number that is not zero does not become zero. -/
theorem magnitude_sub_share_ne_zero {x : Double} (hx : x.magnitude ≠ 0) :
    (x - x.share).magnitude ≠ 0 := by
  by_cases hxf : Arith.isFinite x = true
  · have hshare := isFinite_share hxf
    have hlt : x.share.magnitude < x.magnitude := by
      have hsize := x.size_nonneg
      have hhalf : nearest (7205759403792794 / 2 ^ 57 * x.size) ≤ nearest (x.size / 2) :=
        nearest_le_nearest (by positivity) (by linarith)
      have := nearest_half_lt hxf hx
      rw [magnitude_share hxf, roundedMagnitude]
      omega
    refine magnitude_sub_ne_zero hxf hshare fun heq => ?_
    have hsizes := congrArg abs heq
    rw [abs_value, abs_value] at hsizes
    exact hlt.not_ge ((size_le_size_iff hxf hshare).1 hsizes.le)
  · intro hzero
    have hdiff : Arith.isFinite (x - x.share) = true := isFinite_iff_magnitude_lt.2 (by omega)
    exact hxf (isFinite_of_sub hdiff).1

/-- Two ranges that are the same up to the signs of zeros, and of one width. -/
structure SameRange (r r' : Double × Double) : Prop where
  fst : r.1.plain = r'.1.plain
  snd : r.2.plain = r'.2.plain
  width : r.2 - r.1 = r'.2 - r'.1

theorem sameRange_nonsingular (lo hi : Double) :
    SameRange (nonsingular lo.plain hi.plain) (nonsingular lo hi) := by
  have hlt : Arith.lt lo.plain hi.plain = Arith.lt lo hi := by
    simp only [Arith.lt, le_plain_left, le_plain_right]
  have heqv : Arith.eqv lo.plain (Arith.nat 0) = Arith.eqv lo (Arith.nat 0) := by
    simp only [Arith.eqv, le_plain_left, le_plain_right]
  rw [nonsingular_eq, nonsingular_eq, hlt, heqv]
  split_ifs with h h'
  · refine ⟨plain_plain lo, plain_plain hi, sub_plain ?_⟩
    by_contra hzero
    obtain ⟨hlo, hhi⟩ := not_or.1 hzero
    rw [← hlt, plain_of_magnitude_eq_zero (not_not.1 hlo),
      plain_of_magnitude_eq_zero (not_not.1 hhi)] at h
    exact absurd h (by decide)
  · exact ⟨rfl, rfl, rfl⟩
  · have hne : lo.magnitude ≠ 0 := by
      intro hzero
      rw [← heqv, plain_of_magnitude_eq_zero hzero] at h'
      exact h' (by decide +kernel)
    have hlo : lo.plain = lo := if_neg hne
    have hshare : hi.plain.share = hi.share := by rw [share, share, arith_magnitude_plain]
    have hhi : (hi.plain + hi.share).plain = (hi + hi.share).plain :=
      plain_add_congr hi.plain_plain rfl
    have hend := magnitude_sub_share_ne_zero hne
    rw [hlo, hshare]
    refine ⟨rfl, hhi, ?_⟩
    rw [← sub_plain (.inr hend), hhi, sub_plain (.inr hend)]

theorem SameRange.of_plain {lo hi lo' hi' : Double} (hlo : lo.plain = lo'.plain)
    (hhi : hi.plain = hi'.plain) : SameRange (nonsingular lo hi) (nonsingular lo' hi') := by
  have h := sameRange_nonsingular lo hi
  have h' := sameRange_nonsingular lo' hi'
  rw [hlo, hhi] at h
  exact ⟨h.fst.symm.trans h'.fst, h.snd.symm.trans h'.snd, h.width.symm.trans h'.width⟩

theorem sameRange_paddedRange (s : Framing Double) {xs ys : List Double}
    (h : xs.map plain = ys.map plain) : SameRange (paddedRange s xs) (paddedRange s ys) := by
  have hpercentile (q : Double) :
      ((percentile (xs.mergeSort totalLe) q).getD (Arith.nat 0)).plain =
        ((percentile (ys.mergeSort totalLe) q).getD (Arith.nat 0)).plain := by
    rw [← Option.getD_map plain, ← Option.getD_map plain, ← plain_percentile (xs.mergeSort _),
      ← plain_percentile (ys.mergeSort _), ← mergeSort_map_plain, ← mergeSort_map_plain, h]
  have hlo := hpercentile s.lowerPercentile
  have hhi := hpercentile s.upperPercentile
  rw [paddedRange, paddedRange]
  generalize (percentile (xs.mergeSort totalLe) s.lowerPercentile).getD (Arith.nat 0) = lo at *
  generalize (percentile (ys.mergeSort totalLe) s.lowerPercentile).getD (Arith.nat 0) = lo' at *
  generalize (percentile (xs.mergeSort totalLe) s.upperPercentile).getD (Arith.nat 0) = hi at *
  generalize (percentile (ys.mergeSort totalLe) s.upperPercentile).getD (Arith.nat 0) = hi' at *
  have hpad : (s.padding * (hi - lo)).plain = (s.padding * (hi' - lo')).plain :=
    plain_mul_congr rfl (plain_sub_congr hhi hlo)
  exact .of_plain (plain_sub_congr hlo hpad) (plain_add_congr hhi hpad)

end Double

/-! ## Windows -/

/-- Two windows that are the same up to the signs of zeros, and of one width and one height. -/
structure Window.Same (w w' : Window Double) : Prop where
  plain_eq : w.plain = w'.plain
  width_eq : w.width = w'.width
  height_eq : w.height = w'.height

open Double in
theorem same_windowOf (s : Framing Double) (thin : Bool) {xs ys xs' ys' : List Double}
    (hx : xs.map plain = xs'.map plain) (hy : ys.map plain = ys'.map plain) :
    (windowOf s thin xs ys).Same (windowOf s thin xs' ys') := by
  have hxrange := sameRange_paddedRange s hx
  have hyrange := sameRange_paddedRange s hy
  cases thin with
  | false =>
    simp only [windowOf, Bool.false_eq_true, if_false]
    constructor
    · simp only [Window.plain, hxrange.fst, hxrange.snd, hyrange.fst, hyrange.snd]
    · simp only [Window.width, hxrange.width]
    · simp only [Window.height, hyrange.width]
  | true =>
    simp only [windowOf, if_true, hxrange.width]
    constructor
    · simp only [Window.plain, hxrange.fst, hxrange.snd]
    · simp only [Window.width, hxrange.width]
    · simp only [Window.height]

/-- **The window does not depend on the signs of zeros**, but for the signs of zeros in it. -/
theorem estimate_plain (s : Framing Double) (thin : Bool) {sets sets' : List (List (Point Double))}
    (h : sets.map (fun ps => ps.map Point.plain) = sets'.map fun ps => ps.map Point.plain) :
    estimate s thin sets = .error .nothingToFrame ∧
        estimate s thin sets' = .error .nothingToFrame ∨
      ∃ w w', estimate s thin sets = .ok w ∧ estimate s thin sets' = .ok w' ∧ w.Same w' := by
  have hfinite (p : Point Double) : p.plain.isFinite = p.isFinite := by
    simp only [Point.isFinite, Point.plain, Double.isFinite_plain]
  have hpool : (pool sets).map Point.plain = (pool sets').map Point.plain := by
    rw [← pool_map hfinite, ← pool_map hfinite, h]
  by_cases hne : pool sets = []
  · have hne' : pool sets' = [] := by
      rwa [hne, List.map_nil, eq_comm, List.map_eq_nil_iff] at hpool
    exact .inl ⟨estimate_of_pool_eq_nil s thin hne, estimate_of_pool_eq_nil s thin hne'⟩
  · have hne' : pool sets' ≠ [] := by
      intro hnil
      rw [hnil, List.map_nil, List.map_eq_nil_iff] at hpool
      exact hne hpool
    have hcoordinate (c : Point Double → Double)
        (hc : ∀ p : Point Double, c p.plain = (c p).plain) :
        ((pool sets).map c).map Double.plain = ((pool sets').map c).map Double.plain := by
      have := congrArg (List.map c) hpool
      simpa only [List.map_map, Function.comp_def, hc] using this
    exact .inr ⟨_, _, estimate_of_pool_ne_nil s thin hne, estimate_of_pool_ne_nil s thin hne',
      same_windowOf s thin (hcoordinate (·.x) fun _ => rfl) (hcoordinate (·.y) fun _ => rfl)⟩

end Starfilm
