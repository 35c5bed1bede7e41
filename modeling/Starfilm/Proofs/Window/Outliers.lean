import Starfilm.Proofs.Arith.Monotone
import Starfilm.Proofs.Window.Range

/-!
# Outliers

Percentiles read the sorted coordinates at a few places between the ends. So the values beyond these
places may be moved further out: values are *moved as outliers* (`OutliersMoved`) when some of those
that nothing exceeds become larger, some of those that exceed nothing become smaller, and the others
are kept. The sorted values then agree everywhere between the two groups
(`getElem?_mergeSort_of_moved`), for any number of values at both ends and any ties.

In double precision the ranks are rounded, and rounding keeps their order (`Double.rises_rank`): the
places that the lower percentile reads lie at or before those of the upper one.

**Main statement**: `estimate_outliers`.
-/

namespace Starfilm

open Arith

/-! ## Sorted values between the ends -/

section Sorting

variable {F ι : Type} [Arith F] [PlaceOrder F]

/-- Values of which some come before all others are sorted in two parts. -/
theorem mergeSort_map_eq_append {l : List ι} {x : ι → F} {p : ι → Bool}
    (h : ∀ i ∈ l, ∀ j ∈ l, p i = true → p j = false → totalLe (x i) (x j) = true) :
    (l.map x).mergeSort totalLe = ((l.filter p).map x).mergeSort totalLe ++
      ((l.filter fun i => !p i).map x).mergeSort totalLe := by
  have hperm : (l.map x).Perm
      (((l.filter p).map x).mergeSort totalLe ++
        ((l.filter fun i => !p i).map x).mergeSort totalLe) := by
    refine ((List.filter_append_perm p l).symm.map x).trans ?_
    rw [List.map_append]
    exact (List.mergeSort_perm _ _).symm.append (List.mergeSort_perm _ _).symm
  apply mergeSort_totalLe_eq hperm
  rw [List.pairwise_append]
  refine ⟨pairwise_mergeSort_totalLe _, pairwise_mergeSort_totalLe _, fun a ha b hb => ?_⟩
  rw [List.mem_mergeSort, List.mem_map] at ha hb
  obtain ⟨i, hi, rfl⟩ := ha
  obtain ⟨j, hj, rfl⟩ := hb
  rw [List.mem_filter] at hi hj
  exact h i hi.1 j hj.1 hi.2 (by simpa using hj.2)

/-- Some values come before all others, and some come after all others. -/
structure Ends (l : List ι) (x : ι → F) (low high : ι → Bool) : Prop where
  low_le : ∀ i ∈ l, ∀ j ∈ l, low i = true → low j = false → totalLe (x i) (x j) = true
  le_high : ∀ i ∈ l, ∀ j ∈ l, high i = false → high j = true → totalLe (x i) (x j) = true

variable {l : List ι} {x : ι → F} {low high : ι → Bool}

/-- What lies between the ends. -/
def between (l : List ι) (low high : ι → Bool) : List ι :=
  (l.filter fun i => !low i).filter fun i => !high i

theorem length_le_between (l : List ι) (low high : ι → Bool) :
    l.length ≤ l.countP low + l.countP high + (between l low high).length := by
  have hlow := l.length_eq_length_filter_add low
  have hhigh := (l.filter fun i => !low i).length_eq_length_filter_add high
  have hsub : ((l.filter fun i => !low i).filter high).length ≤ l.countP high := by
    rw [← List.countP_eq_length_filter]
    exact List.filter_sublist.countP_le
  rw [← List.countP_eq_length_filter] at hlow
  unfold between
  omega

/-- Between the ends the sorted values are the sorted others. -/
theorem Ends.getElem?_mergeSort (h : Ends l x low high) {k : ℕ} (hk : l.countP low ≤ k)
    (hk' : k + l.countP high < l.length) :
    ((l.map x).mergeSort totalLe)[k]? =
      (((between l low high).map x).mergeSort totalLe)[k - l.countP low]? := by
  have hlow : (((l.filter low).map x).mergeSort totalLe).length = l.countP low := by
    rw [List.length_mergeSort, List.length_map, List.countP_eq_length_filter]
  have hbetween : k - l.countP low < (((between l low high).map x).mergeSort totalLe).length := by
    have hlength := length_le_between l low high
    rw [List.length_mergeSort, List.length_map]
    omega
  have hhigh : ∀ i ∈ l.filter fun i => !low i, ∀ j ∈ l.filter fun i => !low i,
      (!high i) = true → (!high j) = false → totalLe (x i) (x j) = true := by
    intro i hi j hj hi' hj'
    exact h.le_high i (List.mem_of_mem_filter hi) j (List.mem_of_mem_filter hj)
      (by simpa using hi') (by simpa using hj')
  rw [mergeSort_map_eq_append h.low_le, List.getElem?_append_right (hlow.trans_le hk), hlow,
    mergeSort_map_eq_append hhigh]
  exact List.getElem?_append_left hbetween

variable {x' : ι → F}

/-- Values at the ends are moved further out, and the others are kept. -/
structure Moved (l : List ι) (x x' : ι → F) (low high : ι → Bool) : Prop where
  lowered : ∀ i ∈ l, low i = true → totalLe (x' i) (x i) = true
  raised : ∀ i ∈ l, high i = true → totalLe (x i) (x' i) = true
  kept : ∀ i ∈ l, low i = false → high i = false → x' i = x i

theorem totalLe_refl (a : F) : totalLe a a = true := by
  simpa using PlaceOrder.total a a

/-- The ends stay ends when they are moved out. -/
theorem Ends.of_moved (h : Ends l x low high) (hmoved : Moved l x x' low high) :
    Ends l x' low high := by
  have hdown : ∀ i ∈ l, high i = false → totalLe (x' i) (x i) = true := by
    intro i hi hhigh
    cases hlow : low i with
    | true => exact hmoved.lowered i hi hlow
    | false => exact hmoved.kept i hi hlow hhigh ▸ totalLe_refl _
  have hup : ∀ i ∈ l, low i = false → totalLe (x i) (x' i) = true := by
    intro i hi hlow
    cases hhigh : high i with
    | true => exact hmoved.raised i hi hhigh
    | false => exact hmoved.kept i hi hlow hhigh ▸ totalLe_refl _
  refine ⟨fun i hi j hj hlow hlow' => ?_, fun i hi j hj hhigh hhigh' => ?_⟩
  · exact PlaceOrder.trans _ _ _ (hmoved.lowered i hi hlow)
      (PlaceOrder.trans _ _ _ (h.low_le i hi j hj hlow hlow') (hup j hj hlow'))
  · exact PlaceOrder.trans _ _ _ (hdown i hi hhigh)
      (PlaceOrder.trans _ _ _ (h.le_high i hi j hj hhigh hhigh') (hmoved.raised j hj hhigh'))

/-- **Moving the ends out leaves the sorted values between them.** -/
theorem getElem?_mergeSort_of_moved (h : Ends l x low high) (hmoved : Moved l x x' low high)
    {k : ℕ} (hk : l.countP low ≤ k) (hk' : k + l.countP high < l.length) :
    ((l.map x').mergeSort totalLe)[k]? = ((l.map x).mergeSort totalLe)[k]? := by
  have hkept : (between l low high).map x' = (between l low high).map x := by
    refine List.map_congr_left fun i hi => ?_
    simp only [between, List.mem_filter, Bool.not_eq_true'] at hi
    exact hmoved.kept i hi.1.1 hi.1.2 hi.2
  rw [h.getElem?_mergeSort hk hk', (h.of_moved hmoved).getElem?_mergeSort hk hk', hkept]

end Sorting

/-! ## Lists with outliers -/

/-- The values `xs'` are `xs`, of which those in the places of `low` became smaller and those in the
places of `high` larger. No other value was smaller than one of the former, or larger than one of
the latter. -/
structure OutliersMoved {F : Type} [Arith F] (xs xs' : List F) (low high : Finset ℕ) : Prop where
  length_eq : xs'.length = xs.length
  low_le : ∀ {i j : ℕ} (hi : i < xs.length) (hj : j < xs.length), i ∈ low → j ∉ low →
    totalLe xs[i] xs[j] = true
  le_high : ∀ {i j : ℕ} (hi : i < xs.length) (hj : j < xs.length), i ∉ high → j ∈ high →
    totalLe xs[i] xs[j] = true
  lowered : ∀ {i : ℕ} (hi : i < xs.length) (hi' : i < xs'.length), i ∈ low →
    totalLe xs'[i] xs[i] = true
  raised : ∀ {i : ℕ} (hi : i < xs.length) (hi' : i < xs'.length), i ∈ high →
    totalLe xs[i] xs'[i] = true
  kept : ∀ {i : ℕ} (hi : i < xs.length) (hi' : i < xs'.length), i ∉ low → i ∉ high →
    xs'[i] = xs[i]

/-- Whether values were moved as outliers can be computed. -/
instance {F : Type} [Arith F] [DecidableEq F] {xs xs' : List F} {low high : Finset ℕ} :
    Decidable (OutliersMoved xs xs' low high) :=
  decidable_of_iff
    (xs'.length = xs.length ∧
      (∀ i, ∀ hi : i < xs.length, ∀ j, ∀ hj : j < xs.length,
        (i ∈ low → j ∉ low → totalLe xs[i] xs[j] = true) ∧
          (i ∉ high → j ∈ high → totalLe xs[i] xs[j] = true)) ∧
      ∀ i, ∀ hi : i < xs.length, ∀ hi' : i < xs'.length,
        (i ∈ low → totalLe xs'[i] xs[i] = true) ∧ (i ∈ high → totalLe xs[i] xs'[i] = true) ∧
          (i ∉ low → i ∉ high → xs'[i] = xs[i]))
    ⟨fun h => ⟨h.1, fun hi hj => (h.2.1 _ hi _ hj).1, fun hi hj => (h.2.1 _ hi _ hj).2,
        fun hi hi' => (h.2.2 _ hi hi').1, fun hi hi' => (h.2.2 _ hi hi').2.1,
        fun hi hi' => (h.2.2 _ hi hi').2.2⟩,
      fun h => ⟨h.length_eq, fun _ hi _ hj => ⟨h.low_le hi hj, h.le_high hi hj⟩,
        fun _ hi hi' => ⟨h.lowered hi hi', h.raised hi hi', h.kept hi hi'⟩⟩⟩

section Lists

variable {F : Type} [Arith F] [PlaceOrder F] {xs xs' : List F} {low high : Finset ℕ}

theorem countP_finRange_le (n : ℕ) (s : Finset ℕ) :
    (List.finRange n).countP (fun i => decide (i.1 ∈ s)) ≤ s.card := by
  have hnodup : (((List.finRange n).filter fun i => decide (i.1 ∈ s)).map Fin.val).Nodup :=
    ((List.nodup_finRange n).filter _).map Fin.val_injective
  have hsub : (((List.finRange n).filter fun i => decide (i.1 ∈ s)).map Fin.val).toFinset ⊆ s := by
    intro k hk
    simp only [List.mem_toFinset, List.mem_map, List.mem_filter, decide_eq_true_eq] at hk
    obtain ⟨i, ⟨-, hi⟩, rfl⟩ := hk
    exact hi
  calc (List.finRange n).countP (fun i => decide (i.1 ∈ s))
      = (((List.finRange n).filter fun i => decide (i.1 ∈ s)).map Fin.val).length := by
        rw [List.countP_eq_length_filter, List.length_map]
    _ = (((List.finRange n).filter fun i => decide (i.1 ∈ s)).map Fin.val).toFinset.card :=
        (List.toFinset_card_of_nodup hnodup).symm
    _ ≤ s.card := Finset.card_le_card hsub

/-- The sorted values agree between the places of the outliers. -/
theorem OutliersMoved.getElem?_mergeSort (h : OutliersMoved xs xs' low high) {k : ℕ}
    (hk : low.card ≤ k) (hk' : k + high.card < xs.length) :
    (xs'.mergeSort totalLe)[k]? = (xs.mergeSort totalLe)[k]? := by
  let x (i : Fin xs.length) : F := xs[i.1]
  have hlt (i : Fin xs.length) : i.1 < xs'.length := h.length_eq.symm ▸ i.2
  let x' (i : Fin xs.length) : F := xs'.get ⟨i.1, hlt i⟩
  let l := List.finRange xs.length
  have hxs : l.map x = xs := List.map_getElem_finRange xs
  have hxs' : l.map x' = xs' := by
    refine List.ext_getElem ?_ fun i _ _ => ?_
    · simp [l, h.length_eq]
    · simp [l, x']
  have hends : Ends l x (fun i => decide (i.1 ∈ low)) (fun i => decide (i.1 ∈ high)) := by
    constructor
    · intro i _ j _ hi hj
      exact h.low_le i.2 j.2 (of_decide_eq_true hi) (of_decide_eq_false hj)
    · intro i _ j _ hi hj
      exact h.le_high i.2 j.2 (of_decide_eq_false hi) (of_decide_eq_true hj)
  have hmoved : Moved l x x' (fun i => decide (i.1 ∈ low)) (fun i => decide (i.1 ∈ high)) := by
    constructor
    · exact fun i _ hi => h.lowered i.2 (hlt i) (of_decide_eq_true hi)
    · exact fun i _ hi => h.raised i.2 (hlt i) (of_decide_eq_true hi)
    · exact fun i _ hi hi' => h.kept i.2 (hlt i) (of_decide_eq_false hi) (of_decide_eq_false hi')
  have hlow : l.countP (fun i => decide (i.1 ∈ low)) ≤ k := (countP_finRange_le _ low).trans hk
  have hhigh : k + l.countP (fun i => decide (i.1 ∈ high)) < l.length :=
    calc k + l.countP (fun i => decide (i.1 ∈ high)) ≤ k + high.card :=
          Nat.add_le_add_left (countP_finRange_le _ high) k
      _ < xs.length := hk'
      _ = l.length := List.length_finRange.symm
  have hmain := getElem?_mergeSort_of_moved hends hmoved hlow hhigh
  rwa [hxs, hxs'] at hmain

end Lists

/-! ## Ranks in double precision -/

namespace Double

theorem zero_le_one : Arith.le (Arith.nat 0) (Arith.nat 1 : Double) = true := zero_le_nat 1

theorem one_le_one : Arith.le (Arith.nat 1) (Arith.nat 1 : Double) = true := by decide +kernel

section Percentages

variable {x y : Double} (hx : Arith.le (Arith.nat 0) x = true)

include hx

/-- A number that is not negative is cut at `1` only. -/
theorem clamp_eq : Arith.clamp (Arith.nat 0) (Arith.nat 1) x =
    if Arith.le x (Arith.nat 1) = true then x else Arith.nat 1 := by
  have hlow : Arith.lt x (Arith.nat 0) = false := by
    rw [Arith.lt, hx, Bool.not_true, Bool.and_false]
  rw [Arith.clamp, hlow, if_neg Bool.false_ne_true, Arith.lt]
  by_cases h : Arith.le x (Arith.nat 1) = true
  · rw [h, Bool.not_true, Bool.and_false, if_neg Bool.false_ne_true, if_pos rfl]
  · have hone : Arith.le (Arith.nat 1) x = true := by
      rw [le_iff_magnitude_le zero_le_one hx]
      rw [le_iff_magnitude_le hx zero_le_one] at h
      omega
    rw [Bool.eq_false_of_not_eq_true h, hone]
    rfl

theorem clamp_mem : Arith.le (Arith.nat 0) (Arith.clamp (Arith.nat 0) (Arith.nat 1) x) = true ∧
    Arith.le (Arith.clamp (Arith.nat 0) (Arith.nat 1) x) (Arith.nat 1) = true := by
  rw [clamp_eq hx]
  split_ifs with h
  · exact ⟨hx, h⟩
  · exact ⟨zero_le_one, one_le_one⟩

theorem clamp_le_clamp (hxy : Arith.le x y = true) :
    Arith.le (Arith.clamp (Arith.nat 0) (Arith.nat 1) x)
      (Arith.clamp (Arith.nat 0) (Arith.nat 1) y) = true := by
  have hy := le_trans_of_le hx hxy
  rw [clamp_eq hy]
  split_ifs with h
  · rw [clamp_eq hx, if_pos (le_trans_of_le hxy h)]
    exact hxy
  · exact (clamp_mem hx).2

end Percentages

/-- **Ranks grow with the percentage**, or the smaller one is no number. -/
theorem rises_rank (n : ℕ) {p q : Double} (hp : Arith.le (Arith.nat 0) p = true)
    (hpq : Arith.le p q = true) (hq : Arith.le q (Arith.nat 100) = true) :
    Rises (rank n p) (rank n q) := by
  have hhundred : Arith.isFinite (Arith.nat 100 : Double) = true := by decide +kernel
  have hone : Arith.isFinite (Arith.nat 1 : Double) = true := by decide +kernel
  have hsize : (Arith.nat 100 : Double).size ≠ 0 := by
    rw [Ne, size_eq_zero_iff hhundred]
    decide +kernel
  have hq₀ := le_trans_of_le hp hpq
  have hqf := isFinite_of_le hq₀ hq hhundred
  have hpf := isFinite_of_le hp hpq hqf
  have hdiv := div_le_div hp (zero_le_nat 100) hhundred hpq hqf hsize
  have hdiv₀ := zero_le_div hp (zero_le_nat 100) hhundred hpf hsize
  have hclamp := clamp_mem (le_trans_of_le hdiv₀ hdiv)
  exact rises_mul (clamp_mem hdiv₀).1 (zero_le_nat (n - 1)) (clamp_le_clamp hdiv₀ hdiv)
    (isFinite_of_le hclamp.1 hclamp.2 hone)

section Indices

variable {r r' : Double} (h : Rises r r') (n : ℕ)

include h

theorem Rises.lowerIndex_le_lowerIndex : lowerIndex n r ≤ lowerIndex n r' := by
  rw [lowerIndex, lowerIndex]
  rcases h with hnan | ⟨hr, hrr'⟩
  · rw [toInt_eq_zero hnan]
    exact Nat.zero_le _
  · exact Int.toNat_le_toNat (toInt_le_toInt n hr hrr').1

theorem Rises.upperIndex_le_upperIndex : upperIndex n r ≤ upperIndex n r' := by
  rw [upperIndex, upperIndex]
  rcases h with hnan | ⟨hr, hrr'⟩
  · rw [toInt_eq_zero hnan]
    exact Nat.zero_le _
  · exact Int.toNat_le_toNat (toInt_le_toInt n hr hrr').2

theorem Rises.lowerIndex_le_upperIndex : lowerIndex n r ≤ upperIndex n r := by
  rw [lowerIndex, upperIndex]
  rcases h with hnan | ⟨hr, -⟩
  · rw [toInt_eq_zero hnan]
    exact Nat.zero_le _
  · exact Int.toNat_le_toNat (toInt_down_le_toInt_up n hr)

end Indices

end Double

/-! ## Percentiles and windows -/

open Double

/-- The percentile of sorted values is made of the two that its rank lies between. -/
theorem percentile_congr {F : Type} [Arith F] {v w : List F} (hlength : w.length = v.length) (q : F)
    (hlower : w[lowerIndex v.length (rank v.length q)]? =
      v[lowerIndex v.length (rank v.length q)]?)
    (hupper : w[upperIndex v.length (rank v.length q)]? =
      v[upperIndex v.length (rank v.length q)]?) :
    percentile w q = percentile v q := by
  rw [percentile, percentile, hlength, hlower, hupper]

/-- What accepted percentages are in double precision. -/
theorem Framing.percentages_of_validate {s : Framing Double} (hs : s.validate = .ok ()) :
    Arith.le (Arith.nat 0) s.lowerPercentile = true ∧
      Arith.le s.lowerPercentile s.upperPercentile = true ∧
      Arith.le s.upperPercentile (Arith.nat 100) = true := by
  rw [validate_eq_ok_iff, isPercentage_iff, isPercentage_iff] at hs
  obtain ⟨⟨hl, -⟩, ⟨hu, hu'⟩, hlu, -⟩ := hs
  refine ⟨hl, ?_, hu'⟩
  rw [le_iff_magnitude_le hl hu]
  rw [← Bool.not_eq_true, le_iff_magnitude_le hu hl] at hlu
  omega

section Accepted

variable {s : Framing Double} (hs : s.validate = .ok ()) {xs xs' : List Double}
  {low high : Finset ℕ}
  (hlow : low.card ≤ lowerIndex xs.length (rank xs.length s.lowerPercentile))
  (hhigh : high.card ≤ xs.length - 1 - upperIndex xs.length (rank xs.length s.upperPercentile))

include hs hlow hhigh

/-- **Outliers do not move the padded range.** -/
theorem paddedRange_of_outliersMoved (h : OutliersMoved xs xs' low high) :
    paddedRange s xs' = paddedRange s xs := by
  obtain ⟨hl, hlu, hu⟩ := Framing.percentages_of_validate hs
  have hlower := rises_rank xs.length hl hlu hu
  have hupper := rises_rank xs.length (le_trans_of_le hl hlu) (le_refl_of_le hlu) hu
  have hlower_le := hlower.lowerIndex_le_upperIndex xs.length
  have hupper_le := hlower.upperIndex_le_upperIndex xs.length
  have hread {k : ℕ} (hk : lowerIndex xs.length (rank xs.length s.lowerPercentile) ≤ k)
      (hk' : k ≤ upperIndex xs.length (rank xs.length s.upperPercentile)) :
      (xs'.mergeSort totalLe)[k]? = (xs.mergeSort totalLe)[k]? := by
    by_cases hlt : k < xs.length
    · exact h.getElem?_mergeSort (hlow.trans hk) (by omega)
    · rw [List.getElem?_eq_none, List.getElem?_eq_none]
      · rw [List.length_mergeSort]
        omega
      · rw [List.length_mergeSort, h.length_eq]
        omega
  have hlength : (xs'.mergeSort totalLe).length = (xs.mergeSort totalLe).length := by
    rw [List.length_mergeSort, List.length_mergeSort, h.length_eq]
  have hpercentile := percentile_congr hlength
  rw [List.length_mergeSort] at hpercentile
  rw [paddedRange, paddedRange,
    hpercentile s.lowerPercentile (hread le_rfl (hlower_le.trans hupper_le))
      (hread hlower_le hupper_le),
    hpercentile s.upperPercentile
      (hread (hlower.lowerIndex_le_lowerIndex xs.length)
        (hupper.lowerIndex_le_upperIndex xs.length))
      (hread (hlower_le.trans hupper_le) le_rfl)]

end Accepted

/-- **Outliers do not move the camera.** Of `n` finite points, in whatever order they are listed,
let as many be outliers to the left as the place that the lower percentile reads first, and as many
to the right as lie behind the place that the upper percentile reads last. However far they are
moved out, the sides of the window keep all their bits; so do its lower and upper side, where the
height is taken from the points. Where it follows the width, the ordinates are not looked at. -/
theorem estimate_outliers {s : Framing Double} (hs : s.validate = .ok ())
    {sets sets' : List (List (Point Double))} {points points' : List (Point Double)}
    (hpoints : (points : Multiset (Point Double)) = finitePoints sets)
    (hpoints' : (points' : Multiset (Point Double)) = finitePoints sets') (hne : points ≠ [])
    {low high : Finset ℕ}
    (hlow : low.card ≤ lowerIndex points.length (rank points.length s.lowerPercentile))
    (hhigh : high.card ≤
      points.length - 1 - upperIndex points.length (rank points.length s.upperPercentile)) :
    (OutliersMoved (points.map (·.x)) (points'.map (·.x)) low high →
      ∀ thin, ∃ w w', estimate s thin sets = .ok w ∧ estimate s thin sets' = .ok w' ∧
        w'.xmin = w.xmin ∧ w'.xmax = w.xmax) ∧
    (OutliersMoved (points.map (·.y)) (points'.map (·.y)) low high →
      ∃ w w', estimate s false sets = .ok w ∧ estimate s false sets' = .ok w' ∧
        w'.ymin = w.ymin ∧ w'.ymax = w.ymax) ∧
    (points'.map (·.x) = points.map (·.x) →
      ∃ w, estimate s true sets = .ok w ∧ estimate s true sets' = .ok w) := by
  have hne' {c : Point Double → Double} (h : (points'.map c).length = (points.map c).length) :
      points' ≠ [] := by
    rw [List.length_map, List.length_map] at h
    rwa [← List.length_pos_iff, h, List.length_pos_iff]
  refine ⟨fun h thin => ?_, fun h => ?_, fun h => ?_⟩
  · have hrange := paddedRange_of_outliersMoved hs (by rwa [List.length_map])
      (by rwa [List.length_map]) h
    refine ⟨_, _, estimate_eq_windowOf s thin hpoints hne,
      estimate_eq_windowOf s thin hpoints' (hne' h.length_eq), ?_⟩
    simp only [windowOf, hrange, and_self]
  · have hrange := paddedRange_of_outliersMoved hs (by rwa [List.length_map])
      (by rwa [List.length_map]) h
    refine ⟨_, _, estimate_eq_windowOf s false hpoints hne,
      estimate_eq_windowOf s false hpoints' (hne' h.length_eq), ?_⟩
    simp only [windowOf, hrange, Bool.false_eq_true, if_false, and_self]
  · refine ⟨_, estimate_eq_windowOf s true hpoints hne, ?_⟩
    rw [estimate_eq_windowOf s true hpoints' (hne' (congrArg List.length h)), h]
    simp only [windowOf, if_true]

/-- Five points on a line, of which the outer ones are moved away. -/
theorem estimate_outliers_five :
    let s : Framing Double := { Framing.default with
      lowerPercentile := Arith.nat 25, upperPercentile := Arith.nat 75 }
    let points (xs : List ℤ) : List (Point Double) :=
      xs.map fun k => ⟨Arith.ofInt k, Arith.nat 7⟩
    let sets := [points [0, 1], points [2, 3, 4]]
    let sets' := [points [-1000, 1], points [2, 3, 5000]]
    let pooled := points [0, 1, 2, 3, 4]
    let pooled' := points [-1000, 1, 2, 3, 5000]
    (s.validate = .ok () ∧ (pooled : Multiset (Point Double)) = finitePoints sets ∧
      (pooled' : Multiset (Point Double)) = finitePoints sets' ∧ pooled ≠ [] ∧
      ({0} : Finset ℕ).card ≤ lowerIndex pooled.length (rank pooled.length s.lowerPercentile) ∧
      ({4} : Finset ℕ).card ≤
        pooled.length - 1 - upperIndex pooled.length (rank pooled.length s.upperPercentile) ∧
      OutliersMoved (pooled.map (·.x)) (pooled'.map (·.x)) {0} {4}) ∧
      ∃ w w', estimate s true sets = .ok w ∧ estimate s true sets' = .ok w' ∧
        w'.xmin = w.xmin ∧ w'.xmax = w.xmax := by
  intro s points sets sets' pooled pooled'
  have hs : s.validate = .ok () := by decide +kernel
  have hpooled : (pooled : Multiset (Point Double)) = finitePoints sets := by decide +kernel
  have hpooled' : (pooled' : Multiset (Point Double)) = finitePoints sets' := by decide +kernel
  have hne : pooled ≠ [] := by decide +kernel
  have hlow : ({0} : Finset ℕ).card ≤
      lowerIndex pooled.length (rank pooled.length s.lowerPercentile) := by
    decide +kernel
  have hhigh : ({4} : Finset ℕ).card ≤
      pooled.length - 1 - upperIndex pooled.length (rank pooled.length s.upperPercentile) := by
    decide +kernel
  have hmoved : OutliersMoved (pooled.map (·.x)) (pooled'.map (·.x)) {0} {4} := by
    decide +kernel
  exact ⟨⟨hs, hpooled, hpooled', hne, hlow, hhigh, hmoved⟩,
    (estimate_outliers hs hpooled hpooled' hne hlow hhigh).1 hmoved true⟩

end Starfilm
