import Mathlib.Algebra.Order.Floor.Semiring
import Mathlib.Data.List.GetD
import Mathlib.Tactic.GCongr
import Mathlib.Tactic.Linarith
import Starfilm.Proofs.Arith.Exact
import Starfilm.Window.Percentile

/-!
# Exact percentiles

Sorted values are read at ranks that need not be whole: `atRank` joins neighbours by a line. Such a
value lies between the two neighbours (`getD_floor_le_atRank`, `atRank_le_getD_ceil`) and grows with
the rank (`atRank_mono`), also where the rank crosses from one segment to the next.

With exact arithmetic the percentile of a list that is not empty is its value at the rank of the
percentage (`percentile_map_finite`).
-/

namespace Starfilm

variable {K : Type} [Field K] [LinearOrder K] [IsStrictOrderedRing K] [FloorRing K]

/-! ## Values at ranks -/

/-- The value at a rank of some sorted values: on the line that joins the value just below the rank
to the one just above. -/
def atRank (v : List K) (r : K) : K :=
  v.getD ⌊r⌋₊ 0 + (r - ⌊r⌋₊) * (v.getD ⌈r⌉₊ 0 - v.getD ⌊r⌋₊ 0)

omit [Field K] [IsStrictOrderedRing K] [FloorRing K] in
theorem getD_le_getD {v : List K} {d : K} (hv : v.Pairwise (· ≤ ·)) {i j : ℕ} (hij : i ≤ j)
    (hj : j < v.length) : v.getD i d ≤ v.getD j d := by
  rw [List.getD_eq_getElem _ _ hj, List.getD_eq_getElem _ _ (hij.trans_lt hj)]
  rcases hij.eq_or_lt with rfl | hlt
  · exact le_rfl
  · exact List.pairwise_iff_getElem.1 hv i j (hij.trans_lt hj) hj hlt

omit [IsStrictOrderedRing K] in
/-- The rank just above may be taken to be the next one: at a whole rank nothing is added. -/
theorem atRank_eq (v : List K) {r : K} (hr : 0 ≤ r) :
    atRank v r = v.getD ⌊r⌋₊ 0 + (r - ⌊r⌋₊) * (v.getD (⌊r⌋₊ + 1) 0 - v.getD ⌊r⌋₊ 0) := by
  rcases (Nat.floor_le hr).eq_or_lt with hwhole | hlt
  · rw [atRank, hwhole, sub_self, zero_mul, zero_mul]
  · have hceil : ⌈r⌉₊ = ⌊r⌋₊ + 1 :=
      le_antisymm (Nat.ceil_le_floor_add_one r) (Nat.lt_ceil.2 hlt)
    rw [atRank, hceil]

section Sorted

variable {v : List K} (hv : v.Pairwise (· ≤ ·))

include hv

theorem getD_floor_le_atRank {r : K} (h0 : 0 ≤ r) (hr : ⌈r⌉₊ < v.length) :
    v.getD ⌊r⌋₊ 0 ≤ atRank v r := by
  have hstep := getD_le_getD (d := 0) hv (Nat.floor_le_ceil r) hr
  have hfrac := Nat.floor_le h0
  rw [atRank]
  nlinarith

theorem atRank_le_getD_ceil {r : K} (hr : ⌈r⌉₊ < v.length) :
    atRank v r ≤ v.getD ⌈r⌉₊ 0 := by
  have hstep := getD_le_getD (d := 0) hv (Nat.floor_le_ceil r) hr
  have hfrac := Nat.lt_floor_add_one r
  rw [atRank]
  nlinarith

/-- **The value grows with the rank.** -/
theorem atRank_mono {r r' : K} (h0 : 0 ≤ r) (h : r ≤ r') (hr' : ⌈r'⌉₊ < v.length) :
    atRank v r ≤ atRank v r' := by
  have h0' : 0 ≤ r' := h0.trans h
  rcases (Nat.floor_mono h).eq_or_lt with hsame | hbelow
  · -- both ranks lie on one segment, and it rises
    rcases h.eq_or_lt with rfl | hlt
    · exact le_rfl
    · have hfloor : (⌊r⌋₊ : K) < r' := (Nat.floor_le h0).trans_lt hlt
      have hnext : ⌊r⌋₊ + 1 < v.length := lt_of_le_of_lt (Nat.lt_ceil.2 hfloor) hr'
      have hstep := getD_le_getD (d := 0) hv (Nat.le_add_right ⌊r⌋₊ 1) hnext
      rw [atRank_eq v h0, atRank_eq v h0', ← hsame]
      nlinarith
  · -- a whole rank lies between
    have hceil : ⌈r⌉₊ ≤ ⌊r'⌋₊ := (Nat.ceil_le_floor_add_one r).trans hbelow
    have hfloor' : ⌊r'⌋₊ < v.length := (Nat.floor_le_ceil r').trans_lt hr'
    calc atRank v r ≤ v.getD ⌈r⌉₊ 0 := atRank_le_getD_ceil hv (hceil.trans_lt hfloor')
      _ ≤ v.getD ⌊r'⌋₊ 0 := getD_le_getD hv hceil hfloor'
      _ ≤ atRank v r' := getD_floor_le_atRank hv h0' hr'

end Sorted

/-! ## Ranks of percentages -/

/-- A percentage as a fraction. -/
def ofPercent (q : K) : K := q / 100

/-- The rank of a percentage among `n` values. -/
def rankOf (n : ℕ) (q : K) : K := max 0 (min 1 (ofPercent q)) * ((n - 1 : ℕ) : K)

omit [FloorRing K] in
theorem rankOf_nonneg (n : ℕ) (q : K) : 0 ≤ rankOf n q :=
  mul_nonneg (le_max_left _ _) (Nat.cast_nonneg _)

omit [FloorRing K] in
theorem rankOf_le (n : ℕ) (q : K) : rankOf n q ≤ ((n - 1 : ℕ) : K) :=
  mul_le_of_le_one_left (Nat.cast_nonneg _) (max_le zero_le_one (min_le_left _ _))

omit [FloorRing K] in
theorem rankOf_mono (n : ℕ) {q q' : K} (h : q ≤ q') : rankOf n q ≤ rankOf n q' := by
  unfold rankOf ofPercent
  gcongr

omit [FloorRing K] in
/-- Of a percentage between `0` and `100` nothing is cut. -/
theorem rankOf_eq (n : ℕ) {q : K} (h0 : 0 ≤ q) (h100 : q ≤ 100) :
    rankOf n q = ofPercent q * ((n - 1 : ℕ) : K) := by
  have hle : ofPercent q ≤ 1 := (div_le_one (by norm_num)).2 h100
  have hnonneg : 0 ≤ ofPercent q := div_nonneg h0 (by norm_num)
  rw [rankOf, min_eq_right hle, max_eq_right hnonneg]

theorem ceil_rankOf_lt {n : ℕ} (hn : 0 < n) (q : K) : ⌈rankOf n q⌉₊ < n := by
  have := Nat.ceil_le.2 (rankOf_le n q)
  omega

/-! ## The percentile -/

open Exact

theorem rank_finite (n : ℕ) (q : K) : rank n (finite q) = finite (rankOf n q) := by
  have hdiv : (finite q / finite ((100 : ℤ) : K) : Exact K) = finite (ofPercent q) := by
    rw [finite_div _ _ (by norm_num), ofPercent]
    norm_num
  simp only [rank, Arith.nat, ofInt_eq, Nat.cast_ofNat, hdiv, Nat.cast_zero, Int.cast_zero,
    Nat.cast_one, Int.cast_one, clamp_finite _ zero_le_one, finite_mul, rankOf, Int.cast_natCast]

theorem lowerIndex_finite {n : ℕ} {r : K} (h0 : 0 ≤ r) (hn : ⌈r⌉₊ < n) :
    lowerIndex n (finite r) = ⌊r⌋₊ := by
  have hfloor : ⌊r⌋.toNat = ⌊r⌋₊ := Int.floor_toNat r
  have hnonneg : 0 ≤ ⌊r⌋ := Int.floor_nonneg.2 h0
  have hle := Nat.floor_le_ceil r
  rw [lowerIndex, toInt_finite, Rounding.integer]
  omega

theorem upperIndex_finite {n : ℕ} {r : K} (h0 : 0 ≤ r) (hn : ⌈r⌉₊ < n) :
    upperIndex n (finite r) = ⌈r⌉₊ := by
  have hceil : ⌈r⌉.toNat = ⌈r⌉₊ := Int.ceil_toNat r
  have hnonneg : 0 ≤ ⌈r⌉ := Int.ceil_nonneg h0
  rw [upperIndex, toInt_finite, Rounding.integer]
  omega

/-- **The percentile of exact data** is its value at the rank of the percentage. -/
theorem percentile_map_finite {v : List K} (hv : v ≠ []) (q : K) :
    percentile (v.map finite) (finite q) = some (finite (atRank v (rankOf v.length q))) := by
  have hn : ⌈rankOf v.length q⌉₊ < v.length := ceil_rankOf_lt (List.length_pos_iff.2 hv) q
  have h0 := rankOf_nonneg v.length q
  have hget (i : ℕ) (hi : i < v.length) : (v.map finite)[i]? = some (finite (v.getD i 0)) := by
    rw [List.getElem?_map, List.getElem?_eq_getElem hi, List.getD_eq_getElem _ _ hi]
    rfl
  simp only [percentile, List.length_map, rank_finite, lowerIndex_finite h0 hn,
    upperIndex_finite h0 hn, hget _ hn, hget _ ((Nat.floor_le_ceil _).trans_lt hn),
    Option.bind_eq_bind, Option.bind_some, Arith.nat, ofInt_eq, Int.cast_natCast, finite_sub,
    finite_mul, finite_add, atRank]

end Starfilm
