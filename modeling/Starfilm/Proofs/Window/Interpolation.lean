import Starfilm.Proofs.Arith.Finiteness
import Starfilm.Proofs.Arith.Interpolation
import Starfilm.Proofs.Window.Outliers

/-!
# Percentiles in double precision

A percentile of sorted numbers is interpolated between two of them, and lies between them
(`Double.ReadAt.le_le`). Ranks are rounded too, but grow with the percentage, and so do the
percentiles themselves (`Double.ReadAt.value_le`). For that there must not be so many numbers that
their indices cannot be told apart any more.
-/

namespace Starfilm

open Arith

namespace Double

/-! ## Ranks -/

/-- A rank among `n` values. -/
structure IsRank (n : ℕ) (r : Double) : Prop where
  zero_le : Arith.le (Arith.nat 0) r = true
  isFinite : Arith.isFinite r = true
  ceil_lt : ⌈r.size⌉₊ < n

section Ranks

variable {n : ℕ}

/-- The rank of a percentage is one. -/
theorem isRank_rank (hn : n ≤ 2 ^ 53) (hpos : 0 < n) {p : Double}
    (hp : Arith.le (Arith.nat 0) p = true) (hp' : Arith.le p (Arith.nat 100) = true) :
    IsRank n (rank n p) := by
  have hhundred : Arith.isFinite (Arith.nat 100 : Double) = true := by decide +kernel
  have hone : Arith.isFinite (Arith.nat 1 : Double) = true := by decide +kernel
  have hsize : (Arith.nat 100 : Double).size ≠ 0 := by
    rw [Ne, size_eq_zero_iff hhundred]
    decide +kernel
  obtain ⟨hlast, hlastSize⟩ := size_nat ((Nat.sub_le n 1).trans hn)
  obtain ⟨hc₀, hc₁⟩ := clamp_mem
    (zero_le_div hp (zero_le_nat 100) hhundred (isFinite_of_le hp hp' hhundred) hsize)
  rw [rank]
  generalize Arith.clamp (Arith.nat 0) (Arith.nat 1) (p / Arith.nat 100) = c at hc₀ hc₁
  have hcf := isFinite_of_le hc₀ hc₁ hone
  have hcsize : c.size ≤ 1 := by
    have h := size_le_size hc₀ hc₁ hone
    rwa [(size_nat (n := 1) (by norm_num)).2, Nat.cast_one] at h
  have hround := rounds_mul hcf hlast
  have hzero := zero_le_mul hc₀ (zero_le_nat (n - 1)) hlast hcf
  have hle : Arith.le (c * Arith.nat (n - 1)) (Arith.nat (n - 1)) = true := by
    refine hround.le (rounds_value hlast) ?_
    rw [value_of_zero_le hc₀, value_of_zero_le (zero_le_nat _)]
    exact mul_le_of_le_one_left (size_nonneg _) hcsize
  refine ⟨hzero, isFinite_of_le hzero hle hlast, ?_⟩
  have hsize' := size_le_size hzero hle hlast
  rw [hlastSize] at hsize'
  exact (Nat.ceil_le.2 hsize').trans_lt (Nat.sub_lt hpos one_pos)

variable {r : Double} (hr : IsRank n r)

include hr

theorem IsRank.lowerIndex_eq : lowerIndex n r = ⌊r.size⌋₊ := by
  have hfloor := Nat.floor_le_ceil r.size
  have hceil := hr.ceil_lt
  rw [lowerIndex, toInt_down n hr.zero_le hr.isFinite, Int.toNat_natCast]
  omega

theorem IsRank.upperIndex_eq : upperIndex n r = ⌈r.size⌉₊ := by
  have hceil := hr.ceil_lt
  rw [upperIndex, toInt_up n hr.zero_le hr.isFinite, Int.toNat_natCast]
  omega

/-- What a rank has behind the point. -/
theorem IsRank.fraction (hn : n ≤ 2 ^ 53) :
    let f := r - Arith.nat ⌊r.size⌋₊
    Rounds f (r.size - ⌊r.size⌋₊) ∧ Arith.isFinite f = true ∧
      Arith.le (Arith.nat 0) f = true ∧ f.size < 1 := by
  have hfloor := Nat.floor_le_ceil r.size
  have hceil := hr.ceil_lt
  obtain ⟨hround, hfinite, hsize⟩ := size_fraction hr.zero_le hr.isFinite (by omega)
  refine ⟨hround, hfinite, hround.zero_le (sub_nonneg.2 (Nat.floor_le r.size_nonneg)), ?_⟩
  rw [hsize]
  linarith [Nat.lt_floor_add_one r.size]

end Ranks

/-! ## Percentiles -/

/-- Finite numbers in the order of their places. -/
structure Ordered (v : List Double) : Prop where
  isFinite : ∀ x ∈ v, Arith.isFinite x = true
  sorted : v.Pairwise fun x y => totalLe x y = true

/-- A number is read off others at a rank: interpolated between the two that lie around it. -/
structure ReadAt (v : List Double) (r p x y : Double) : Prop where
  lower : v[⌊r.size⌋₊]? = some x
  upper : v[⌈r.size⌉₊]? = some y
  eq_add : p = x + (r - Arith.nat ⌊r.size⌋₊) * (y - x)

/-- What has an earlier place is no larger. -/
theorem valueKey_le_of_totalLe {x y : Double} (h : totalLe x y = true) :
    x.valueKey ≤ y.valueKey := by
  have hplace : x.placeKey ≤ y.placeKey := of_decide_eq_true h
  unfold placeKey at hplace
  unfold valueKey
  split_ifs at * <;> omega

section Percentiles

variable {v : List Double} {r r' p p' x x' y y' : Double}

theorem exists_readAt (hr : IsRank v.length r) :
    ∃ p x y, ReadAt v r p x y :=
  ⟨_, _, _, List.getElem?_eq_getElem ((Nat.floor_le_ceil _).trans_lt hr.ceil_lt),
    List.getElem?_eq_getElem hr.ceil_lt, rfl⟩

theorem percentile_eq_some {q : Double} (hr : IsRank v.length (rank v.length q))
    (h : ReadAt v (rank v.length q) p x y) : percentile v q = some p := by
  rw [percentile, hr.lowerIndex_eq, hr.upperIndex_eq, h.lower, h.upper, h.eq_add]
  rfl

variable (hv : Ordered v)

include hv

theorem Ordered.value_le {i j : ℕ} (hij : i ≤ j) (hx : v[i]? = some x) (hy : v[j]? = some y) :
    x.value ≤ y.value := by
  obtain ⟨hi, rfl⟩ := List.getElem?_eq_some_iff.1 hx
  obtain ⟨hj, rfl⟩ := List.getElem?_eq_some_iff.1 hy
  rcases hij.eq_or_lt with rfl | hlt
  · exact le_rfl
  · have hix := hv.isFinite _ (List.getElem_mem hi)
    have hjy := hv.isFinite _ (List.getElem_mem hj)
    refine (le_iff_value_le hix hjy).1 (le_iff.2 ⟨(rounds_value hix).isNumber,
      (rounds_value hjy).isNumber, valueKey_le_of_totalLe ?_⟩)
    exact List.pairwise_iff_getElem.1 hv.sorted i j hi hj hlt

variable (h : ReadAt v r p x y)

include h

theorem ReadAt.isFinite : Arith.isFinite x = true ∧ Arith.isFinite y = true :=
  ⟨hv.isFinite x (List.mem_of_getElem? h.lower), hv.isFinite y (List.mem_of_getElem? h.upper)⟩

theorem ReadAt.operands_le : x.value ≤ y.value :=
  hv.value_le (Nat.floor_le_ceil _) h.lower h.upper

omit hv in
/-- A percentile is finite only if all that it is made of is. -/
theorem ReadAt.isFinite_part (hp : Arith.isFinite p = true) :
    Arith.isFinite ((r - Arith.nat ⌊r.size⌋₊) * (y - x)) = true :=
  (isFinite_of_add (h.eq_add ▸ hp)).2

variable (hn : v.length ≤ 2 ^ 53) (hr : IsRank v.length r)

include hn hr

/-- **A percentile lies between the two numbers that its rank lies between**, as long as these are
not too far apart. -/
theorem ReadAt.le_le (hd : Arith.isFinite (y - x) = true) :
    Arith.le x p = true ∧ Arith.le p y = true := by
  obtain ⟨hx, hy⟩ := h.isFinite hv
  obtain ⟨-, hf, hf₀, hf₁⟩ := hr.fraction hn
  rw [h.eq_add]
  exact le_between hx hy hd (h.operands_le hv) hf hf₀ hf₁

theorem ReadAt.atMost {k : ℕ} (hk : k < 1023) (hbound : ∀ z ∈ v, AtMost z k) : AtMost p k := by
  have hx := hbound x (List.mem_of_getElem? h.lower)
  have hy := hbound y (List.mem_of_getElem? h.upper)
  obtain ⟨hxp, hpy⟩ := h.le_le hv hn hr (hy.sub hx hk).isFinite
  exact hx.of_le_of_le hy hxp hpy

variable (hp : Arith.isFinite p = true)

include hp

theorem ReadAt.mem_Icc : p.value ∈ Set.Icc x.value y.value := by
  obtain ⟨hx, hy⟩ := h.isFinite hv
  have hle := h.le_le hv hn hr (isFinite_of_mul (h.isFinite_part hp)).2
  rwa [le_iff_value_le hx hp, le_iff_value_le hp hy] at hle

/-- **Percentiles grow with their ranks.** -/
theorem ReadAt.value_le (hr' : IsRank v.length r') (h' : ReadAt v r' p' x' y')
    (hp' : Arith.isFinite p' = true) (hrr' : Arith.le r r' = true) : p.value ≤ p'.value := by
  have hsize := size_le_size hr.zero_le hrr' hr'.isFinite
  have hfloor := Nat.floor_mono hsize
  have hceil := Nat.ceil_mono hsize
  rcases le_or_gt ⌈r.size⌉₊ ⌊r'.size⌋₊ with hapart | hsame
  · -- a number of the list lies between them
    calc p.value ≤ y.value := (h.mem_Icc hv hn hr hp).2
      _ ≤ x'.value := hv.value_le hapart h.upper h'.lower
      _ ≤ p'.value := (h'.mem_Icc hv hn hr' hp').1
  · -- they lie between the same two numbers
    have hnext := Nat.ceil_le_floor_add_one r.size
    have hnext' := Nat.ceil_le_floor_add_one r'.size
    have hfloor' : ⌊r'.size⌋₊ = ⌊r.size⌋₊ := by omega
    have hceil' : ⌈r'.size⌉₊ = ⌈r.size⌉₊ := by omega
    have hx' := h'.lower
    have hy' := h'.upper
    rw [hfloor', h.lower, Option.some.injEq] at hx'
    rw [hceil', h.upper, Option.some.injEq] at hy'
    subst hx' hy'
    obtain ⟨hx, hy⟩ := h.isFinite hv
    have hpart := h.isFinite_part hp
    have hpart' := h'.isFinite_part hp'
    have hd := (isFinite_of_mul hpart).2
    obtain ⟨hround, hf, -⟩ := hr.fraction hn
    obtain ⟨hround', hf', -⟩ := hr'.fraction hn
    rw [hfloor'] at hround' hf' hpart'
    have hd₀ : 0 ≤ (y - x).value := by
      rw [value_of_zero_le ((rounds_sub hy hx).zero_le (sub_nonneg.2 (h.operands_le hv)))]
      exact size_nonneg _
    have hff' := (le_iff_value_le hf hf').1 (hround.le hround' (by linarith))
    have hparts := (le_iff_value_le hpart hpart').1
      ((rounds_mul hf hd).le (rounds_mul hf' hd) (mul_le_mul_of_nonneg_right hff' hd₀))
    have hle := (rounds_add hx hpart).le (rounds_add hx hpart') (by linarith)
    have hp'' := h'.eq_add
    rw [hfloor'] at hp''
    rwa [← h.eq_add, ← hp'', le_iff_value_le hp hp'] at hle

end Percentiles

end Double

end Starfilm
