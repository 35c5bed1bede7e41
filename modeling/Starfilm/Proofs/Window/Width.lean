import Starfilm.Proofs.Window.Interpolation
import Starfilm.Proofs.Window.Widening

/-!
# Ranges with a width in double precision

The range of an axis is to have a width, so that it can be mapped onto pixels, and one that has none
is widened. In double precision this fails for one number that is not zero and so small that its
share is rounded to zero: then the range stays without a width (`Framing.Vanishes`). Every other
range with finite ends has one (`Framing.paddedRange_lt_iff`).
-/

namespace Starfilm

open Arith Double

namespace Framing

/-- The percentiles of some coordinates are one number, different from zero and less than ten times
the smallest one. -/
def Vanishes (s : Framing Double) (values : List Double) : Prop :=
  ∃ lo hi, percentile (values.mergeSort totalLe) s.lowerPercentile = some lo ∧
    percentile (values.mergeSort totalLe) s.upperPercentile = some hi ∧
      lo.value = hi.value ∧ 0 < lo.size ∧ lo.size < 10 * 2 ^ (-1074 : ℤ)

end Framing

/-! ## Shares at both ends -/

section Ends

variable {x : Double} (hx : Arith.isFinite x = true)

include hx

theorem zero_le_magnitude : Arith.le (Arith.nat 0) (Arith.magnitude x) = true := by
  have hfinite := isFinite_magnitude hx
  refine zero_le_iff.2 ⟨(rounds_value hfinite).isNumber, fun hneg => ?_⟩
  -- the bits are those of the magnitude alone
  have hbits : 2 ^ 63 ≤ x.magnitude := (negative_iff _).1 hneg
  have hlt := isFinite_iff_magnitude_lt.1 hx
  omega

theorem zero_le_share : Arith.le (Arith.nat 0) x.share = true :=
  zero_le_mul twentieth_eq.2.1 (zero_le_magnitude hx) (isFinite_magnitude hx) twentieth_eq.1

theorem rounds_sub_share : Rounds (x - x.share) (x.value - x.share.size) := by
  have h := rounds_sub hx (isFinite_share hx)
  rwa [value_of_zero_le (zero_le_share hx)] at h

theorem rounds_add_share : Rounds (x + x.share) (x.value + x.share.size) := by
  have h := rounds_add hx (isFinite_share hx)
  rwa [value_of_zero_le (zero_le_share hx)] at h

theorem sub_share_le : Arith.le (x - x.share) x = true :=
  (rounds_sub_share hx).le (rounds_value hx) (sub_le_self _ x.share.size_nonneg)

theorem le_add_share : Arith.le x (x + x.share) = true :=
  (rounds_value hx).le (rounds_add_share hx) (le_add_of_nonneg_right x.share.size_nonneg)

variable (hlarge : 10 * 2 ^ (-1074 : ℤ) ≤ x.size)

include hlarge

theorem roundedMagnitude_sub_share_lt :
    roundedMagnitude (x.size - x.share.size) < roundedMagnitude x.size := by
  have hlt := nearest_sub_share_lt hx hlarge
  have hfinite := isFinite_iff_magnitude_lt.1 hx
  rw [roundedMagnitude, roundedMagnitude, nearest_size hx]
  omega

theorem sub_share_lt (hpos : 0 < x.value) : Arith.lt (x - x.share) x = true := by
  have hvalue : x.value = x.size := by rw [← abs_value, abs_of_pos hpos]
  have hle := (size_le_size_iff (isFinite_share hx) hx).2 (magnitude_share_le hx)
  refine (rounds_sub_share hx).lt (rounds_value hx) ?_
  rw [hvalue, roundedKey_of_nonneg (sub_nonneg.2 hle), roundedKey_of_nonneg x.size_nonneg,
    Nat.cast_lt]
  exact roundedMagnitude_sub_share_lt hx hlarge

theorem lt_add_share (hneg : x.value < 0) : Arith.lt x (x + x.share) = true := by
  have hvalue : x.value = -x.size := by rw [← abs_value, abs_of_neg hneg, neg_neg]
  have hle := (size_le_size_iff (isFinite_share hx) hx).2 (magnitude_share_le hx)
  refine (rounds_value hx).lt (rounds_add_share hx) ?_
  rw [hvalue, neg_add_eq_sub, ← neg_sub, roundedKey_neg, roundedKey_neg,
    roundedKey_of_nonneg (sub_nonneg.2 hle), roundedKey_of_nonneg x.size_nonneg, neg_lt_neg_iff,
    Nat.cast_lt]
  exact roundedMagnitude_sub_share_lt hx hlarge

end Ends

/-! ## Widening -/

section Widening

variable {lo hi : Double}

/-- What is not finite is not widened to something finite. -/
theorem isFinite_of_nonsingular (h : Arith.isFinite (nonsingular lo hi).1 = true) :
    Arith.isFinite lo = true := by
  have hzero : Arith.isFinite (Arith.nat 0 : Double) = true := by decide +kernel
  rw [nonsingular_eq] at h
  split_ifs at h with hlt heqv
  · exact h
  · rw [Arith.eqv, Bool.and_eq_true] at heqv
    exact isFinite_of_le heqv.2 heqv.1 hzero
  · exact (isFinite_of_sub h).1

/-- A range that has a width keeps it. -/
theorem nonsingular_lt_of_lt (h : Arith.lt lo hi = true) :
    Arith.lt (nonsingular lo hi).1 (nonsingular lo hi).2 = true := by
  rw [nonsingular_eq, if_pos h]
  exact h

/-- The ends of a widened range are in order. -/
theorem nonsingular_le (hlo : Arith.isFinite lo = true) (hle : Arith.le lo hi = true) :
    Arith.le (nonsingular lo hi).1 (nonsingular lo hi).2 = true := by
  rw [nonsingular_eq]
  split_ifs with hlt hzero
  · exact hle
  · decide +kernel
  · rw [Arith.lt, hle, Bool.true_and, Bool.not_eq_true', Bool.not_eq_false] at hlt
    have hhi : Arith.isFinite hi = true := by
      have hkey := le_antisymm (le_iff.1 hle).2.2 (le_iff.1 hlt).2.2
      rwa [isFinite_iff_magnitude_lt, ← natAbs_valueKey, ← hkey, natAbs_valueKey,
        ← isFinite_iff_magnitude_lt]
    exact le_trans_of_le (sub_share_le hlo) (le_trans_of_le hle (le_add_share hhi))

variable (hlo : Arith.isFinite lo = true) (hhi : Arith.isFinite hi = true)
  (heq : lo.value = hi.value)

include hlo hhi heq

theorem not_lt_of_value_eq : ¬Arith.lt lo hi = true := by
  rw [lt_iff_value_lt hlo hhi, heq]
  exact lt_irrefl _

/-- **A number is widened to a range with a width**, unless it is too small. -/
theorem nonsingular_lt_iff : Arith.lt (nonsingular lo hi).1 (nonsingular lo hi).2 = true ↔
    ¬(0 < lo.size ∧ lo.size < 10 * 2 ^ (-1074 : ℤ)) := by
  have hzero : Arith.isFinite (Arith.nat 0 : Double) = true ∧ (Arith.nat 0 : Double).value = 0 :=
    ⟨by decide +kernel, value_of_magnitude_eq_zero (by decide +kernel)⟩
  have heqv : Arith.eqv lo (Arith.nat 0) = true ↔ lo.value = 0 := by
    rw [eqv_iff_value_eq hlo hzero.1, hzero.2]
  rw [nonsingular_eq, if_neg (not_lt_of_value_eq hlo hhi heq)]
  by_cases hvalue : lo.value = 0
  · have hsize : lo.size = 0 := by rw [← abs_value, hvalue, abs_zero]
    rw [if_pos (heqv.2 hvalue), hsize]
    exact iff_of_true (by decide +kernel) fun h => lt_irrefl _ h.1
  · have hpos : 0 < lo.size := by
      rw [← abs_value]
      exact abs_pos.2 hvalue
    have hsize : lo.size = hi.size := by rw [← abs_value, heq, abs_value]
    rw [if_neg (mt heqv.1 hvalue), and_iff_right hpos, not_lt]
    constructor
    · -- without a share the ends stay where they are
      intro hlt
      by_contra hsmall
      have hlost (x : Double) (hx : Arith.isFinite x = true) (hs : lo.size = x.size) :
          x.share.size = 0 :=
        size_of_magnitude_eq_zero (magnitude_share_eq_zero hx (hs ▸ not_le.1 hsmall))
      have hle := (rounds_add_share hhi).le (rounds_sub_share hlo) (by
        rw [hlost lo hlo rfl, hlost hi hhi hsize, heq, add_zero, sub_zero])
      rw [Arith.lt, hle, Bool.not_true, Bool.and_false] at hlt
      cases hlt
    · intro hlarge
      have hle : Arith.le lo hi = true := (le_iff_value_le hlo hhi).2 heq.le
      rcases lt_or_gt_of_ne hvalue with hneg | hpos'
      · exact lt_trans_of_le (le_trans_of_le (sub_share_le hlo) hle)
          (lt_add_share hhi (hsize ▸ hlarge) (heq ▸ hneg))
      · exact lt_trans_of_lt (sub_share_lt hlo hlarge hpos')
          (le_trans_of_le hle (le_add_share hhi))

end Widening

theorem twentieth_atMost : AtMost (Arith.decimal 5 2) 0 := by
  obtain ⟨hfinite, -, hsize⟩ := twentieth_eq
  refine ⟨hfinite, ?_⟩
  rw [hsize]
  norm_num

/-- A range of bounded numbers is widened to a bounded one. -/
theorem nonsingular_atMost {lo hi : Double} {k : ℕ} (hk : k < 1023) (hlo : AtMost lo k)
    (hhi : AtMost hi k) :
    AtMost (nonsingular lo hi).1 (k + 1) ∧ AtMost (nonsingular lo hi).2 (k + 1) := by
  have hshare {x : Double} (hx : AtMost x k) : AtMost x.share k :=
    ⟨isFinite_share hx.isFinite, ((size_le_size_iff (isFinite_share hx.isFinite) hx.isFinite).2
      (magnitude_share_le hx.isFinite)).trans hx.size_le⟩
  rw [nonsingular_eq]
  split_ifs
  · exact ⟨hlo.mono (Nat.le_succ k), hhi.mono (Nat.le_succ k)⟩
  · exact ⟨twentieth_atMost.neg.mono (Nat.zero_le _), twentieth_atMost.mono (Nat.zero_le _)⟩
  · exact ⟨hlo.sub (hshare hlo) hk, hhi.add (hshare hhi) hk⟩

/-! ## Padding -/

section Padding

variable {lo hi padding : Double} (h : Arith.isFinite (lo - padding * (hi - lo)) = true)

include h

/-- A padded end is finite only if all that it is made of is. -/
theorem isFinite_of_padded : Arith.isFinite lo = true ∧ Arith.isFinite hi = true ∧
    Arith.isFinite padding = true ∧ Arith.isFinite (hi - lo) = true := by
  obtain ⟨hlo, hpad⟩ := isFinite_of_sub h
  obtain ⟨hpadding, hd⟩ := isFinite_of_mul hpad
  exact ⟨hlo, (isFinite_of_sub hd).1, hpadding, hd⟩

variable (hpadding : Arith.le (Arith.nat 0) padding = true) (hle : lo.value ≤ hi.value)

include hpadding hle

/-- The padding is not negative, and nothing where there is no range to be padded. -/
theorem rounds_padded : ∃ pad : ℚ, 0 ≤ pad ∧ (lo.value = hi.value → pad = 0) ∧
    Rounds (lo - padding * (hi - lo)) (lo.value - pad) ∧
      Rounds (hi + padding * (hi - lo)) (hi.value + pad) := by
  obtain ⟨hlof, hhif, hpf, hd⟩ := isFinite_of_padded h
  have hpadf := (isFinite_of_sub h).2
  have hround := rounds_sub hhif hlof
  have hd₀ := hround.zero_le (sub_nonneg.2 hle)
  have hpad₀ := zero_le_mul hpadding hd₀ hd hpf
  refine ⟨(padding * (hi - lo)).size, size_nonneg _, fun heq => ?_, ?_, ?_⟩
  · have hzero : (hi - lo).size = 0 := by
      rw [heq, sub_self] at hround
      refine size_of_magnitude_eq_zero ?_
      rw [hround.magnitude_eq, abs_zero, roundedMagnitude_zero]
    refine size_of_magnitude_eq_zero ?_
    rw [magnitude_mul hpf hd, hzero, mul_zero, nearest_zero, Nat.min_zero]
  · rw [← value_of_zero_le hpad₀]
    exact rounds_sub hlof hpadf
  · rw [← value_of_zero_le hpad₀]
    exact rounds_add hhif hpadf

theorem padded_le :
    Arith.le (lo - padding * (hi - lo)) (hi + padding * (hi - lo)) = true := by
  obtain ⟨pad, hpad, -, hlow, hhigh⟩ := rounds_padded h hpadding hle
  exact hlow.le hhigh (by linarith)

/-- **A padded range has a width**, unless it is a number that is too small. -/
theorem padded_lt_iff :
    let range := nonsingular (lo - padding * (hi - lo)) (hi + padding * (hi - lo))
    Arith.lt range.1 range.2 = true ↔
      ¬(lo.value = hi.value ∧ 0 < lo.size ∧ lo.size < 10 * 2 ^ (-1074 : ℤ)) := by
  obtain ⟨hlof, hhif, -, -⟩ := isFinite_of_padded h
  obtain ⟨pad, hpad, hnone, hlow, hhigh⟩ := rounds_padded h hpadding hle
  intro range
  rcases hle.eq_or_lt with heq | hlt
  · rw [hnone heq, sub_zero] at hlow
    rw [hnone heq, add_zero] at hhigh
    obtain ⟨hlowf, hlowv⟩ := hlow.value_eq hlof
    obtain ⟨hhighf, hhighv⟩ := hhigh.value_eq hhif
    have hsize : (lo - padding * (hi - lo)).size = lo.size := by
      rw [← abs_value, hlowv, abs_value]
    rw [and_iff_right heq, ← hsize]
    exact nonsingular_lt_iff hlowf hhighf (by rw [hlowv, hhighv, heq])
  · refine iff_of_true (nonsingular_lt_of_lt ?_) fun hsame => hlt.ne hsame.1
    exact lt_trans_of_le (hlow.le (rounds_value hlof) (by linarith))
      (lt_trans_of_lt ((lt_iff_value_lt hlof hhif).2 hlt)
        ((rounds_value hhif).le hhigh (by linarith)))

end Padding

/-! ## Padded ranges -/

namespace Framing

section Range

variable {s : Framing Double} (hs : s.validate = .ok ()) {values : List Double}
  (hfinite : ∀ x ∈ values, Arith.isFinite x = true)

include hfinite

theorem ordered_mergeSort : Ordered (values.mergeSort totalLe) :=
  ⟨fun x hx => hfinite x (List.mem_mergeSort.1 hx), pairwise_mergeSort_totalLe values⟩

variable (hne : values ≠ []) (hn : values.length ≤ 2 ^ 53)

include hs hne hn

/-- Accepted settings have both percentiles. As far as they are finite they are in order, and
between numbers of the coordinates. -/
theorem exists_percentiles : ∃ lo hi,
    percentile (values.mergeSort totalLe) s.lowerPercentile = some lo ∧
      percentile (values.mergeSort totalLe) s.upperPercentile = some hi ∧
      (Arith.isFinite lo = true → Arith.isFinite hi = true → lo.value ≤ hi.value) ∧
      ∀ k < 1023, (∀ x ∈ values, AtMost x k) → AtMost lo k ∧ AtMost hi k := by
  obtain ⟨hl, hlu, hu⟩ := percentages_of_validate hs
  have hv := ordered_mergeSort hfinite
  have hlength : (values.mergeSort totalLe).length = values.length := List.length_mergeSort _
  have hpos : 0 < (values.mergeSort totalLe).length := by
    rw [hlength]
    exact List.length_pos_iff.2 hne
  have hn' : (values.mergeSort totalLe).length ≤ 2 ^ 53 := hlength.trans_le hn
  have hlower := isRank_rank hn' hpos hl (le_trans_of_le hlu hu)
  have hupper := isRank_rank hn' hpos (le_trans_of_le hl hlu) hu
  obtain ⟨lo, x, y, hlo⟩ := exists_readAt hlower
  obtain ⟨hi, x', y', hhi⟩ := exists_readAt hupper
  refine ⟨lo, hi, percentile_eq_some hlower hlo, percentile_eq_some hupper hhi, ?_, ?_⟩
  · intro hlof hhif
    refine hlo.value_le hv hn' hlower hlof hupper hhi hhif ?_
    rcases rises_rank (values.mergeSort totalLe).length hl hlu hu with hnan | ⟨-, hle⟩
    · rw [(zero_le_iff.1 hlower.zero_le).1] at hnan
      cases hnan
    · exact hle
  · intro k hk hbound
    have hbound' : ∀ x ∈ values.mergeSort totalLe, AtMost x k :=
      fun x hx => hbound x (List.mem_mergeSort.1 hx)
    exact ⟨hlo.atMost hv hn' hlower hk hbound', hhi.atMost hv hn' hupper hk hbound'⟩

omit hs hfinite hne hn in
theorem paddedRange_eq {lo hi : Double}
    (hlo : percentile (values.mergeSort totalLe) s.lowerPercentile = some lo)
    (hhi : percentile (values.mergeSort totalLe) s.upperPercentile = some hi) :
    paddedRange s values =
      nonsingular (lo - s.padding * (hi - lo)) (hi + s.padding * (hi - lo)) := by
  rw [paddedRange, hlo, hhi]
  rfl

/-- **Which ranges have a width.** A padded range that begins at a finite number is made with a
finite padding. Its ends are in order, and it has a width unless its percentiles are one small
number. -/
theorem paddedRange_lt_iff (h : Arith.isFinite (paddedRange s values).1 = true) :
    Arith.isFinite s.padding = true ∧
      Arith.le (paddedRange s values).1 (paddedRange s values).2 = true ∧
      (Arith.lt (paddedRange s values).1 (paddedRange s values).2 = true ↔
        ¬s.Vanishes values) := by
  obtain ⟨lo, hi, hlo, hhi, hle, -⟩ := exists_percentiles hs hfinite hne hn
  rw [paddedRange_eq hlo hhi] at h ⊢
  have hlow := isFinite_of_nonsingular h
  obtain ⟨hlof, hhif, hpadding, -⟩ := isFinite_of_padded hlow
  have hvanishes : s.Vanishes values ↔
      lo.value = hi.value ∧ 0 < lo.size ∧ lo.size < 10 * 2 ^ (-1074 : ℤ) := by
    simp only [Vanishes, hlo, hhi, Option.some.injEq, exists_and_left, exists_eq_left']
  have hpadding₀ := ((validate_eq_ok_iff s).1 hs).2.2.2.1
  rw [hvanishes]
  exact ⟨hpadding, nonsingular_le hlow (padded_le hlow hpadding₀ (hle hlof hhif)),
    padded_lt_iff hlow hpadding₀ (hle hlof hhif)⟩

/-- A range of bounded numbers is bounded. -/
theorem paddedRange_atMost {k : ℕ} (hk : k + 53 ≤ 1023) (hpadding : AtMost s.padding 50)
    (hbound : ∀ x ∈ values, AtMost x k) :
    AtMost (paddedRange s values).1 (k + 53) ∧ AtMost (paddedRange s values).2 (k + 53) := by
  obtain ⟨lo, hi, hlo, hhi, -, hatMost⟩ := exists_percentiles hs hfinite hne hn
  obtain ⟨hl, hh⟩ := hatMost k (by omega) hbound
  rw [paddedRange_eq hlo hhi]
  have hpad : AtMost (s.padding * (hi - lo)) (k + 51) :=
    (hpadding.mul (hh.sub hl (by omega)) (by omega)).mono (by omega)
  exact nonsingular_atMost (by omega) ((hl.mono (by omega)).sub hpad (by omega))
    ((hh.mono (by omega)).add hpad (by omega))

end Range

end Framing

end Starfilm
