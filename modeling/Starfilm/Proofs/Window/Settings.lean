import Starfilm.Proofs.Arith.Exact
import Starfilm.Settings

/-!
# Accepted framing settings

`Framing.validate_eq_ok_iff` lists the rules that accepted settings keep. With exact numbers these
rules and finiteness of the padding and of the ratio make all four numbers of the settings numbers
of the field (`Framing.Accepted`).
-/

namespace Starfilm

theorem Settings.framing_valid {F : Type} [Arith F] [DecimalText F] {s : Settings F}
    (h : s.validate = .ok ()) : s.framing.validate = .ok () := by
  unfold validate at h
  split_ifs at h
  exact h

namespace Framing

theorem isPercentage_iff {F : Type} [Arith F] (p : F) :
    isPercentage p = true ↔
      Arith.le (Arith.nat 0) p = true ∧ Arith.le p (Arith.nat 100) = true := by
  rw [isPercentage, Bool.and_eq_true]

/-- Settings are accepted when no rule is broken. -/
theorem validate_eq_ok_iff {F : Type} [Arith F] [DecimalText F] (s : Framing F) :
    s.validate = .ok () ↔
      isPercentage s.lowerPercentile = true ∧ isPercentage s.upperPercentile = true ∧
        Arith.le s.upperPercentile s.lowerPercentile = false ∧
        Arith.le (Arith.nat 0) s.padding = true ∧
        Arith.lt (Arith.nat 0) s.thinAxisRatio = true := by
  unfold validate
  split_ifs with hpercent horder hpadding hratio
  · rw [Bool.not_eq_true', Bool.and_eq_false_iff] at hpercent
    rcases hpercent with h | h <;> simp [h]
  all_goals simp_all

variable {K : Type} [Field K] [LinearOrder K] [IsStrictOrderedRing K] [FloorRing K]

open Exact

/-- Exact settings that are finite and keep the rules. -/
structure Accepted (s : Framing (Exact K)) : Prop where
  lower : s.lowerPercentile = finite s.lowerPercentile.val
  upper : s.upperPercentile = finite s.upperPercentile.val
  padding : s.padding = finite s.padding.val
  ratio : s.thinAxisRatio = finite s.thinAxisRatio.val
  lower_nonneg : 0 ≤ s.lowerPercentile.val
  lower_lt_upper : s.lowerPercentile.val < s.upperPercentile.val
  upper_le : s.upperPercentile.val ≤ 100
  padding_nonneg : 0 ≤ s.padding.val
  ratio_pos : 0 < s.thinAxisRatio.val

theorem accepted_of_validate [DecimalText (Exact K)] {s : Framing (Exact K)}
    (hs : s.validate = .ok ()) (hpadding : Arith.isFinite s.padding = true)
    (hratio : Arith.isFinite s.thinAxisRatio = true) : s.Accepted := by
  rw [validate_eq_ok_iff, isPercentage_iff, isPercentage_iff] at hs
  obtain ⟨⟨hl₀, hl₁⟩, ⟨hu₀, hu₁⟩, hlu, hp, hr⟩ := hs
  have hlower := (finite_val (isFinite_of_le_of_le hl₀ hl₁)).symm
  have hupper := (finite_val (isFinite_of_le_of_le hu₀ hu₁)).symm
  have hpad := (finite_val hpadding).symm
  have hrat := (finite_val hratio).symm
  rw [hlower] at hl₀
  rw [hupper] at hu₁
  rw [hlower, hupper] at hlu
  rw [hpad] at hp
  rw [hrat] at hr
  simp only [Arith.nat, ofInt_eq, le_finite, lt_finite, decide_eq_true_eq, decide_eq_false_iff_not,
    not_le, Nat.cast_zero, Int.cast_zero, Nat.cast_ofNat, Int.cast_ofNat] at hl₀ hu₁ hlu hp hr
  exact ⟨hlower, hupper, hpad, hrat, hl₀, hlu, hu₁, hp, hr⟩

end Framing

end Starfilm
