import Mathlib.Data.List.Infix
import Mathlib.Logic.Function.Basic
import Starfilm.Frame.Files
import Starfilm.Proofs.Disk.Paths

/-!
# The names of frames

Frames of different numbers have different names, however many digits these have
(`frameName_injective`), and all of them are of the form that is taken for a frame
(`isFrameName_iff`). The index is not.
-/

namespace Starfilm

/-- The names `frame_*.png`. -/
def FrameNamed (n : Name) : Prop := ∃ m, n = frameStart ++ m ++ frameEnd

/-- A name is taken for a frame when it is of the form `frame_*.png`. Its two ends cannot
overlap. -/
theorem isFrameName_iff (n : Name) : isFrameName n = true ↔ FrameNamed n := by
  rw [isFrameName, Bool.and_eq_true, List.isPrefixOf_iff_prefix, List.isSuffixOf_iff_suffix]
  constructor
  · rintro ⟨⟨t, rfl⟩, hend⟩
    rcases List.suffix_or_suffix_of_suffix hend (List.suffix_append frameStart t) with h | h
    · obtain ⟨m, rfl⟩ := h
      exact ⟨m, (List.append_assoc _ _ _).symm⟩
    · -- the start would end in what the end begins with, but there is no point in it
      obtain ⟨s, hs⟩ := h
      obtain ⟨u, hu⟩ := hend
      rw [← hs, ← List.append_assoc] at hu
      have hstart : u ++ s = frameStart := List.append_cancel_right hu
      cases s with
      | nil => exact ⟨[], by rw [← hs, List.nil_append, List.append_nil]⟩
      | cons c s =>
        obtain ⟨rfl, -⟩ := List.cons_eq_cons.1 hs
        have hpoint : '.' ∈ frameStart := by
          rw [← hstart]
          exact List.mem_append_right u List.mem_cons_self
        exact absurd hpoint (by decide)
  · rintro ⟨m, rfl⟩
    exact ⟨⟨m ++ frameEnd, (List.append_assoc _ _ _).symm⟩, List.suffix_append _ _⟩

/-! ## Numbers -/

/-- A number with at least `w` digits. -/
def zeroPadded (w n : ℕ) : List Char :=
  List.replicate (w - (Decimal.digits n).length) '0' ++ Decimal.digits n

theorem threeDigits_eq_zeroPadded (n : ℕ) : threeDigits n = zeroPadded 3 n := rfl

theorem isDigit_of_mem_zeroPadded {w n : ℕ} {c : Char} (h : c ∈ zeroPadded w n) :
    c.isDigit = true := by
  rcases List.mem_append.1 h with h | h
  · rw [List.eq_of_mem_replicate h]
    rfl
  · exact Nat.isDigit_of_mem_toDigits (by decide) le_rfl h

/-- Leading zeros do not change what digits stand for. -/
theorem ofDigitChars_threeDigits (n : ℕ) : Nat.ofDigitChars 10 (threeDigits n) 0 = n := by
  rw [threeDigits, Nat.ofDigitChars_append, Nat.ofDigitChars_replicate_zero, Nat.mul_zero]
  exact Nat.ofDigitChars_ten_toDigits

/-- **Frames of different numbers have different names.** -/
theorem frameName_injective : Function.Injective frameName := by
  intro i j h
  have hdigits : threeDigits i = threeDigits j :=
    List.append_cancel_left (List.append_cancel_right h)
  rw [← ofDigitChars_threeDigits i, hdigits, ofDigitChars_threeDigits]

theorem frameNamed_frameName (i : ℕ) : FrameNamed (frameName i) := ⟨threeDigits i, rfl⟩

theorem notMem_frameName {c : Char} (hdigit : c.isDigit = false)
    (h : c ∉ frameStart ++ frameEnd) (i : ℕ) : c ∉ frameName i := by
  rw [List.mem_append, not_or] at h
  rw [frameName, List.mem_append, List.mem_append]
  rintro ((hmem | hmem) | hmem)
  · exact h.1 hmem
  · rw [isDigit_of_mem_zeroPadded (threeDigits_eq_zeroPadded i ▸ hmem)] at hdigit
    cases hdigit
  · exact h.2 hmem

theorem isSegment_frameName (i : ℕ) : (frameName i).IsSegment where
  slash_notMem := notMem_frameName rfl (by decide) i
  zero_notMem := notMem_frameName rfl (by decide) i
  not_idle := by simp [Path.isIdle, frameName, frameStart]
  ne_up := by simp [frameName, frameStart]

/-! ## The index -/

/-- The name of the index. -/
def indexName : Name := "frames.csv".toList

theorem isProper_indexName : indexName.IsProper where
  slash_notMem := by decide
  zero_notMem := by decide
  not_idle := by decide
  ne_up := by decide
  short := by decide

theorem isFrameName_indexName : isFrameName indexName = false := by decide

end Starfilm
