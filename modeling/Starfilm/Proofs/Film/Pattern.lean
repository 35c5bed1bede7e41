import Starfilm.Proofs.Frame.Names

/-!
# Patterns of numbered names

A reader of numbered pictures is given one pattern for all of them. In a pattern a percent sign
begins a field: `%0Nd` stands for the number with at least `N` digits, `%%` for a percent sign, and
nothing else may follow. `Expands` says what a pattern stands for, `expand?` finds it
(`expand?_eq_some_iff`).

A text without percent signs stands for itself (`Expands.append_of_notMem`). A text with percent
signs never does, since at least two of them are used up for each that is left
(`Expands.count_le`), and this is seen in front of a name as well, where no field can run into the
name (`Expands.exists_of_append`).
-/

namespace Starfilm

/-- What a pattern stands for at the number `i`. -/
inductive Expands (i : ℕ) : List Char → List Char → Prop
  | nil : Expands i [] []
  | plain {c : Char} {p t : List Char} (hc : c ≠ '%') (h : Expands i p t) :
      Expands i (c :: p) (c :: t)
  | sign {p t : List Char} (h : Expands i p t) : Expands i ('%' :: '%' :: p) ('%' :: t)
  | number {ds p t : List Char} (hds : ∀ c ∈ ds, c.isDigit = true) (h : Expands i p t) :
      Expands i ('%' :: '0' :: (ds ++ 'd' :: p)) (zeroPadded (Nat.ofDigitChars 10 ds 0) i ++ t)

namespace Expands

variable {i : ℕ} {p q t : List Char}

/-- Text without percent signs stands for itself, whatever follows. -/
theorem append_of_notMem (hq : '%' ∉ q) (h : Expands i p t) : Expands i (q ++ p) (q ++ t) := by
  induction q with
  | nil => exact h
  | cons c q ih =>
    obtain ⟨hc, hq⟩ := not_or.1 (mt List.mem_cons.2 hq)
    exact .plain (Ne.symm hc) (ih hq)

/-- Of the percent signs of a pattern at most half are left. -/
theorem count_le (h : Expands i p t) : 2 * t.count '%' ≤ p.count '%' := by
  induction h with
  | nil => exact le_rfl
  | plain hc _ ih => rwa [List.count_cons_of_ne hc, List.count_cons_of_ne hc]
  | sign _ ih =>
    rw [List.count_cons_self, List.count_cons_self, List.count_cons_self]
    omega
  | @number ds p t _ _ ih =>
    have hnumber : (zeroPadded (Nat.ofDigitChars 10 ds 0) i).count '%' = 0 :=
      List.count_eq_zero.2 fun hmem => absurd (isDigit_of_mem_zeroPadded hmem) (by decide)
    have hrest : p.count '%' ≤ ('%' :: '0' :: (ds ++ 'd' :: p)).count '%' :=
      ((List.suffix_append (['%', '0'] ++ ds ++ ['d']) p).sublist.count_le '%').trans_eq (by simp)
    rw [List.count_append, hnumber, Nat.zero_add]
    exact ih.trans hrest

/-- A pattern can be cut in front of a character that cannot belong to a field. -/
theorem exists_of_append {c : Char} (hsign : c ≠ '%') (hend : c ≠ 'd') (hdigit : c.isDigit = false)
    (h : Expands i (q ++ c :: p) t) :
    ∃ u v, t = u ++ v ∧ Expands i q u ∧ Expands i (c :: p) v := by
  generalize hr : q ++ c :: p = r at h
  induction h generalizing q with
  | nil => exact absurd hr (List.append_ne_nil_of_right_ne_nil q (List.cons_ne_nil c p))
  | @plain c' p' t' hc' h ih =>
    rcases List.append_eq_cons_iff.1 hr with ⟨rfl, hcut⟩ | ⟨q', rfl, rfl⟩
    · exact ⟨[], _, rfl, .nil, hcut ▸ .plain hc' h⟩
    · obtain ⟨u, v, rfl, hu, hv⟩ := ih rfl
      exact ⟨c' :: u, v, rfl, .plain hc' hu, hv⟩
  | @sign p' t' h ih =>
    rcases List.append_eq_cons_iff.1 hr with ⟨-, hcut⟩ | ⟨q', rfl, hrest⟩
    · exact absurd (List.cons.inj hcut).1 hsign
    · rcases List.append_eq_cons_iff.1 hrest.symm with ⟨-, hcut⟩ | ⟨q'', rfl, rfl⟩
      · exact absurd (List.cons.inj hcut).1 hsign
      · obtain ⟨u, v, rfl, hu, hv⟩ := ih rfl
        exact ⟨'%' :: u, v, rfl, .sign hu, hv⟩
  | @number ds p' t' hds h ih =>
    rcases List.append_eq_cons_iff.1 hr with ⟨-, hcut⟩ | ⟨q', rfl, hrest⟩
    · exact absurd (List.cons.inj hcut).1 hsign
    rcases List.append_eq_cons_iff.1 hrest.symm with ⟨-, hcut⟩ | ⟨q'', rfl, hfield⟩
    · obtain ⟨rfl, -⟩ := List.cons.inj hcut
      exact absurd hdigit (by decide)
    -- the cut is not among the digits and not at their end, so it comes after the field
    rcases List.append_eq_append_iff.1 hfield with ⟨rest, rfl, hcut⟩ | ⟨rest, rfl, hcut⟩
    · rcases List.cons_eq_append_iff.1 hcut with ⟨rfl, hcut⟩ | ⟨rest, rfl, rfl⟩
      · exact absurd (List.cons.inj hcut).1.symm hend
      · obtain ⟨u, v, rfl, hu, hv⟩ := ih rfl
        exact ⟨_, v, (List.append_assoc _ _ _).symm, .number hds hu, hv⟩
    · rcases List.cons_eq_append_iff.1 hcut with ⟨rfl, hcut⟩ | ⟨rest, rfl, -⟩
      · exact absurd (List.cons.inj hcut).1 hend
      · have hmem := hds c (List.mem_append_right _ List.mem_cons_self)
        rw [hdigit] at hmem
        cases hmem

end Expands

/-! ## Finding what a pattern stands for -/

/-- How far the reading of a pattern is: in text, behind a percent sign, or in a field of which the
width has been read in part. -/
inductive PatternState where
  | text
  | sign
  | width (w : ℕ)

/-- What the rest of a pattern stands for. -/
def expandFrom (i : ℕ) : PatternState → List Char → Option (List Char)
  | .text, [] => some []
  | .sign, [] => none
  | .width _, [] => none
  | .text, c :: cs =>
    if c = '%' then expandFrom i .sign cs else (expandFrom i .text cs).map (c :: ·)
  | .sign, c :: cs =>
    if c = '%' then (expandFrom i .text cs).map ('%' :: ·)
    else if c = '0' then expandFrom i (.width 0) cs
    else none
  | .width w, c :: cs =>
    if c = 'd' then (expandFrom i .text cs).map (zeroPadded w i ++ ·)
    else if c.isDigit then expandFrom i (.width (10 * w + (c.toNat - '0'.toNat))) cs
    else none

/-- What a pattern stands for at the number `i`, if it stands for anything. -/
def expand? (i : ℕ) (p : List Char) : Option (List Char) := expandFrom i .text p

section Finding

variable {i w : ℕ} {p t ds : List Char}

/-- The state in a reading tells what has been read of a field. -/
def PatternState.Rest (i : ℕ) (p t : List Char) : PatternState → Prop
  | text => Expands i p t
  | sign => Expands i ('%' :: p) t
  | width w => ∃ ds p' t', (∀ c ∈ ds, c.isDigit = true) ∧ p = ds ++ 'd' :: p' ∧
      t = zeroPadded (Nat.ofDigitChars 10 ds w) i ++ t' ∧ Expands i p' t'

theorem rest_of_expandFrom {s : PatternState} (h : expandFrom i s p = some t) : s.Rest i p t := by
  induction p generalizing s t with
  | nil =>
    cases s <;> simp only [expandFrom, Option.some.injEq, reduceCtorEq] at h
    exact h ▸ .nil
  | cons c p ih =>
    cases s with
    | text =>
      rw [expandFrom] at h
      split_ifs at h with hc
      · exact hc ▸ ih h
      · obtain ⟨t', ht', rfl⟩ := Option.map_eq_some_iff.1 h
        exact .plain hc (ih ht')
    | sign =>
      rw [expandFrom] at h
      split_ifs at h with hsign hzero
      · obtain ⟨t', ht', rfl⟩ := Option.map_eq_some_iff.1 h
        subst hsign
        exact .sign (ih ht')
      · obtain ⟨ds, p', t', hds, rfl, rfl, h'⟩ := ih h
        exact hzero ▸ .number hds h'
    | width w =>
      rw [expandFrom] at h
      split_ifs at h with hend hdigit
      · obtain ⟨t', ht', rfl⟩ := Option.map_eq_some_iff.1 h
        exact ⟨[], p, t', List.forall_mem_nil _, hend ▸ rfl, rfl, ih ht'⟩
      · obtain ⟨ds, p', t', hds, rfl, rfl, h'⟩ := ih h
        refine ⟨c :: ds, p', t', List.forall_mem_cons.2 ⟨hdigit, hds⟩, rfl, ?_, h'⟩
        rw [Nat.ofDigitChars_cons]

theorem expandFrom_digits (hds : ∀ c ∈ ds, c.isDigit = true) :
    expandFrom i (.width w) (ds ++ 'd' :: p) =
      (expandFrom i .text p).map (zeroPadded (Nat.ofDigitChars 10 ds w) i ++ ·) := by
  induction ds generalizing w with
  | nil => exact if_pos rfl
  | cons c ds ih =>
    obtain ⟨hc, hds⟩ := List.forall_mem_cons.1 hds
    have hend : c ≠ 'd' := fun h => absurd (h ▸ hc) (by decide)
    rw [List.cons_append, expandFrom, if_neg hend, if_pos hc, ih hds, Nat.ofDigitChars_cons]

theorem expandFrom_of_expands (h : Expands i p t) : expandFrom i .text p = some t := by
  induction h with
  | nil => rfl
  | plain hc _ ih => rw [expandFrom, if_neg hc, ih, Option.map_some]
  | sign _ ih => rw [expandFrom, if_pos rfl, expandFrom, if_pos rfl, ih, Option.map_some]
  | number hds _ ih =>
    rw [expandFrom, if_pos rfl, expandFrom, if_neg (by decide), if_pos rfl, expandFrom_digits hds,
      ih, Option.map_some]

/-- **What is found is what the pattern stands for.** -/
theorem expand?_eq_some_iff : expand? i p = some t ↔ Expands i p t :=
  ⟨rest_of_expandFrom (s := .text), expandFrom_of_expands⟩

example : expand? 1000 "50%%/%03d_%06d".toList = some "50%/1000_001000".toList := by decide

end Finding

/-! ## The pattern of the frames -/

/-- The pattern of the names of frames. -/
def framePattern : List Char := "frame_%03d.png".toList

section Frames

variable {i : ℕ} {q t : List Char}

theorem framePattern_eq :
    framePattern = frameStart ++ '%' :: '0' :: (['3'] ++ 'd' :: frameEnd) := by
  decide

/-- The pattern stands for the name of each frame. -/
theorem expands_framePattern (i : ℕ) : Expands i framePattern (frameName i) := by
  have hend : Expands i (frameEnd ++ []) (frameEnd ++ []) := .append_of_notMem (by decide) .nil
  have hdigits : ∀ c ∈ ['3'], c.isDigit = true := List.forall_mem_singleton.2 rfl
  have hwidth : Nat.ofDigitChars 10 ['3'] 0 = 3 := rfl
  have hnumber := Expands.number hdigits hend
  rw [List.append_nil, hwidth, ← threeDigits_eq_zeroPadded] at hnumber
  rw [framePattern_eq, frameName, List.append_assoc]
  exact .append_of_notMem (by decide) hnumber

/-- Of the percent signs in front of the pattern at most half are left. -/
theorem Expands.count_le_of_framePattern (h : Expands i (q ++ framePattern) t) :
    2 * t.count '%' ≤ q.count '%' := by
  have hcut : framePattern = 'f' :: framePattern.tail := by decide
  have hcount : framePattern.count '%' = 1 := by decide
  rw [hcut] at h hcount
  obtain ⟨u, v, rfl, hu, hv⟩ := h.exists_of_append (by decide) (by decide) (by decide)
  have hfront := hu.count_le
  have hname := hv.count_le
  rw [List.count_append]
  omega

end Frames

end Starfilm
