import Mathlib.Data.List.DropRight
import Starfilm.Disk

/-!
# Names and segments

The segments of a path are its pieces between slashes (`Path.segments_eq_splitOn`). A name that a
directory can list (`Name.IsProper`) is the last segment of every path that it is joined to; what
comes before are the segments of that path (`Path.exists_segments_join`). The slashes at the end of
a path add segments that stand for nothing, and trimming takes away no others
(`Path.exists_chars_eq_trimmed`).
-/

namespace Starfilm

/-- A name that is one segment of a path and leads one step further. -/
structure Name.IsSegment (n : Name) : Prop where
  slash_notMem : '/' ∉ n
  zero_notMem : '\x00' ∉ n
  not_idle : Path.isIdle n = false
  ne_up : n ≠ ['.', '.']

theorem Name.IsSegment.ne_nil {n : Name} (h : n.IsSegment) : n ≠ [] := by
  rintro rfl
  exact absurd h.not_idle (by decide)

instance (n : Name) : Decidable n.IsSegment :=
  decidable_of_iff ('/' ∉ n ∧ '\x00' ∉ n ∧ Path.isIdle n = false ∧ n ≠ ['.', '.'])
    ⟨fun ⟨hslash, hzero, hidle, hup⟩ => ⟨hslash, hzero, hidle, hup⟩,
      fun h => ⟨h.slash_notMem, h.zero_notMem, h.not_idle, h.ne_up⟩⟩

/-- A name that a directory can list. -/
structure Name.IsProper (n : Name) : Prop extends Name.IsSegment n where
  short : byteLength n ≤ Disk.maxNameLength

instance (n : Name) : Decidable n.IsProper :=
  decidable_of_iff (n.IsSegment ∧ byteLength n ≤ Disk.maxNameLength)
    ⟨fun ⟨hsegment, hshort⟩ => ⟨hsegment, hshort⟩, fun h => ⟨h.toIsSegment, h.short⟩⟩

namespace Path

@[simp] theorem ofString_text (p : Path) : ofString p.text = p := by
  rw [ofString, text, String.toList_ofList]

theorem splitAt_eq_splitOn (c : Char) (l : List Char) : splitAt c l = l.splitOn c := by
  induction l with
  | nil => rw [splitAt, List.splitOn_nil]
  | cons d ds ih =>
    rw [splitAt, List.splitOn_cons_eq_if_modifyHead]
    obtain ⟨t, ts, hds⟩ := List.exists_cons_of_ne_nil (List.splitOn_ne_nil c ds)
    simp only [ih, hds, beq_iff_eq, List.modifyHead_cons]

theorem segments_eq_splitOn (p : Path) : p.segments = p.chars.splitOn '/' :=
  splitAt_eq_splitOn '/' p.chars

@[simp] theorem ofSegments_segments (p : Path) : ofSegments p.segments = p := by
  rw [segments_eq_splitOn, ofSegments, List.intercalate_splitOn]

theorem eq_of_segments_eq {p q : Path} (h : p.segments = q.segments) : p = q := by
  rw [← ofSegments_segments p, h, ofSegments_segments]

theorem segments_ofSegments {ss : List Name} (hne : ss ≠ []) (h : ∀ s ∈ ss, '/' ∉ s) :
    (ofSegments ss).segments = ss := by
  rw [segments_eq_splitOn, ofSegments, List.splitOn_intercalate _ h hne]

/-- Pieces have no separator in them, and nothing that the text does not have. -/
theorem notMem_of_mem_splitOn {c : Char} {l s : List Char} (hs : s ∈ l.splitOn c) :
    c ∉ s ∧ s ⊆ l := by
  induction l generalizing s with
  | nil =>
    rw [List.splitOn_nil, List.mem_singleton] at hs
    rw [hs]
    exact ⟨List.not_mem_nil, List.nil_subset _⟩
  | cons d ds ih =>
    rw [List.splitOn_cons_eq_if_modifyHead] at hs
    simp only [beq_iff_eq] at hs
    obtain ⟨t, ts, hds⟩ := List.exists_cons_of_ne_nil (List.splitOn_ne_nil c ds)
    rw [hds] at hs ih
    split_ifs at hs with h
    · rcases List.mem_cons.1 hs with rfl | hs
      · exact ⟨List.not_mem_nil, List.nil_subset _⟩
      · exact ⟨(ih hs).1, List.subset_cons_of_subset d (ih hs).2⟩
    · rcases List.mem_cons.1 hs with rfl | hs
      · obtain ⟨hnot, hsub⟩ := ih List.mem_cons_self
        exact ⟨by simpa [Ne.symm h] using hnot, List.cons_subset_cons d hsub⟩
      · obtain ⟨hnot, hsub⟩ := ih (List.mem_cons_of_mem t hs)
        exact ⟨hnot, List.subset_cons_of_subset d hsub⟩

/-! ## A name joined to a path -/

section Join

variable {p : Path} {n : Name}

theorem isAbsolute_of_notMem (hn : '/' ∉ n) : isAbsolute ⟨n⟩ = false := by
  rw [isAbsolute, beq_eq_false_iff_ne]
  exact fun h => hn (List.mem_of_mem_head? h)

/-- Joining a name adds a slash where there is none. -/
theorem chars_join (hp : p.chars ≠ []) (hn : '/' ∉ n) :
    ∃ l, (p.join ⟨n⟩).chars = l ++ '/' :: n ∧ (p.chars = l ∨ p.chars = l ++ ['/']) := by
  rw [join, isAbsolute_of_notMem hn]
  by_cases hlast : p.chars.getLast? = some '/'
  · obtain ⟨l, hl⟩ := List.getLast?_eq_some_iff.1 hlast
    refine ⟨l, ?_, .inr hl⟩
    simp [hl]
  · refine ⟨p.chars, ?_, .inl rfl⟩
    simp [hp, hlast]

theorem exists_segments_join (hp : p.chars ≠ []) (hn : '/' ∉ n) :
    ∃ front, (p.join ⟨n⟩).segments = front ++ [n] ∧
      (p.segments = front ∨ p.segments = front ++ [[]]) := by
  obtain ⟨l, hjoin, hl⟩ := chars_join hp hn
  simp only [segments_eq_splitOn, hjoin]
  refine ⟨l.splitOn '/', ?_, ?_⟩
  · rw [List.splitOn_append_cons_self, List.splitOn_eq_singleton hn]
  · rcases hl with hl | hl
    · exact .inl (by rw [hl])
    · exact .inr (by rw [hl, List.splitOn_append_cons_self, List.splitOn_nil])

theorem isAbsolute_join (hp : p.chars ≠ []) (hn : '/' ∉ n) :
    (p.join ⟨n⟩).isAbsolute = p.isAbsolute := by
  obtain ⟨l, hjoin, hl⟩ := chars_join hp hn
  rw [isAbsolute, isAbsolute, hjoin]
  rcases hl with hl | hl
  · rw [hl] at hp ⊢
    rw [List.head?_append_of_ne_nil _ hp]
  · rw [hl]
    cases l <;> rfl

theorem endsInSlash_join (hp : p.chars ≠ []) (hn : '/' ∉ n) (hne : n ≠ []) :
    (p.join ⟨n⟩).endsInSlash = false := by
  obtain ⟨l, hjoin, -⟩ := chars_join hp hn
  rw [endsInSlash, hjoin, beq_eq_false_iff_ne, List.append_cons,
    List.getLast?_append_of_ne_nil _ hne]
  exact fun h => hn (List.mem_of_getLast? h)

theorem trimmed_join (hp : p.chars ≠ []) (hn : '/' ∉ n) (hne : n ≠ []) :
    (p.join ⟨n⟩).trimmed = p.join ⟨n⟩ := by
  obtain ⟨front, hsegments, -⟩ := exists_segments_join hp hn
  have hkept : ((p.join ⟨n⟩).segments.reverse.dropWhile (· = [])).reverse =
      (p.join ⟨n⟩).segments := by
    rw [hsegments, List.reverse_append, List.reverse_singleton, List.singleton_append,
      List.dropWhile_cons_of_neg (by simpa using hne), List.reverse_cons, List.reverse_reverse]
  simp only [trimmed, hkept, ofSegments_segments, ite_self]

end Join

/-! ## Slashes at the end -/

theorem splitOn_append_replicate (l : List Char) (k : ℕ) :
    (l ++ List.replicate k '/').splitOn '/' = l.splitOn '/' ++ List.replicate k [] := by
  induction k generalizing l with
  | zero => simp
  | succ k ih =>
    rw [List.replicate_succ, List.append_cons, ih, List.splitOn_append_cons_self, List.splitOn_nil,
      List.append_assoc]
    rfl

/-- Trimming takes slashes at the end away, and leaves something. -/
theorem exists_chars_eq_trimmed {p : Path} (hp : p.chars ≠ []) :
    p.trimmed.chars ≠ [] ∧ ∃ k, p.chars = p.trimmed.chars ++ List.replicate k '/' := by
  have htrimmed : p.trimmed = if p.segments.rdropWhile (· = []) = [] then p
      else ofSegments (p.segments.rdropWhile (· = [])) := rfl
  by_cases hkept : p.segments.rdropWhile (· = []) = []
  · rw [htrimmed, if_pos hkept]
    exact ⟨hp, 0, by simp⟩
  · rw [htrimmed, if_neg hkept]
    have hslash : ∀ s ∈ p.segments.rdropWhile (· = []), '/' ∉ s := fun s hs => by
      have hmem := (List.rdropWhile_prefix _ _).subset hs
      rw [segments_eq_splitOn] at hmem
      exact (notMem_of_mem_splitOn hmem).1
    have hidle : p.segments.rtakeWhile (· = []) =
        List.replicate (p.segments.rtakeWhile (· = [])).length [] :=
      List.eq_replicate_of_mem fun s hs => by simpa using List.mem_rtakeWhile_imp hs
    have hsegments := List.rdropWhile_append_rtakeWhile (p := (· = [])) (l := p.segments)
    have hlast := List.rdropWhile_last_not (· = []) p.segments hkept
    generalize p.segments.rdropWhile (· = []) = kept at *
    generalize (p.segments.rtakeWhile (· = [])).length = k at hidle
    have hself := segments_ofSegments hkept hslash
    refine ⟨fun hnil => ?_, k, congrArg chars (eq_of_segments_eq ?_ : p = ⟨_⟩)⟩
    · rw [segments_eq_splitOn, hnil, List.splitOn_nil] at hself
      subst hself
      exact hlast rfl
    · rw [← hsegments, hidle, segments_eq_splitOn, splitOn_append_replicate, ← segments_eq_splitOn,
        hself]

end Path

end Starfilm
