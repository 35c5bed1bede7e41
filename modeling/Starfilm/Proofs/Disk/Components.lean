import Starfilm.Proofs.Disk.Paths

/-!
# Components

A path can be spelled in many ways: with more slashes than it needs, and with segments `.` that lead
nowhere. Two spellings are of the same path when they have the same components (`Path.components`).

The directory of a path is told by its spelling, and idle segments at its end are left out. So from
the directory of what was joined to a path the same paths are reached as from the path itself, if
not always in the same spelling (`Path.exists_parent?_join`).
-/

namespace Starfilm

namespace Path

/-- The components of a path: its segments without the idle ones. The first segment stays in any
case. It is empty for a path from the root, and it may be the `.` that begins a relative one. -/
def components (p : Path) : List Name :=
  if p.chars = [] then [] else p.segments.take 1 ++ (p.segments.drop 1).filter (!isIdle ·)

/-- What is written before a name that is joined to a path. -/
def front (p : Path) : List Char :=
  if p.chars = [] || p.endsInSlash then p.chars else p.chars ++ ['/']

/-- The segments that come before a name when it is joined to a path. -/
def folder (p : Path) : List Name := if p.endsInSlash then p.segments.dropLast else p.segments

/-! ## Names joined to a path -/

section Join

variable {p : Path} {n : Name}

theorem chars_join_eq_front (p : Path) (hn : '/' ∉ n) : (p.join ⟨n⟩).chars = p.front ++ n := by
  rw [join, isAbsolute_of_notMem hn, front, endsInSlash]
  split_ifs <;> simp_all

theorem segments_join (hp : p.chars ≠ []) (hn : '/' ∉ n) :
    (p.join ⟨n⟩).segments = p.folder ++ [n] := by
  rw [join, isAbsolute_of_notMem hn, folder, endsInSlash]
  by_cases hlast : p.chars.getLast? = some '/'
  · obtain ⟨l, hl⟩ := List.getLast?_eq_some_iff.1 hlast
    simp only [segments_eq_splitOn, hl, List.append_assoc, List.singleton_append]
    simp [List.splitOn_append_cons_self, List.splitOn_eq_singleton hn]
  · simp [hp, hlast, segments_eq_splitOn, List.splitOn_append_cons_self,
      List.splitOn_eq_singleton hn]

theorem folder_ne_nil (hp : p.chars ≠ []) : p.folder ≠ [] := by
  intro hnil
  obtain ⟨l, hl, -⟩ := chars_join (n := []) hp List.not_mem_nil
  have hsegments := segments_join (n := []) hp List.not_mem_nil
  rw [segments_eq_splitOn, hl, List.splitOn_append_cons_self, hnil] at hsegments
  exact List.splitOn_ne_nil _ _ (List.append_left_eq_self.1 (hsegments.trans (by simp)))

theorem components_join (hp : p.chars ≠ []) (hn : n.IsSegment) :
    (p.join ⟨n⟩).components =
      p.folder.take 1 ++ (p.folder.drop 1).filter (!isIdle ·) ++ [n] := by
  obtain ⟨l, hl, -⟩ := chars_join hp hn.slash_notMem
  obtain ⟨s, ss, hfolder⟩ := List.exists_cons_of_ne_nil (folder_ne_nil hp)
  have hne : (p.join ⟨n⟩).chars ≠ [] := by
    rw [hl]
    exact List.append_ne_nil_of_right_ne_nil _ (List.cons_ne_nil _ _)
  rw [components, if_neg hne, segments_join hp hn.slash_notMem, hfolder]
  simp [hn.not_idle]

end Join

/-! ## The directory of what was joined -/

section Parent

/-- What is left when the idle segments in front are dropped: something, and nothing idle in front
of other segments. -/
theorem dropIdle_spec {ss : List Name} (hss : ss ≠ []) :
    dropIdle ss ≠ [] ∧ (∃ idle, ss = idle ++ dropIdle ss ∧ ∀ s ∈ idle, isIdle s = true) ∧
      ∀ s t rest, dropIdle ss = s :: t :: rest → isIdle s = false := by
  fun_induction dropIdle ss with
  | case1 s t rest hidle ih =>
    obtain ⟨hne, ⟨idle, hsplit, hall⟩, hfront⟩ := ih (List.cons_ne_nil _ _)
    refine ⟨hne, ⟨s :: idle, congrArg (s :: ·) hsplit, ?_⟩, hfront⟩
    exact List.forall_mem_cons.2 ⟨hidle, hall⟩
  | case2 s t rest hidle =>
    refine ⟨List.cons_ne_nil _ _, ⟨[], rfl, List.forall_mem_nil _⟩, ?_⟩
    rintro s' t' rest' h
    cases h
    simpa using hidle
  | case3 ss hshort =>
    exact ⟨hss, ⟨[], rfl, List.forall_mem_nil _⟩, fun s t rest h => absurd h (hshort s t rest)⟩

/-- The folder of a path that is spelled by its segments. -/
theorem folder_ofSegments {ss : List Name} (hne : ss ≠ []) (hroot : ss ≠ [[]])
    (hslash : ∀ s ∈ ss, '/' ∉ s) (hlast : ∀ s t rest, ss.reverse = s :: t :: rest → s ≠ []) :
    (ofSegments ss).chars ≠ [] ∧ (ofSegments ss).folder = ss := by
  have hsegments := segments_ofSegments hne hslash
  refine ⟨fun hnil => ?_, ?_⟩
  · rw [segments_eq_splitOn, hnil, List.splitOn_nil] at hsegments
    exact hroot hsegments.symm
  · have hend : (ofSegments ss).endsInSlash = false := by
      rw [endsInSlash, beq_eq_false_iff_ne]
      intro hslash
      obtain ⟨l, hl⟩ := List.getLast?_eq_some_iff.1 hslash
      rw [segments_eq_splitOn, hl, List.splitOn_append_cons_self, List.splitOn_nil] at hsegments
      obtain ⟨t, rest, ht⟩ := List.exists_cons_of_ne_nil
        (mt List.reverse_eq_nil_iff.1 (List.splitOn_ne_nil '/' l))
      refine hlast [] t rest ?_ rfl
      rw [← hsegments, List.reverse_append, ht]
      rfl
    rw [folder, hend, hsegments]
    rfl

variable {p : Path} {n : Name}

/-- The directory of a name joined to a path: its folder is that of the path without idle segments
at the end. -/
theorem exists_folder_parent?_join (hp : p.chars ≠ []) (hn : n.IsSegment) :
    ∃ q, (p.join ⟨n⟩).parent? = some q ∧ q.chars ≠ [] ∧
      ∃ idle, p.folder = q.folder ++ idle ∧ ∀ s ∈ idle, isIdle s = true := by
  have hrev : p.folder.reverse ≠ [] := mt List.reverse_eq_nil_iff.1 (folder_ne_nil hp)
  obtain ⟨s, ss, hss⟩ := List.exists_cons_of_ne_nil hrev
  have hreversed : (p.join ⟨n⟩).reversed = n :: p.folder.reverse := by
    rw [reversed, segments_join hp hn.slash_notMem, List.reverse_append, List.reverse_singleton,
      List.singleton_append, hss, dropIdle, hn.not_idle, if_neg Bool.false_ne_true]
  have hparent : (p.join ⟨n⟩).parent? = some (if dropIdle p.folder.reverse = [[]] then ⟨['/']⟩
      else ofSegments (dropIdle p.folder.reverse).reverse) := by
    rw [parent?, hreversed, hss]
  have hslash : ∀ s ∈ p.folder, '/' ∉ s := fun s hs => by
    have hmem : s ∈ (p.join ⟨n⟩).segments := by
      rw [segments_join hp hn.slash_notMem]
      exact List.mem_append_left _ hs
    rw [segments_eq_splitOn] at hmem
    exact (notMem_of_mem_splitOn hmem).1
  obtain ⟨hne, ⟨idle, hsplit, hidle⟩, hfront⟩ := dropIdle_spec hrev
  generalize dropIdle p.folder.reverse = kept at *
  have hparts : p.folder = kept.reverse ++ idle.reverse := by
    rw [← List.reverse_append, ← hsplit, List.reverse_reverse]
  have hidle' : ∀ s ∈ idle.reverse, isIdle s = true := fun s hs => hidle s (List.mem_reverse.1 hs)
  refine ⟨_, hparent, ?_⟩
  by_cases hroot : kept = [[]]
  · rw [if_pos hroot]
    refine ⟨List.cons_ne_nil _ _, idle.reverse, ?_, hidle'⟩
    rw [hparts, hroot]
    rfl
  · rw [if_neg hroot]
    have hkept : ∀ s ∈ kept.reverse, '/' ∉ s := fun s hs =>
      hslash s (hparts ▸ List.mem_append_left _ hs)
    have hlast : ∀ s t rest, kept.reverse.reverse = s :: t :: rest → s ≠ [] := by
      rintro s t rest h rfl
      rw [List.reverse_reverse] at h
      cases hfront [] t rest h
    obtain ⟨hchars, hfolder⟩ := folder_ofSegments (mt List.reverse_eq_nil_iff.1 hne)
      (fun h => hroot (List.reverse_inj.1 h)) hkept hlast
    exact ⟨hchars, idle.reverse, by rw [hfolder, hparts], hidle'⟩

/-- **From the directory of what was joined to a path** the same paths are reached as from the path
itself. -/
theorem exists_parent?_join (p : Path) (hn : n.IsSegment) :
    ∃ q, (p.join ⟨n⟩).parent? = some q ∧
      ∀ m : Name, m.IsSegment → (q.join ⟨m⟩).components = (p.join ⟨m⟩).components := by
  by_cases hp : p.chars = []
  · obtain rfl : p = ⟨[]⟩ := congrArg Path.mk hp
    have hjoin : join ⟨[]⟩ ⟨n⟩ = ⟨n⟩ := by
      rw [join, isAbsolute_of_notMem hn.slash_notMem]
      rfl
    have hsegments : segments ⟨n⟩ = [n] := by
      rw [segments_eq_splitOn, List.splitOn_eq_singleton hn.slash_notMem]
    refine ⟨⟨[]⟩, ?_, fun m _ => rfl⟩
    rw [hjoin, parent?, reversed, hsegments]
    exact if_neg hn.ne_nil
  · obtain ⟨q, hparent, hq, idle, hfolder, hidle⟩ := exists_folder_parent?_join hp hn
    refine ⟨q, hparent, fun m hm => ?_⟩
    obtain ⟨s, ss, hss⟩ := List.exists_cons_of_ne_nil (folder_ne_nil hq)
    have hdrop : idle.filter (!isIdle ·) = [] :=
      List.filter_eq_nil_iff.2 fun s hs => by simp [hidle s hs]
    rw [components_join hq hm, components_join hp hm, hfolder, hss]
    simp [hdrop]

end Parent

/-! ## Characters -/

section Characters

variable {c : Char}

theorem count_flatten_splitAt {d : Char} (hd : c ≠ d) (l : List Char) :
    (splitAt d l).flatten.count c = l.count c := by
  induction l with
  | nil => rfl
  | cons e es ih =>
    by_cases hsep : e = d
    · rw [splitAt, if_pos hsep, List.flatten_cons, List.nil_append, ih, hsep,
        List.count_cons_of_ne hd.symm]
    · have hne : splitAt d es ≠ [] := by
        rw [splitAt_eq_splitOn]
        exact List.splitOn_ne_nil _ _
      obtain ⟨s, ss, hss⟩ := List.exists_cons_of_ne_nil hne
      rw [hss] at ih
      rw [splitAt, if_neg hsep, hss, List.flatten_cons, List.cons_append, List.count_cons,
        ← List.flatten_cons, ih, List.count_cons]

theorem count_flatten_filter_isIdle (hpoint : c ≠ '.') (ss : List Name) :
    (ss.filter (!isIdle ·)).flatten.count c = ss.flatten.count c := by
  induction ss with
  | nil => rfl
  | cons s ss ih =>
    cases hidle : isIdle s with
    | false => rw [List.filter_cons_of_pos (by simp [hidle])]; simp [ih]
    | true =>
      have hnone : s.count c = 0 := by
        simp only [isIdle, Bool.or_eq_true, decide_eq_true_eq] at hidle
        rcases hidle with rfl | rfl
        · rfl
        · exact List.count_cons_of_ne hpoint.symm
      rw [List.filter_cons_of_neg (by simp [hidle]), List.flatten_cons, List.count_append, hnone,
        Nat.zero_add, ih]

theorem count_front (hslash : c ≠ '/') (p : Path) : p.front.count c = p.chars.count c := by
  rw [front]
  split_ifs
  · rfl
  · rw [List.count_append, List.count_singleton, if_neg (by simpa using hslash.symm), Nat.add_zero]

/-- A character that is no part of the spelling stands in the components as often as in the path. -/
theorem count_components (hslash : c ≠ '/') (hpoint : c ≠ '.') (p : Path) :
    p.components.flatten.count c = p.chars.count c := by
  rw [components]
  split_ifs with hp
  · rw [hp]
    rfl
  · rw [List.flatten_append, List.count_append, count_flatten_filter_isIdle hpoint,
      ← List.count_append, ← List.flatten_append, List.take_append_drop, segments,
      count_flatten_splitAt hslash]

end Characters

end Path

end Starfilm
