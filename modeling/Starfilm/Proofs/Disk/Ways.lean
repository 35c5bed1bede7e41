import Starfilm.Proofs.Disk.Nodes

/-!
# Where paths lead

A path is walked segment by segment, and only directories are asked on the way. So disks with the
same directories lead a path to the same place (`resolve_of_sameDirectories`), slashes at the end of
a path make no difference (`resolve_trimmed`), and a name joined to the path of a directory leads to
that name in it (`resolve_join`). Then it is told what looking at such an entry, removing it and
writing it comes to, and what making directories adds (`Grows`). A disk that is a tree stays one
through all of this.
-/

namespace Starfilm

namespace Disk

variable {d e : Disk} {p q : Place}

/-! ## Walking -/

theorem walk_cons_eq_ok_iff {s : Name} {ss : List Name} :
    d.walk p (s :: ss) = .ok q ↔
      d.node? p = some .directory ∧ byteLength s ≤ maxNameLength ∧
        d.walk (step p s) ss = .ok q := by
  rw [walk]
  split
  · simp_all
  · split_ifs with hlong
    · simp [Nat.not_le.2 hlong]
    · simp_all
  · simp_all

theorem walk_append (ss ts : List Name) :
    d.walk p (ss ++ ts) = (d.walk p ss).bind fun q => d.walk q ts := by
  induction ss generalizing p with
  | nil => rfl
  | cons s ss ih =>
    rw [List.cons_append, walk, walk]
    split
    · rfl
    · split_ifs
      · rfl
      · exact ih
    · rfl

theorem walk_append_eq_ok_iff {ss ts : List Name} {r : Place} :
    d.walk p (ss ++ ts) = .ok r ↔ ∃ q, d.walk p ss = .ok q ∧ d.walk q ts = .ok r := by
  rw [walk_append]
  cases d.walk p ss <;> simp [Except.bind]

/-- The place that a path leads to is told by its segments alone. -/
theorem walk_eq_foldl {ss : List Name} (h : d.walk p ss = .ok q) : q = ss.foldl step p := by
  induction ss generalizing p with
  | nil => exact (Except.ok.inj h).symm
  | cons s ss ih => exact ih (walk_cons_eq_ok_iff.1 h).2.2

theorem walk_of_sameDirectories (hsame : SameDirectories d e) {ss : List Name}
    (h : d.walk p ss = .ok q) : e.walk p ss = .ok q := by
  induction ss generalizing p with
  | nil => exact h
  | cons s ss ih =>
    obtain ⟨hdir, hshort, hrest⟩ := walk_cons_eq_ok_iff.1 h
    exact walk_cons_eq_ok_iff.2 ⟨(hsame.node? p).2 hdir, hshort, ih hrest⟩

/-- In a tree, walking does not leave what is attached. -/
theorem walk_attached (ht : d.IsTree) {ss : List Name} (hss : ∀ s ∈ ss, '/' ∉ s ∧ '\x00' ∉ s)
    (hp : d.Attached p) (h : d.walk p ss = .ok q) : d.Attached q := by
  induction ss generalizing p with
  | nil => exact Except.ok.inj h ▸ hp
  | cons s ss ih =>
    obtain ⟨hdir, hshort, hrest⟩ := walk_cons_eq_ok_iff.1 h
    refine ih (fun t ht => hss t (List.mem_cons_of_mem s ht)) ?_ hrest
    unfold step
    split_ifs with hidle hup
    · exact ht.attached hdir
    · cases p with
      | nil => exact trivial
      | cons n p => exact ht.attached (ht.attached hdir).2
    · obtain ⟨hslash, hzero⟩ := hss s List.mem_cons_self
      exact ⟨⟨⟨hslash, hzero, by simpa using hidle, hup⟩, hshort⟩, hdir⟩

/-! ## The place of a path -/

/-- Where a path starts from. -/
def start (d : Disk) (path : Path) : Place := if path.isAbsolute then [] else d.here

/-- The place that a path would lead to if everything on the way were there. -/
def destination (d : Disk) (path : Path) : Place := path.segments.foldl step (d.start path)

variable {path : Path}

theorem resolve_eq_ok_iff :
    d.resolve path = .ok q ↔
      '\x00' ∉ path.chars ∧ path.chars ≠ [] ∧ d.walk (d.start path) path.segments = .ok q := by
  unfold resolve start
  split_ifs with hzero hnil <;> simp_all

theorem find_eq_ok_iff {x : Node} :
    d.find path = .ok (q, x) ↔ d.resolve path = .ok q ∧ d.node? q = some x := by
  unfold find
  cases hresolve : d.resolve path with
  | error f => simp [bind, Except.bind]
  | ok r =>
    cases hnode : d.node? r with
    | none =>
      simp only [bind, Except.bind, hnode, reduceCtorEq, Except.ok.injEq, false_iff, not_and]
      rintro rfl
      simp [hnode]
    | some y =>
      simp only [bind, Except.bind, hnode, Except.ok.injEq, Prod.mk.injEq]
      constructor
      · rintro ⟨rfl, rfl⟩
        exact ⟨rfl, hnode⟩
      · rintro ⟨rfl, hx⟩
        exact ⟨rfl, Option.some.inj (hnode.symm.trans hx)⟩

theorem eq_destination (h : d.resolve path = .ok q) : q = d.destination path :=
  walk_eq_foldl (resolve_eq_ok_iff.1 h).2.2

theorem destination_of_here (h : e.here = d.here) (path : Path) :
    e.destination path = d.destination path := by
  rw [destination, destination, start, start, h]

theorem resolve_of_sameDirectories (hsame : SameDirectories d e) (h : d.resolve path = .ok q) :
    e.resolve path = .ok q := by
  rw [resolve_eq_ok_iff] at h ⊢
  rw [start, hsame.here]
  exact ⟨h.1, h.2.1, walk_of_sameDirectories hsame h.2.2⟩

theorem find_directory_of_sameDirectories (hsame : SameDirectories d e)
    (h : d.find path = .ok (q, .directory)) : e.find path = .ok (q, .directory) := by
  rw [find_eq_ok_iff] at h ⊢
  exact ⟨resolve_of_sameDirectories hsame h.1, (hsame.node? q).2 h.2⟩

theorem isDirectory_iff : d.isDirectory path = true ↔ ∃ q, d.find path = .ok (q, .directory) := by
  unfold isDirectory
  split
  · next q h => exact iff_of_true rfl ⟨q, h⟩
  · next h => exact iff_of_false Bool.false_ne_true fun ⟨q, hq⟩ => h q hq

theorem list_eq_ok_iff {names : List Name} :
    d.list path = .ok names ↔ ∃ q, d.find path = .ok (q, .directory) ∧ names = d.children q := by
  unfold list
  rcases d.find path with f | ⟨q, _ | _ | _ | _⟩ <;> simp [bind, Except.bind, eq_comm]

/-- In a tree, a path leads to what is attached. -/
theorem resolve_attached (ht : d.IsTree) (h : d.resolve path = .ok q) : d.Attached q := by
  obtain ⟨hzero, -, hwalk⟩ := resolve_eq_ok_iff.1 h
  obtain ⟨s, ss, hsegments⟩ : ∃ s ss, path.segments = s :: ss :=
    List.exists_cons_of_ne_nil (by rw [Path.segments_eq_splitOn]; exact List.splitOn_ne_nil _ _)
  have hstart : d.Attached (d.start path) := by
    rw [hsegments] at hwalk
    exact ht.attached (walk_cons_eq_ok_iff.1 hwalk).1
  refine walk_attached ht (fun t ht => ?_) hstart hwalk
  rw [Path.segments_eq_splitOn] at ht
  obtain ⟨hslash, hsub⟩ := Path.notMem_of_mem_splitOn ht
  exact ⟨hslash, fun hmem => hzero (hsub hmem)⟩

theorem foldl_step_replicate (k : ℕ) : (List.replicate k []).foldl step p = p := by
  induction k with
  | zero => rfl
  | succ k ih => exact ih

/-- Empty segments at the end of a way can be left out. -/
theorem walk_of_append_replicate {ss : List Name} {k : ℕ}
    (h : d.walk p (ss ++ List.replicate k []) = .ok q) : d.walk p ss = .ok q := by
  obtain ⟨r, hr, hrest⟩ := walk_append_eq_ok_iff.1 h
  rw [hr, walk_eq_foldl hrest, foldl_step_replicate]

theorem resolve_trimmed (h : d.resolve path = .ok q) : d.resolve path.trimmed = .ok q := by
  rw [resolve_eq_ok_iff] at h ⊢
  obtain ⟨hzero, hne, hwalk⟩ := h
  obtain ⟨hne', k, hchars⟩ := Path.exists_chars_eq_trimmed hne
  have hstart : d.start path.trimmed = d.start path := by
    rw [start, start, Path.isAbsolute, Path.isAbsolute, hchars, List.head?_append_of_ne_nil _ hne']
  refine ⟨fun hmem => hzero ?_, hne', ?_⟩
  · rw [hchars]
    exact List.mem_append_left _ hmem
  · rw [Path.segments_eq_splitOn, hchars, Path.splitOn_append_replicate,
      ← Path.segments_eq_splitOn, ← hstart] at hwalk
    exact walk_of_append_replicate hwalk

/-! ## Entries of a directory -/

/-- What the file in a place holds, if there is one. -/
def fileAt (d : Disk) (p : Place) : Option Content :=
  match d.node? p with
  | some (.file c _) => some c
  | _ => none

theorem fileAt_eq_some_iff {c : Content} :
    d.fileAt p = some c ↔ ∃ x, d.node? p = some (.file c x) := by
  unfold fileAt
  split
  · next c' x h => simp [h]
  · next h => exact iff_of_false (by simp) fun ⟨x, hx⟩ => h c x hx

theorem fileAt_put_file (d : Disk) (p : Place) (c : Content) (x : Bool) (q : Place) :
    (d.put p (.file c x)).fileAt q = if q = p then some c else d.fileAt q := by
  rw [fileAt, node?_put]
  split_ifs <;> rfl

theorem fileAt_erase (d : Disk) (p q : Place) :
    (d.erase p).fileAt q = if q = p then none else d.fileAt q := by
  rw [fileAt, node?_erase]
  split_ifs <;> rfl

/-- Whether the file in a place may be run. -/
def mode (d : Disk) (p : Place) : Bool :=
  match d.node? p with
  | some (.file _ x) => x
  | _ => false

/-- Nothing but files and directories is in a directory. -/
def Plain (d : Disk) (p : Place) : Prop :=
  ∀ n x, d.node? (n :: p) = some x → x = .directory ∨ ∃ c e, x = .file c e

theorem plain_of_entries {d : Disk}
    (h : ∀ e ∈ d.entries, e.2 ≠ .fullDevice ∧ e.2 ≠ .nullDevice) (p : Place) : d.Plain p := by
  intro n x hx
  obtain ⟨e, he, rfl⟩ := Option.map_eq_some_iff.1 hx
  obtain ⟨hfull, hnull⟩ := h e (List.mem_of_find?_eq_some he)
  cases hnode : e.2 with
  | directory => exact .inl rfl
  | file c x => exact .inr ⟨c, x, rfl⟩
  | fullDevice => exact absurd hnode hfull
  | nullDevice => exact absurd hnode hnull

section Entry

variable {dir : Path} {place : Place} {n : Name} (h : d.find dir = .ok (place, .directory))

include h

/-- A name joined to the path of a directory leads to that name in it, unless it is too long. -/
theorem resolve_join (hn : n.IsSegment) :
    d.resolve (dir.join ⟨n⟩) =
      if maxNameLength < byteLength n then .error .nameTooLong else .ok (n :: place) := by
  obtain ⟨hresolve, hnode⟩ := find_eq_ok_iff.1 h
  obtain ⟨hzero, hne, hwalk⟩ := resolve_eq_ok_iff.1 hresolve
  obtain ⟨l, hchars, hl⟩ := Path.chars_join hne hn.slash_notMem
  obtain ⟨front, hsegments, hfront⟩ := Path.exists_segments_join hne hn.slash_notMem
  have hto : d.walk (d.start dir) front = .ok place := by
    rcases hfront with hfront | hfront
    · rwa [← hfront]
    · rw [hfront] at hwalk
      exact walk_of_append_replicate (k := 1) hwalk
  have hstep : step place n = n :: place := by
    rw [step, hn.not_idle, if_neg hn.ne_up]
    rfl
  have hzero' : '\x00' ∉ (dir.join ⟨n⟩).chars := by
    rw [hchars]
    rcases hl with rfl | hl
    · simpa using ⟨hzero, hn.zero_notMem⟩
    · rw [hl] at hzero
      simpa using ⟨fun hmem => hzero (List.mem_append_left _ hmem), hn.zero_notMem⟩
  have hne' : (dir.join ⟨n⟩).chars ≠ [] := by simp [hchars]
  rw [resolve, if_neg (by simpa using hzero'), if_neg hne', hsegments,
    Path.isAbsolute_join hne hn.slash_notMem]
  change d.walk (d.start dir) (front ++ [n]) = _
  rw [walk_append, hto]
  change d.walk place [n] = _
  rw [walk, hnode, hstep]
  rfl

theorem resolve_join_of_proper (hn : n.IsProper) :
    d.resolve (dir.join ⟨n⟩) = .ok (n :: place) := by
  rw [resolve_join h hn.toIsSegment, if_neg (Nat.not_lt.2 hn.short)]

theorem isFile_join (hn : n.IsProper) :
    d.isFile (dir.join ⟨n⟩) = (d.fileAt (n :: place)).isSome := by
  have hresolve := resolve_join_of_proper h hn
  simp only [isFile, find, hresolve, bind, Except.bind, fileAt]
  rcases d.node? (n :: place) with _ | _ | _ | _ | _ <;> rfl

theorem removeFile_join (hn : n.IsProper) {c : Content} {x : Bool}
    (hfile : d.node? (n :: place) = some (.file c x)) :
    d.removeFile (dir.join ⟨n⟩) = .ok (d.erase (n :: place)) := by
  have hfind := find_eq_ok_iff.2 ⟨resolve_join_of_proper h hn, hfile⟩
  simp only [removeFile, hfind, bind, Except.bind]

/-- Among files and directories, a name can be written to unless it is too long or a directory
has it; the file keeps its mode. -/
theorem write_join_eq_ok_iff (hn : n.IsSegment) (hplain : d.Plain place) {c : Content} :
    d.write (dir.join ⟨n⟩) c = .ok e ↔
      byteLength n ≤ maxNameLength ∧ d.node? (n :: place) ≠ some .directory ∧
        e = d.put (n :: place) (.file c (d.mode (n :: place))) := by
  have hne := (resolve_eq_ok_iff.1 (find_eq_ok_iff.1 h).1).2.1
  rw [write, Path.trimmed_join hne hn.slash_notMem hn.ne_nil,
    Path.endsInSlash_join hne hn.slash_notMem hn.ne_nil, resolve_join h hn]
  by_cases hlong : maxNameLength < byteLength n
  · rw [if_pos hlong]
    exact iff_of_false (by simp [bind, Except.bind]) fun hok => Nat.not_le.2 hlong hok.1
  · rw [if_neg hlong]
    simp only [bind, Except.bind, Bool.false_eq_true, if_false, Nat.not_lt.1 hlong, true_and, mode]
    cases hnode : d.node? (n :: place) with
    | none => simp [eq_comm]
    | some x =>
      rcases hplain n x hnode with rfl | ⟨c', x', rfl⟩ <;> simp [eq_comm]

end Entry

/-! ## Writing twice -/

/-- What writing does: nothing, to a device, or it puts a file where a file or nothing is. -/
theorem write_cases {c : Content} (h : d.write path c = .ok e) :
    e = d ∨ path.endsInSlash = false ∧ ∃ q, d.resolve path.trimmed = .ok q ∧
      (d.node? q = none ∨ ∃ c' x, d.node? q = some (.file c' x)) ∧
      e = d.put q (.file c (d.mode q)) := by
  unfold write at h
  cases hresolve : d.resolve path.trimmed with
  | error f => simp [hresolve, bind, Except.bind] at h
  | ok q =>
    cases hslash : path.endsInSlash with
    | true => simp [hresolve, hslash, bind, Except.bind] at h
    | false =>
      simp only [hresolve, hslash, bind, Except.bind, Bool.false_eq_true, if_false] at h
      split at h
      · next hnode =>
        exact .inr ⟨rfl, q, rfl, .inl hnode, by rw [mode, hnode, Except.ok.inj h]⟩
      · next c' x hnode =>
        exact .inr ⟨rfl, q, rfl, .inr ⟨c', x, hnode⟩, by rw [mode, hnode, Except.ok.inj h]⟩
      · cases h
      · split_ifs at h
        exact .inl (Except.ok.inj h).symm
      · exact .inl (Except.ok.inj h).symm

/-- What was written before does not matter for what is written now. -/
theorem write_write {c : Content} (h : d.write path c = .ok e) (c' : Content) :
    e.write path c' = d.write path c' := by
  rcases write_cases h with rfl | ⟨hslash, q, hresolve, hnode, rfl⟩
  · rfl
  · have hdir : d.node? q ≠ some .directory := by
      rcases hnode with hnode | ⟨_, _, hnode⟩ <;> simp [hnode]
    have hresolve' (x : Bool) : (d.put q (.file c x)).resolve path.trimmed = .ok q :=
      resolve_of_sameDirectories (.put_file hdir c x) hresolve
    rcases hnode with hnode | ⟨c₀, x, hnode⟩ <;>
      simp [write, hresolve, hresolve', hslash, bind, Except.bind, hnode, mode, put_put]

/-- Where anything can be written a file can be emptied. -/
theorem exists_write_empty {c : Content} (h : d.write path c = .ok e) :
    ∃ e₀, d.write path (.text "") = .ok e₀ := by
  unfold write at h ⊢
  cases hresolve : d.resolve path.trimmed with
  | error f => simp [hresolve, bind, Except.bind] at h
  | ok q =>
    cases hslash : path.endsInSlash with
    | true => simp [hresolve, hslash, bind, Except.bind] at h
    | false =>
      simp only [hresolve, hslash, bind, Except.bind, Bool.false_eq_true, if_false] at h ⊢
      revert h
      rcases d.node? q with _ | _ | ⟨c', x⟩ | _ | _ <;> intro h
      · exact ⟨_, rfl⟩
      · cases h
      · exact ⟨_, rfl⟩
      · exact ⟨d, rfl⟩
      · exact ⟨d, rfl⟩

/-! ## Making directories -/

/-- The disk `e` has what `d` has, and perhaps more directories. -/
structure Grows (d e : Disk) : Prop where
  here : e.here = d.here
  node? (q : Place) :
    e.node? q = d.node? q ∨ d.node? q = none ∧ e.node? q = some .directory

theorem Grows.refl (d : Disk) : Grows d d := ⟨rfl, fun _ => .inl rfl⟩

theorem Grows.trans {f : Disk} (h : Grows d e) (h' : Grows e f) : Grows d f := by
  refine ⟨h'.here.trans h.here, fun q => ?_⟩
  rcases h.node? q with hq | ⟨hnone, hdir⟩ <;> rcases h'.node? q with hq' | ⟨hnone', hdir'⟩
  · exact .inl (hq'.trans hq)
  · exact .inr ⟨hq ▸ hnone', hdir'⟩
  · exact .inr ⟨hnone, hq'.trans hdir⟩
  · exact .inr ⟨hnone, hdir'⟩

theorem createDirectory_grows (ht : d.IsTree) (h : d.createDirectory path = .ok e) :
    e.IsTree ∧ Grows d e := by
  unfold createDirectory at h
  cases hresolve : d.resolve path.trimmed with
  | error f => simp [hresolve, bind, Except.bind] at h
  | ok q =>
    cases hnode : d.node? q with
    | some x => simp [hresolve, bind, Except.bind, hnode] at h
    | none =>
      obtain rfl : d.put q .directory = e := by
        simpa [hresolve, bind, Except.bind, hnode] using h
      refine ⟨ht.put_directory (resolve_attached ht hresolve), put_here d q _, fun r => ?_⟩
      rw [node?_put]
      split_ifs with hr
      · exact .inr ⟨hr ▸ hnode, rfl⟩
      · exact .inl rfl

theorem createDirectoriesIn_grows (ht : d.IsTree) (k : ℕ) :
    (createDirectoriesIn k path d).2.IsTree ∧ Grows d (createDirectoriesIn k path d).2 := by
  induction k generalizing path d with
  | zero => exact ⟨ht, .refl d⟩
  | succ k ih =>
    have hself : d.IsTree ∧ Grows d d := ⟨ht, .refl d⟩
    have hsettle (f : Fault) (d : Disk) : (if d.isDirectory path = true then
        (Except.ok (), d) else (Except.error f, d)).2 = d := by
      split_ifs <;> rfl
    by_cases hnil : path.chars = []
    · rw [createDirectoriesIn, if_pos hnil]
      exact hself
    · rw [createDirectoriesIn, if_neg hnil]
      dsimp only
      split
      · next e hcreate => exact createDirectory_grows ht hcreate
      · split
        · exact hself
        · next parent hparent =>
          have hparents : (createDirectoriesIn k parent d).2.IsTree ∧
              Grows d (createDirectoriesIn k parent d).2 := ih ht
          split
          · next f d₁ hrec =>
            rw [hrec] at hparents
            exact hparents
          · next d₁ hrec =>
            rw [hrec] at hparents
            split
            · next e hcreate =>
              obtain ⟨htree, hgrows⟩ := createDirectory_grows hparents.1 hcreate
              exact ⟨htree, hparents.2.trans hgrows⟩
            · rw [hsettle]
              exact hparents
      · rw [hsettle]
        exact hself

theorem createDirectories_grows (ht : d.IsTree) (path : Path) :
    (createDirectories path d).2.IsTree ∧ Grows d (createDirectories path d).2 :=
  createDirectoriesIn_grows ht _

/-- Where there is a directory, none is made. -/
theorem createDirectories_of_isDirectory (h : d.isDirectory path = true) :
    createDirectories path d = (.ok (), d) := by
  obtain ⟨q, hfind⟩ := isDirectory_iff.1 h
  obtain ⟨hresolve, hnode⟩ := find_eq_ok_iff.1 hfind
  have hne := (resolve_eq_ok_iff.1 hresolve).2.1
  have hexists : d.createDirectory path = .error .exists := by
    simp [createDirectory, resolve_trimmed hresolve, bind, Except.bind, hnode]
  simp only [createDirectories, createDirectoriesIn, hne, if_false, hexists, h, if_true]

/-! ## Trees stay trees -/

theorem isTree_empty : empty.IsTree := isTree_of_entries (by decide) (by decide)

theorem isTree_write (ht : d.IsTree) {c : Content} (h : d.write path c = .ok e) : e.IsTree := by
  rcases write_cases h with rfl | ⟨-, q, hresolve, hnode, rfl⟩
  · exact ht
  · refine ht.put_file (resolve_attached ht hresolve) ?_ c _
    rcases hnode with hnode | ⟨_, _, hnode⟩ <;> simp [hnode]

theorem isTree_removeFile (ht : d.IsTree) (h : d.removeFile path = .ok e) : e.IsTree := by
  unfold removeFile at h
  rcases hfind : d.find path with f | ⟨q, x⟩
  · simp [hfind, bind, Except.bind] at h
  · obtain ⟨-, hnode⟩ := find_eq_ok_iff.1 hfind
    simp only [hfind, bind, Except.bind] at h
    cases x with
    | directory => cases h
    | file c x | fullDevice | nullDevice =>
      cases h
      exact ht.erase (by simp [hnode])

end Disk

end Starfilm
