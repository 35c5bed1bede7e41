import Starfilm.Proofs.Snapshot.Loading

/-!
# The names of snapshots

Snapshots are asked for by the beginning of their names and by their extension: they are named
`start`, anything, a point and `extension` (`IsNamed`). But a name is looked at from both ends, each
on its own, and its extension is what follows its last point, where a point at the very front makes
none (`Path.splitExtension_eq_some_iff`). The two come to the same exactly if the extension has no
point, the beginning is not empty, and no name ends within it (`separable_iff`).

**Main statement**: `discover_lists`.
-/

namespace Starfilm

/-! ## Extensions -/

/-- A name with something before its last point and `extension` after it. -/
def Name.HasExtension (extension : List Char) (n : Name) : Prop :=
  '.' ∉ extension ∧ ∃ stem, stem ≠ [] ∧ n = stem ++ '.' :: extension

namespace Path

/-- The last point of a name, if there is one. -/
theorem point_notMem_or_exists_eq_append (n : Name) :
    '.' ∉ n ∨ ∃ stem e, '.' ∉ e ∧ n = stem ++ '.' :: e := by
  by_cases hn : '.' ∈ n
  · obtain ⟨e, stem, hreverse, he⟩ := List.eq_append_cons_of_mem (List.mem_reverse.2 hn)
    refine .inr ⟨stem.reverse, e.reverse, by simpa using he, ?_⟩
    simpa using congrArg List.reverse hreverse
  · exact .inl hn

theorem takeWhile_point {e : Name} (he : '.' ∉ e) (rest : List Char) :
    (e.reverse ++ rest).takeWhile (· ≠ '.') = e.reverse ++ rest.takeWhile (· ≠ '.') := by
  refine List.takeWhile_append_of_pos fun c hc => ?_
  rw [List.mem_reverse] at hc
  exact decide_eq_true (ne_of_mem_of_not_mem hc he)

theorem splitExtension_of_notMem {n : Name} (hn : '.' ∉ n) : splitExtension n = (n, none) := by
  have hafter : (n.reverse.takeWhile (· ≠ '.')).reverse = n := by
    simpa using congrArg List.reverse (takeWhile_point hn [])
  simp only [splitExtension, hafter, decide_true, Bool.true_or, if_true]

/-- A point at the very front belongs to the stem. -/
theorem splitExtension_append (stem : Name) {e : Name} (he : '.' ∉ e) :
    splitExtension (stem ++ '.' :: e) =
      if stem = [] then ('.' :: e, none) else (stem, some e) := by
  have hreverse : (stem ++ '.' :: e).reverse = e.reverse ++ '.' :: stem.reverse := by simp
  have hafter : ((stem ++ '.' :: e).reverse.takeWhile (· ≠ '.')).reverse = e := by
    rw [hreverse, takeWhile_point he]
    simp
  have hlength : (stem ++ '.' :: e).length = stem.length + e.length + 1 := by simp; omega
  have hbefore : stem.length + e.length + 1 - e.length - 1 = stem.length := by omega
  have hne : e.length ≠ stem.length + e.length + 1 := by omega
  simp only [splitExtension, hafter, hlength, hbefore, List.take_left, hne, decide_false,
    Bool.false_or, decide_eq_true_eq]
  split_ifs with hstem
  · rw [hstem, List.nil_append]
  · rfl

theorem splitExtension_eq_some_iff {n e : Name} :
    (splitExtension n).2 = some e ↔ n.HasExtension e := by
  constructor
  · intro h
    rcases point_notMem_or_exists_eq_append n with hn | ⟨stem, e', he', rfl⟩
    · rw [splitExtension_of_notMem hn] at h
      cases h
    · rw [splitExtension_append stem he'] at h
      split_ifs at h with hstem
      obtain rfl := Option.some.inj h
      exact ⟨he', stem, hstem, rfl⟩
  · rintro ⟨he, stem, hstem, rfl⟩
    rw [splitExtension_append stem he, if_neg hstem]

end Path

/-! ## The pattern of names -/

/-- A name that is `start`, anything, a point and `extension`. -/
def IsNamed (start extension : String) (n : Name) : Prop :=
  ∃ m, n = start.toList ++ m ++ '.' :: extension.toList

/-- A beginning and an extension that can be found at the two ends of a name on their own. -/
structure Separable (start extension : String) : Prop where
  point_notMem : '.' ∉ extension.toList
  start_ne_nil : start.toList ≠ []
  /-- No name with the extension ends within the beginning. -/
  apart : ∀ stem rest, stem ≠ [] → start.toList = stem ++ '.' :: rest → ¬rest <+: extension.toList

section Pattern

variable {start extension : String} {n : Name}

theorem isSnapshotName_iff :
    isSnapshotName start extension n = true ↔
      start.toList <+: n ∧ n.HasExtension extension.toList := by
  rw [isSnapshotName, Bool.and_eq_true, List.isPrefixOf_iff_prefix, beq_iff_eq,
    Path.splitExtension_eq_some_iff]

/-- If beginning and extension are separable, the two ends of a name tell whether it is as asked. -/
theorem Separable.isSnapshotName_iff_isNamed (h : Separable start extension) :
    isSnapshotName start extension n = true ↔ IsNamed start extension n := by
  rw [isSnapshotName_iff]
  constructor
  · rintro ⟨⟨rest, hstart⟩, -, stem, hstem, hn⟩
    -- the beginning ends before the point of the extension, or it holds that point
    rcases List.append_eq_append_iff.1 (hstart.trans hn) with
      ⟨m, hm, -⟩ | ⟨overlap, hoverlap, hrest⟩
    · exact ⟨m, by rw [← hm]; exact hn⟩
    · cases overlap with
      | nil =>
        rw [List.append_nil] at hoverlap
        exact ⟨[], by rw [hoverlap, List.append_nil]; exact hn⟩
      | cons c overlap =>
        obtain ⟨rfl, hextension⟩ := List.cons.inj hrest
        exact absurd ⟨rest, hextension.symm⟩ (h.apart stem overlap hstem hoverlap)
  · rintro ⟨m, rfl⟩
    refine ⟨⟨m ++ '.' :: extension.toList, (List.append_assoc _ _ _).symm⟩, h.point_notMem,
      start.toList ++ m, ?_, rfl⟩
    exact List.append_ne_nil_of_left_ne_nil h.start_ne_nil m

/-- A beginning and an extension that are not separable have a name that is decided wrongly. -/
theorem separable_iff :
    Separable start extension ↔
      ∀ n, isSnapshotName start extension n = true ↔ IsNamed start extension n := by
  refine ⟨fun h n => h.isSnapshotName_iff_isNamed, fun h => ?_⟩
  simp only [isSnapshotName_iff] at h
  have hpoint : '.' ∉ extension.toList := by
    obtain ⟨-, hpoint, -⟩ := (h _).2 ⟨[], rfl⟩
    exact hpoint
  refine ⟨hpoint, fun hstart => ?_, fun stem rest hstem hstart hrest => ?_⟩
  · -- a name that begins with its only point has no extension
    obtain ⟨-, -, stem, hstem, hn⟩ := (h ('.' :: extension.toList)).2 ⟨[], by rw [hstart]; rfl⟩
    have hlength := congrArg List.length hn
    have hpos := List.length_pos_iff.2 hstem
    simp only [List.length_append, List.length_cons] at hlength
    omega
  · -- a name that ends within the beginning is shorter than the pattern
    have hbegins : start.toList <+: stem ++ '.' :: extension.toList := by
      rw [hstart]
      exact (List.prefix_append_right_inj stem).2 ((List.prefix_cons_inj '.').2 hrest)
    obtain ⟨m, hm⟩ := (h (stem ++ '.' :: extension.toList)).1 ⟨hbegins, hpoint, stem, hstem, rfl⟩
    have hlength := congrArg List.length hm
    simp only [hstart, List.length_append, List.length_cons] at hlength
    omega

end Pattern

/-- A file that a directory lists. -/
def Disk.HasFile (d : Disk) (dir : Path) (n : Name) : Prop :=
  (∃ names, d.list dir = .ok names ∧ n ∈ names) ∧ d.isFile (dir.join ⟨n⟩) = true

theorem Disk.hasSnapshot_iff {d : Disk} {dir : Path} {start extension : String} {n : Name} :
    d.HasSnapshot dir start extension n ↔
      d.HasFile dir n ∧ isSnapshotName start extension n = true :=
  ⟨fun h => ⟨⟨h.listed, h.isFile⟩, h.isSnapshotName⟩,
    fun ⟨⟨hlisted, hfile⟩, hname⟩ => ⟨hlisted, hfile, hname⟩⟩

/-- **What is found in a directory** are its files that begin as asked and have the extension asked
for, by the bytes of their names. If the beginning and the extension are separable, these are just
the files named `start`, anything, a point and `extension`; and for no others does this hold of all
names. -/
theorem discover_lists {d : Disk} (hunique : d.Unique) {dir : Path} {names : List Name}
    (hlist : d.list dir = .ok names) (start extension : String) :
    ∃ found, discover dir start extension d = .ok (found.map fun n => dir.join ⟨n⟩) ∧
      Name.Lists (fun n : Name =>
          d.HasFile dir n ∧ start.toList <+: n ∧ n.HasExtension extension.toList) found ∧
      (Separable start extension →
        Name.Lists (fun n => d.HasFile dir n ∧ IsNamed start extension n) found) ∧
      (¬Separable start extension → ∃ n : Name,
        ¬(start.toList <+: n ∧ n.HasExtension extension.toList ↔ IsNamed start extension n)) := by
  obtain ⟨found, hfound, hdiscover⟩ := exists_discover_eq_ok hlist start extension hunique
  refine ⟨found, hdiscover d (.refl hunique), ⟨hfound.pairwise, fun n => ?_⟩,
    fun hseparable => ⟨hfound.pairwise, fun n => ?_⟩, fun hnot => ?_⟩
  · rw [hfound.mem_iff, Disk.hasSnapshot_iff, isSnapshotName_iff]
  · rw [hfound.mem_iff, Disk.hasSnapshot_iff, hseparable.isSnapshotName_iff_isNamed]
  · rw [separable_iff, not_forall] at hnot
    simpa only [isSnapshotName_iff] using hnot

/-- Snapshots of the usual names. One has nothing between the beginning and the point, and a
directory with such a name is none. -/
theorem discover_lists_usual :
    let disk : Disk :=
      ⟨[([], .directory), (["snapshot_2.hdf5".toList], .file (.text "") false),
        (["snapshot_1.hdf5".toList], .directory),
        (["snapshot_3.txt".toList], .file (.text "") false),
        (["snapshot_.hdf5".toList], .file (.text "") false)], []⟩
    let dir : Path := .ofString "."
    disk.Unique ∧ Separable "snapshot_" "hdf5" ∧ discover dir "snapshot_" "hdf5" disk =
      .ok [.ofString "./snapshot_.hdf5", .ofString "./snapshot_2.hdf5"] := by
  intro disk dir
  have hunique : disk.Unique := by
    change List.Nodup [[], ["snapshot_2.hdf5".toList], ["snapshot_1.hdf5".toList],
      ["snapshot_3.txt".toList], ["snapshot_.hdf5".toList]]
    decide
  have hlist : disk.list dir = .ok ["snapshot_2.hdf5".toList, "snapshot_1.hdf5".toList,
      "snapshot_3.txt".toList, "snapshot_.hdf5".toList] := rfl
  have hseparable : Separable "snapshot_" "hdf5" := by
    refine ⟨by decide, by decide, fun stem rest _ hstart => ?_⟩
    have hpoint : '.' ∈ "snapshot_".toList := by
      rw [hstart]
      simp
    exact absurd hpoint (by decide)
  obtain ⟨found, hdiscover, -, hnamed, -⟩ := discover_lists hunique hlist "snapshot_" "hdf5"
  have hfound : found = ["snapshot_.hdf5".toList, "snapshot_2.hdf5".toList] := by
    refine (hnamed hseparable).unique ⟨?_, fun n => ?_⟩
    · exact List.pairwise_pair.2 (by decide)
    · rw [← hseparable.isSnapshotName_iff_isNamed]
      constructor
      · intro hn
        have hmem : n = "snapshot_.hdf5".toList ∨ n = "snapshot_2.hdf5".toList := by
          simpa using hn
        rcases hmem with rfl | rfl
        · exact ⟨⟨⟨_, hlist, by decide⟩, by decide⟩, by decide⟩
        · exact ⟨⟨⟨_, hlist, by decide⟩, by decide⟩, by decide⟩
      · rintro ⟨⟨⟨names, hnames, hn⟩, hfile⟩, hname⟩
        cases hlist.symm.trans hnames
        revert hfile hname
        revert n
        decide
  rw [hfound] at hdiscover
  exact ⟨hunique, hseparable, hdiscover⟩

/-- An extension with a point is never found, and neither is a name that has nothing before the
point of the extension; a name that ends within the beginning is found. -/
theorem discover_not_named :
    let disk (n : String) : Disk := ⟨[([], .directory), ([n.toList], .file (.text "") false)], []⟩
    let dir : Path := .ofString "."
    (discover dir "a" "tar.gz" (disk "a.tar.gz") = .ok [] ∧
        IsNamed "a" "tar.gz" "a.tar.gz".toList) ∧
      (discover dir "" "hdf5" (disk ".hdf5") = .ok [] ∧ IsNamed "" "hdf5" ".hdf5".toList) ∧
      discover dir "snap.hdf5" "hdf5" (disk "snap.hdf5") = .ok [.ofString "./snap.hdf5"] ∧
        ¬IsNamed "snap.hdf5" "hdf5" "snap.hdf5".toList := by
  intro disk dir
  have hdiscover (start extension n : String) : discover dir start extension (disk n) =
      .ok ((snapshotNames start extension (disk n) dir [n.toList]).map fun m => dir.join ⟨m⟩) := rfl
  have hpoints : snapshotNames "a" "tar.gz" (disk "a.tar.gz") dir ["a.tar.gz".toList] = [] :=
    List.mergeSort_nil
  have hfront : snapshotNames "" "hdf5" (disk ".hdf5") dir [".hdf5".toList] = [] :=
    List.mergeSort_nil
  have hwithin : snapshotNames "snap.hdf5" "hdf5" (disk "snap.hdf5") dir ["snap.hdf5".toList] =
      ["snap.hdf5".toList] := List.mergeSort_singleton _
  rw [hdiscover, hdiscover, hdiscover, hpoints, hfront, hwithin]
  refine ⟨⟨rfl, [], rfl⟩, ⟨rfl, [], rfl⟩, rfl, ?_⟩
  rintro ⟨m, hm⟩
  have hlength := congrArg List.length hm
  simp at hlength

end Starfilm
