import Starfilm.Proofs.Arith.PlaceOrder
import Starfilm.Proofs.Disk.Listing
import Starfilm.Proofs.Render.Stages

/-!
# One order of snapshots

The snapshots of a directory are found in the order of their names and sorted by time, and sorting
keeps what is equal in its order (`pairwise_mergeSort_of_pairwise`). So a sequence holds them by
time, and those of one time by name (`Earlier`); and the names that are asked for, in the order of
their bytes, are one list (`Name.Lists.unique`), however the file system tells the entries of the
directory.

**Main statement**: `ofDirectory_canonical`.
-/

namespace Starfilm

/-- Sorting keeps the order of what it takes for equal. -/
theorem pairwise_mergeSort_of_pairwise {A : Type} {le : A → A → Bool}
    (trans : ∀ a b c, le a b = true → le b c = true → le a c = true)
    (total : ∀ a b, (le a b || le b a) = true) {R : A → A → Prop} {xs : List A}
    (h : xs.Pairwise R) :
    (xs.mergeSort le).Pairwise fun a b => le a b = true ∧ (le b a = true → R a b) := by
  induction h with
  | nil => simp
  | @cons a xs ha _ ih =>
    -- all that precedes the first element after sorting is strictly before it
    obtain ⟨before, after, hcons, hxs, hbefore⟩ := List.mergeSort_cons trans total a xs
    have hsorted := List.pairwise_mergeSort trans total (a :: xs)
    rw [hcons, List.pairwise_append, List.pairwise_cons] at hsorted
    rw [hxs, List.pairwise_append] at ih
    obtain ⟨-, ⟨hle, -⟩, hge⟩ := hsorted
    obtain ⟨ihbefore, ihafter, ihcross⟩ := ih
    have hafter : ∀ c ∈ after, R a c := fun c hc => by
      have hmem : c ∈ xs.mergeSort le := by
        rw [hxs]
        exact List.mem_append_right before hc
      exact ha c (List.mem_mergeSort.1 hmem)
    rw [hcons, List.pairwise_append, List.pairwise_cons]
    refine ⟨ihbefore, ⟨fun c hc => ⟨hle c hc, fun _ => hafter c hc⟩, ihafter⟩, fun b hb c hc => ?_⟩
    rcases List.mem_cons.1 hc with rfl | hc
    · refine ⟨hge b hb c List.mem_cons_self, fun hcb => absurd hcb ?_⟩
      simpa using hbefore b hb
    · exact ihcross b hb c hc

theorem exists_of_mem_forall₂ {A B : Type} {R : A → B → Prop} {xs : List A} {ys : List B}
    (h : List.Forall₂ R xs ys) {x : A} (hx : x ∈ xs) : ∃ y, R x y := by
  rw [← List.map_fst_zip h.length_eq.le] at hx
  obtain ⟨⟨x, y⟩, hxy, rfl⟩ := List.mem_map.1 hx
  exact ⟨y, List.forall₂_zip h hxy⟩

/-! ## Names in their order -/

/-- A list of just the names with a property, in the order of their bytes. -/
structure Name.Lists (P : Name → Prop) (names : List Name) : Prop where
  pairwise : names.Pairwise fun m n => m.bytes < n.bytes
  mem_iff (n : Name) : n ∈ names ↔ P n

namespace Name.Lists

variable {P : Name → Prop} {names names' : List Name}

theorem nodup (h : Lists P names) : names.Nodup := by
  refine h.pairwise.imp fun {m n} hlt heq => ?_
  rw [heq] at hlt
  exact List.lt_irrefl _ hlt

/-- There is only one such list. -/
theorem unique (h : Lists P names) (h' : Lists P names') : names = names' := by
  have hperm : names.Perm names' :=
    (List.perm_ext_iff_of_nodup h.nodup h'.nodup).2 fun n => (h.mem_iff n).trans (h'.mem_iff n).symm
  exact hperm.eq_of_pairwise (fun m n _ _ hmn hnm => absurd hnm (List.lt_asymm hmn))
    h.pairwise h'.pairwise

/-- The names up to one of them. -/
theorem upTo {before after : List Name} {n : Name} (h : Lists P (before ++ n :: after)) :
    Lists (fun m => P m ∧ m.bytes ≤ n.bytes) (before ++ [n]) := by
  have hpairwise := h.pairwise
  rw [List.pairwise_append, List.pairwise_cons] at hpairwise
  obtain ⟨hbefore, ⟨hafter, -⟩, hcross⟩ := hpairwise
  have hlt : ∀ m ∈ before, m.bytes < n.bytes := fun m hm => hcross m hm n List.mem_cons_self
  refine ⟨List.pairwise_append.2 ⟨hbefore, List.pairwise_singleton _ n, fun m hm k hk => ?_⟩,
    fun m => ?_⟩
  · rw [List.mem_singleton.1 hk]
    exact hlt m hm
  · rw [← h.mem_iff, List.mem_append, List.mem_append, List.mem_singleton, List.mem_cons]
    constructor
    · rintro (hm | rfl)
      · exact ⟨.inl hm, List.le_of_lt (hlt m hm)⟩
      · exact ⟨.inr (.inl rfl), List.le_refl _⟩
    · rintro ⟨hm | rfl | hm, hle⟩
      · exact .inl hm
      · exact .inr rfl
      · exact absurd (hafter m hm) (List.not_lt.2 hle)

end Name.Lists

/-- A file of a directory that has the name of a snapshot. -/
structure Disk.HasSnapshot (d : Disk) (dir : Path) (start extension : String) (n : Name) :
    Prop where
  listed : ∃ names, d.list dir = .ok names ∧ n ∈ names
  isFile : d.isFile (dir.join ⟨n⟩) = true
  isSnapshotName : isSnapshotName start extension n = true

section Finding

variable {d : Disk} {dir : Path} {names : List Name} (hlist : d.list dir = .ok names)
  (start extension : String)

include hlist

theorem snapshotNames_lists (hnodup : names.Nodup) {e : Disk} (he : d.Rearranged e)
    {names' : List Name} (hperm : names'.Perm names) :
    Name.Lists (d.HasSnapshot dir start extension)
      (snapshotNames start extension e dir names') := by
  have hsorted : (snapshotNames start extension e dir names').Pairwise
      fun m n => Name.le m n = true := List.pairwise_mergeSort Name.le_trans Name.le_total _
  have hdistinct : (snapshotNames start extension e dir names').Nodup :=
    (List.mergeSort_perm _ Name.le).nodup_iff.2 ((hperm.nodup_iff.2 hnodup).filter _)
  refine ⟨(hsorted.and hdistinct).imp fun h => Name.bytes_lt_of_le_of_ne h.1 h.2, fun n => ?_⟩
  rw [snapshotNames, List.mem_mergeSort, List.mem_filter, Bool.and_eq_true, he.isFile,
    hperm.mem_iff]
  constructor
  · rintro ⟨hn, hfile, hname⟩
    exact ⟨⟨names, hlist, hn⟩, hfile, hname⟩
  · rintro ⟨⟨names', hlist', hn⟩, hfile, hname⟩
    cases hlist.symm.trans hlist'
    exact ⟨hn, hfile, hname⟩

/-- **The snapshots are found in one order**, however the disk tells its entries. -/
theorem exists_discover_eq_ok (h : d.Unique) :
    ∃ found, Name.Lists (d.HasSnapshot dir start extension) found ∧ ∀ e, d.Rearranged e →
      discover dir start extension e = .ok (found.map fun n => dir.join ⟨n⟩) := by
  have hnodup := h.nodup_list hlist
  have hfound := snapshotNames_lists hlist start extension hnodup (.refl h) (.refl names)
  refine ⟨_, hfound, fun e he => ?_⟩
  obtain ⟨f, hd, -⟩ | ⟨names', names'', hd, he', hperm⟩ := he.list dir
  · cases hlist.symm.trans hd
  · cases hlist.symm.trans hd
    rw [discover, he']
    have hsame := (snapshotNames_lists hlist start extension hnodup he hperm).unique hfound
    simp only [hsame]

end Finding

/-! ## Loading -/

variable {F : Type}

/-- Of two named snapshots the first is the earlier one, or of the same time and before by name. -/
def Earlier [Arith F] (a b : Name × Snapshot F) : Prop :=
  Arith.totalLe a.2.time b.2.time = true ∧ (a.2.time = b.2.time → a.1.bytes < b.1.bytes)

/-- The sequence of the snapshots of a directory. -/
def Sequence.ofDirectory [Arith F] (dir : Path) (start extension : String) (read : Reader F) :
    Run F (Sequence F) :=
  Run.look (discover dir start extension) >>= Sequence.load read

/-- A reader that reads the same, however the disk tells its entries. -/
def Reader.Steady (read : Reader F) (d : Disk) : Prop :=
  ∀ e, d.Rearranged e → ∀ p, read e p = read d p

/-- The log of some reading. -/
def readEvents (F : Type) (dir : Path) (names : List Name) : List (Event F) :=
  names.map fun n => .read (dir.join ⟨n⟩)

/-- Named snapshots of a directory: each is what is read under its name, no name is missing, and
none is there twice. -/
structure Reads (read : Reader F) (d : Disk) (dir : Path) (P : Name → Prop)
    (taken : List (Name × Snapshot F)) : Prop where
  nodup : (taken.map (·.1)).Nodup
  mem_iff (n : Name) : n ∈ taken.map (·.1) ↔ P n
  read : ∀ e ∈ taken, read d (dir.join ⟨e.1⟩) = .ok e.2

section Loading

variable [Arith F] {read : Reader F} {d : Disk} {dir : Path} {names : List Name}

/-- Sorting the snapshots of names in their order by time puts them in the order of a sequence. -/
theorem exists_reads [PlaceOrder F] {P : Name → Prop} (hnames : Name.Lists P names)
    {snapshots : List (Snapshot F)}
    (hread : List.Forall₂ (fun n t => read d (dir.join ⟨n⟩) = .ok t) names snapshots) :
    ∃ taken, Reads read d dir P taken ∧ taken.Pairwise Earlier ∧
      taken.map (·.2) = (Sequence.ofSnapshots snapshots).snapshots := by
  have hlength := hread.length_eq
  let le (a b : Name × Snapshot F) : Bool := Sequence.inOrder a.2 b.2
  have hperm := List.mergeSort_perm (names.zip snapshots) le
  have hfst : (names.zip snapshots).map (·.1) = names := List.map_fst_zip hlength.le
  have hsnd : (names.zip snapshots).map (·.2) = snapshots := List.map_snd_zip hlength.ge
  have hordered : (names.zip snapshots).Pairwise fun a b => a.1.bytes < b.1.bytes := by
    have hpairwise := hnames.pairwise
    rwa [← hfst, List.pairwise_map] at hpairwise
  refine ⟨(names.zip snapshots).mergeSort le, ⟨?_, fun n => ?_, fun e he => ?_⟩, ?_, ?_⟩
  · rw [(hperm.map _).nodup_iff, hfst]
    exact hnames.nodup
  · rw [(hperm.map _).mem_iff, hfst]
    exact hnames.mem_iff n
  · exact List.forall₂_zip hread (List.mem_mergeSort.1 he)
  · have hsorted : ((names.zip snapshots).mergeSort le).Pairwise fun a b =>
        le a b = true ∧ (le b a = true → a.1.bytes < b.1.bytes) :=
      pairwise_mergeSort_of_pairwise (fun a b c => PlaceOrder.trans a.2.time b.2.time c.2.time)
        (fun a b => PlaceOrder.total a.2.time b.2.time) hordered
    refine hsorted.imp fun {a b} h => ⟨h.1, fun htime => h.2 ?_⟩
    have hle : Arith.totalLe a.2.time b.2.time = true := h.1
    change Arith.totalLe b.2.time a.2.time = true
    rw [htime] at hle ⊢
    exact hle
  · rw [List.map_mergeSort (s := Sequence.inOrder) fun _ _ _ _ => rfl, hsnd]
    rfl

/-- **Loading a directory**: the names are read in their order, to the end or to the first that
cannot be read. -/
theorem ofDirectory_cases (hunique : d.Unique) (hsteady : read.Steady d)
    (hlist : d.list dir = .ok names) (start extension : String) :
    (∃ found snapshots, Name.Lists (d.HasSnapshot dir start extension) found ∧
        List.Forall₂ (fun n t => read d (dir.join ⟨n⟩) = .ok t) found snapshots ∧
        ∀ e, d.Rearranged e → ∀ log,
          Sequence.ofDirectory dir start extension read ⟨e, log⟩ =
            (.ok (.ofSnapshots snapshots), ⟨e, log ++ readEvents F dir found⟩)) ∨
      ∃ before n after snapshots f,
        Name.Lists (d.HasSnapshot dir start extension) (before ++ n :: after) ∧
        List.Forall₂ (fun n t => read d (dir.join ⟨n⟩) = .ok t) before snapshots ∧
        read d (dir.join ⟨n⟩) = .error f ∧
        ∀ e, d.Rearranged e → ∀ log,
          Sequence.ofDirectory dir start extension read ⟨e, log⟩ =
            (.error f, ⟨e, log ++ readEvents F dir (before ++ [n])⟩) := by
  obtain ⟨found, hfound, hdiscover⟩ := exists_discover_eq_ok hlist start extension hunique
  have hreadAs {e : Disk} (he : d.Rearranged e) {paths : List Path} {ts : List (Snapshot F)}
      (h : ReadAs read d paths ts) : ReadAs read e paths ts :=
    h.imp fun p t hp => (hsteady e he p).trans hp
  rcases readAs_or_failing read d (found.map fun n => dir.join ⟨n⟩) with
    ⟨snapshots, hread⟩ | ⟨done, p, rest, snapshots, f, hsplit, hread, hfail⟩
  · refine .inl ⟨found, snapshots, hfound, List.forall₂_map_left_iff.1 hread, fun e he log => ?_⟩
    refine (bind_of_ok (Run.look_apply log (hdiscover e he))).trans ?_
    refine (bind_of_ok (readAll_of_readAs log (hreadAs he hread))).trans ?_
    rw [readEvents, List.map_map]
    rfl
  · obtain ⟨before, tail, rfl, rfl, htail⟩ := List.map_eq_append_iff.1 hsplit
    obtain ⟨n, after, rfl, rfl, rfl⟩ := List.map_eq_cons_iff.1 htail
    refine .inr ⟨before, n, after, snapshots, f, hfound, List.forall₂_map_left_iff.1 hread, hfail,
      fun e he log => ?_⟩
    refine (bind_of_ok (Run.look_apply log (hdiscover e he))).trans ?_
    rw [hsplit]
    refine (bind_of_error (readAll_of_failing log (hreadAs he hread)
      ((hsteady e he _).trans hfail))).trans ?_
    rw [readEvents, List.map_append, List.map_append, List.map_map]
    rfl

end Loading

/-- **The snapshots of a directory have one order.** If all its files with the name of a snapshot
can be read, then the sequence holds what is read from each of them, once, by rising time, and those
of one time by the bytes of their names. Otherwise the loading fails as the first of them by name
that cannot be read, and none after it is read. The order in which the disk tells its entries plays
no part. -/
theorem ofDirectory_canonical {read : Reader Double} {d : Disk} (hunique : d.Unique)
    (hsteady : read.Steady d) {dir : Path} {names : List Name} (hlist : d.list dir = .ok names)
    (start extension : String) (log : List (Event Double)) :
    let asked := d.HasSnapshot dir start extension
    let run (e : Disk) := Sequence.ofDirectory dir start extension read ⟨e, log⟩
    ((∀ n, asked n → ∃ t, read d (dir.join ⟨n⟩) = .ok t) →
        ∃ q taken done, Reads read d dir asked taken ∧ taken.Pairwise Earlier ∧
          q.snapshots = taken.map (·.2) ∧ Name.Lists asked done ∧
          ∀ e, d.Rearranged e → run e = (.ok q, ⟨e, log ++ readEvents Double dir done⟩)) ∧
      ((∃ n f, asked n ∧ read d (dir.join ⟨n⟩) = .error f) →
        ∃ n f done, asked n ∧ read d (dir.join ⟨n⟩) = .error f ∧
          (∀ m, asked m → m.bytes < n.bytes → ∃ t, read d (dir.join ⟨m⟩) = .ok t) ∧
          Name.Lists (fun m => asked m ∧ m.bytes ≤ n.bytes) done ∧
          ∀ e, d.Rearranged e → run e = (.error f, ⟨e, log ++ readEvents Double dir done⟩)) := by
  intro asked run
  rcases ofDirectory_cases hunique hsteady hlist start extension with
    ⟨found, snapshots, hfound, hread, hrun⟩ |
      ⟨before, n, after, snapshots, f, hfound, hread, hfail, hrun⟩
  · refine ⟨fun _ => ?_, fun ⟨n, f, hn, hfail⟩ => ?_⟩
    · obtain ⟨taken, htaken, hearlier, hsnapshots⟩ := exists_reads hfound hread
      exact ⟨_, taken, found, htaken, hearlier, hsnapshots.symm, hfound,
        fun e he => hrun e he log⟩
    · obtain ⟨t, ht⟩ := exists_of_mem_forall₂ hread ((hfound.mem_iff n).2 hn)
      cases ht.symm.trans hfail
  · have hmem : n ∈ before ++ n :: after := List.mem_append_right before List.mem_cons_self
    have hasked : asked n := (hfound.mem_iff n).1 hmem
    refine ⟨fun hall => ?_, fun _ => ⟨n, f, before ++ [n], hasked, hfail, fun m hm hlt => ?_,
      hfound.upTo, fun e he => hrun e he log⟩⟩
    · obtain ⟨t, ht⟩ := hall n hasked
      cases ht.symm.trans hfail
    · have hm' := (hfound.upTo.mem_iff m).2 ⟨hm, List.le_of_lt hlt⟩
      rcases List.mem_append.1 hm' with hm' | hm'
      · exact exists_of_mem_forall₂ hread hm'
      · rw [List.mem_singleton.1 hm'] at hlt
        exact absurd hlt (List.lt_irrefl _)

/-- Three files of no time at all, of which the disk tells the last first. If `b.h5` is no text it
cannot be read, and `c.h5` is not read any more. -/
theorem ofDirectory_canonical_untimed :
    let read : Reader Double := fun d p =>
      match d.readText p with
      | .ok _ => .ok ⟨some p, Double.nan, [], [], .empty⟩
      | .error f => .error (.disk p f.message)
    let disk (b : Content) : Disk :=
      ⟨[([], .directory), (["c.h5".toList], .file (.text "") false),
        (["a.h5".toList], .file (.text "") false), (["b.h5".toList], .file b false)], []⟩
    let dir : Path := .ofString "."
    let names : List Name := ["c.h5".toList, "a.h5".toList, "b.h5".toList]
    let good := disk (.text "")
    let bad := disk (.bytes [255])
    let run (e : Disk) := Sequence.ofDirectory dir "" "h5" read ⟨e, []⟩
    ((good.Unique ∧ read.Steady good ∧ good.list dir = .ok names) ∧
        (∀ n, good.HasSnapshot dir "" "h5" n → ∃ t, read good (dir.join ⟨n⟩) = .ok t) ∧
        ∃ q taken done, Reads read good dir (good.HasSnapshot dir "" "h5") taken ∧
          taken.Pairwise Earlier ∧ q.snapshots = taken.map (·.2) ∧
          Name.Lists (good.HasSnapshot dir "" "h5") done ∧
          run good = (.ok q, ⟨good, readEvents Double dir done⟩)) ∧
      (bad.Unique ∧ read.Steady bad ∧ bad.list dir = .ok names) ∧
        (∃ n f, bad.HasSnapshot dir "" "h5" n ∧ read bad (dir.join ⟨n⟩) = .error f) ∧
        (run bad).1 = .error (.disk (.ofString "./b.h5") Disk.Fault.notText.message) := by
  intro read disk dir names good bad run
  have hunique (b : Content) : (disk b).Unique := by
    change List.Nodup [[], ["c.h5".toList], ["a.h5".toList], ["b.h5".toList]]
    decide
  have hsteady (d : Disk) : read.Steady d := fun e he p => by
    simp only [read, Disk.readText, Disk.content, he.find]
  have hlist (b : Content) : (disk b).list dir = .ok names := rfl
  have hall : ∀ n, good.HasSnapshot dir "" "h5" n → ∃ t, read good (dir.join ⟨n⟩) = .ok t := by
    rintro n ⟨⟨names', hnames, hn⟩, -, -⟩
    cases (hlist _).symm.trans hnames
    simp only [names, List.mem_cons, List.not_mem_nil, or_false] at hn
    rcases hn with rfl | rfl | rfl
    all_goals exact ⟨_, rfl⟩
  have hfail : ∃ n f, bad.HasSnapshot dir "" "h5" n ∧ read bad (dir.join ⟨n⟩) = .error f :=
    ⟨"b.h5".toList, _, ⟨⟨names, hlist _, by decide⟩, by decide, by decide⟩, rfl⟩
  have hgood := (ofDirectory_canonical (hunique (.text "")) (hsteady _) (hlist _) "" "h5" []).1 hall
  have hbad := (ofDirectory_canonical (hunique (.bytes [255])) (hsteady _) (hlist _) "" "h5" []).2
    hfail
  obtain ⟨q, taken, done, htaken, hearlier, hq, hdone, hrun⟩ := hgood
  refine ⟨⟨⟨hunique _, hsteady _, hlist _⟩, hall, q, taken, done, htaken, hearlier, hq, hdone,
    hrun good (.refl (hunique _))⟩, ⟨hunique _, hsteady _, hlist _⟩, hfail, ?_⟩
  obtain ⟨n, f, done', ⟨⟨names', hnames, hn⟩, -, -⟩, hf, -, -, hrun'⟩ := hbad
  cases (hlist _).symm.trans hnames
  simp only [names, List.mem_cons, List.not_mem_nil, or_false] at hn
  rw [show run bad = _ from hrun' bad (.refl (hunique _))]
  rcases hn with rfl | rfl | rfl
  · cases hf
  · cases hf
  · cases hf
    rfl

end Starfilm
