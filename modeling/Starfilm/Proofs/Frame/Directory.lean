import Mathlib.Logic.Relation
import Starfilm.Proofs.Disk.Ways
import Starfilm.Proofs.Frame.Calls
import Starfilm.Proofs.Frame.Names

/-!
# What a pass leaves in its directory

A pass over frames removes and writes files under the names of frames and of the index, one at a
time. `Touch` is one such step. No step makes, removes or hides a directory or changes anything
beside these files (`Touch.sameBeside`), and what the steps rely on stays true (`Touch.ready`). So a
pass is followed step by step: first the old frames are removed, then each call of the renderer puts
one file where there is none, then the index is written.
-/

namespace Starfilm

open Disk

/-- The names of the files that a pass removes and writes. -/
def IsShown (n : Name) : Prop := FrameNamed n ∨ n = indexName

/-- Two disks that differ at most in the frames and the index of one directory. -/
structure SameBeside (place : Place) (d e : Disk) : Prop extends SameDirectories d e where
  other (q : Place) : (∀ n, q = n :: place → ¬IsShown n) → e.node? q = d.node? q

namespace SameBeside

variable {place : Place} {d e f : Disk}

theorem refl (place : Place) (d : Disk) : SameBeside place d d :=
  ⟨.refl d, fun _ _ => rfl⟩

theorem symm (h : SameBeside place d e) : SameBeside place e d :=
  ⟨h.toSameDirectories.symm, fun q hq => (h.other q hq).symm⟩

theorem trans (h : SameBeside place d e) (h' : SameBeside place e f) : SameBeside place d f :=
  ⟨h.toSameDirectories.trans h'.toSameDirectories,
    fun q hq => (h'.other q hq).trans (h.other q hq)⟩

end SameBeside

/-- A tree in which a path leads to a directory of files and directories. -/
structure Ready (dir : Path) (place : Place) (d : Disk) : Prop where
  tree : d.IsTree
  find : d.find dir = .ok (place, .directory)
  plain : d.Plain place

/-! ## One file -/

/-- A step of a pass: one of its files is removed or written. -/
inductive Touch (place : Place) (d : Disk) : Disk → Prop
  | remove {n : Name} (hn : IsShown n) (h : d.node? (n :: place) ≠ some .directory) :
    Touch place d (d.erase (n :: place))
  | write {n : Name} (hn : IsShown n) (hp : n.IsProper)
    (h : d.node? (n :: place) ≠ some .directory) (c : Content) (x : Bool) :
    Touch place d (d.put (n :: place) (.file c x))

/-- Steps of a pass, one after another. -/
abbrev Touched (place : Place) : Disk → Disk → Prop := Relation.ReflTransGen (Touch place)

section Steps

variable {dir : Path} {place : Place} {d e : Disk}

/-- A step changes nothing beside the files of the pass. -/
theorem Touch.sameBeside (h : Touch place d e) : SameBeside place d e := by
  cases h with
  | @remove n hn h =>
    refine ⟨.erase h, fun q hq => ?_⟩
    rw [node?_erase, if_neg fun heq => hq n heq hn]
  | @write n hn hp h c x =>
    exact ⟨.put_file h c x, fun q hq => node?_put_of_ne d _ fun heq => hq n heq hn⟩

/-- What a step relies on holds after it. -/
theorem Touch.ready (hr : Ready dir place d) (h : Touch place d e) : Ready dir place e := by
  have hfind := find_directory_of_sameDirectories h.sameBeside.toSameDirectories hr.find
  cases h with
  | @remove n hn h =>
    refine ⟨hr.tree.erase h, hfind, fun m y hy => ?_⟩
    rw [node?_erase] at hy
    split_ifs at hy
    exact hr.plain m y hy
  | @write n hn hp h c x =>
    have hattached : d.Attached (n :: place) := ⟨hp, (find_eq_ok_iff.1 hr.find).2⟩
    refine ⟨hr.tree.put_file hattached h c x, hfind, fun m y hy => ?_⟩
    rw [node?_put] at hy
    split_ifs at hy
    · exact .inr ⟨c, x, (Option.some.inj hy).symm⟩
    · exact hr.plain m y hy

theorem Touched.sameBeside (h : Touched place d e) : SameBeside place d e := by
  induction h with
  | refl => exact .refl place d
  | tail _ hstep ih => exact ih.trans hstep.sameBeside

theorem Touched.ready (hr : Ready dir place d) (h : Touched place d e) : Ready dir place e := by
  induction h with
  | refl => exact hr
  | tail _ hstep ih => exact hstep.ready ih

/-- Writing a file of the pass is a step. -/
theorem Touch.of_write (hr : Ready dir place d) {n : Name} (hn : IsShown n) (hs : n.IsSegment)
    {c : Content} (h : d.write (dir.join ⟨n⟩) c = .ok e) : Touch place d e := by
  obtain ⟨hshort, hdir, rfl⟩ := (write_join_eq_ok_iff hr.find hs hr.plain).1 h
  exact .write hn ⟨hs, hshort⟩ hdir c _

/-- What can be written on one of two disks can be written on the other. -/
theorem exists_write {e' : Disk} (hr : Ready dir place d) (hr' : Ready dir place e)
    (hsame : SameDirectories d e) {n : Name} (hs : n.IsSegment) {c : Content}
    (h : d.write (dir.join ⟨n⟩) c = .ok e') : ∃ e₁, e.write (dir.join ⟨n⟩) c = .ok e₁ := by
  obtain ⟨hshort, hdir, -⟩ := (write_join_eq_ok_iff hr.find hs hr.plain).1 h
  exact ⟨_, (write_join_eq_ok_iff hr'.find hs hr'.plain).2
    ⟨hshort, mt (hsame.node? _).1 hdir, rfl⟩⟩

end Steps

/-! ## Removing the old frames -/

section Preparing

variable {dir : Path} {place : Place} {d base : Disk}

theorem removeFrames_cons (n : Name) (ns : List Name) (d : Disk) :
    removeFrames dir (n :: ns) d =
      if isFrameName n && d.isFile (dir.join ⟨n⟩) then
        (OnDisk.change (dir.join ⟨n⟩) (fun d => d.removeFile (dir.join ⟨n⟩)) >>= fun _ =>
          removeFrames dir ns) d
      else removeFrames dir ns d := by
  have hget : (get : OnDisk Disk) d = (.ok d, d) := rfl
  rw [removeFrames, bind_of_ok hget]
  split_ifs <;> rfl

/-- Removing the frames among some names succeeds, and no file stays under any of these. -/
theorem removeFrames_spec (hr : Ready dir place d) {names : List Name}
    (hnames : ∀ n ∈ names, n.IsProper) :
    ∃ e, removeFrames dir names d = (.ok (), e) ∧ Touched place d e ∧
      (∀ n ∈ names, isFrameName n = true → e.fileAt (n :: place) = none) ∧
      ∀ q, d.fileAt q = none → e.fileAt q = none := by
  induction names generalizing d with
  | nil => exact ⟨d, rfl, .refl, fun n hn => absurd hn List.not_mem_nil, fun q hq => hq⟩
  | cons n ns ih =>
    have hn := hnames n List.mem_cons_self
    have hns : ∀ m ∈ ns, m.IsProper := fun m hm => hnames m (List.mem_cons_of_mem n hm)
    rw [removeFrames_cons, isFile_join hr.find hn]
    split_ifs with hold
    · rw [Bool.and_eq_true, Option.isSome_iff_exists] at hold
      obtain ⟨hframe, c, hfile⟩ := hold
      obtain ⟨x, hnode⟩ := fileAt_eq_some_iff.1 hfile
      rw [bind_of_ok (OnDisk.change_of_ok (removeFile_join hr.find hn hnode))]
      have hstep : Touch place d (d.erase (n :: place)) :=
        .remove (.inl ((isFrameName_iff n).1 hframe)) (by simp [hnode])
      obtain ⟨e, hrun, htouched, hgone, hnone⟩ := ih (hstep.ready hr) hns
      refine ⟨e, hrun, .head hstep htouched, fun m hm hframe => ?_, fun q hq => hnone q ?_⟩
      · rcases List.mem_cons.1 hm with rfl | hm
        · exact hnone _ (by rw [fileAt_erase, if_pos rfl])
        · exact hgone m hm hframe
      · rw [fileAt_erase, hq, ite_self]
    · obtain ⟨e, hrun, htouched, hgone, hnone⟩ := ih hr hns
      refine ⟨e, hrun, htouched, fun m hm hframe => ?_, hnone⟩
      rcases List.mem_cons.1 hm with rfl | hm
      · refine hnone _ (Option.not_isSome_iff_eq_none.1 fun hsome => hold ?_)
        rw [hframe, hsome, Bool.and_self]
      · exact hgone m hm hframe

theorem makeDirectory_eq_ok_iff :
    makeDirectory dir d = (.ok (), base) ↔ createDirectories dir d = (.ok (), base) := by
  have hget : (get : OnDisk Disk) d = (.ok d, d) := rfl
  rw [makeDirectory, bind_of_ok hget]
  rcases createDirectories dir d with ⟨f | ⟨⟩, made⟩
  · exact iff_of_false (fun h => by cases h) fun h => by cases h
  · constructor
    · intro h
      cases h
      rfl
    · intro h
      cases h
      rfl

theorem prepareFrames_eq_ok_iff :
    prepareFrames dir d = (.ok (), base) ↔
      ∃ made names, createDirectories dir d = (.ok (), made) ∧ made.list dir = .ok names ∧
        removeFrames dir names made = (.ok (), base) := by
  rw [prepareFrames, bind_eq_ok_iff]
  constructor
  · rintro ⟨⟨⟩, made, hmade, h⟩
    refine ⟨made, ?_⟩
    cases hlist : made.list dir with
    | error f =>
      rw [bind_of_error (OnDisk.look_of_error hlist)] at h
      cases h
    | ok names =>
      rw [bind_of_ok (OnDisk.look_of_ok hlist)] at h
      exact ⟨names, makeDirectory_eq_ok_iff.1 hmade, rfl, h⟩
  · rintro ⟨made, names, hmade, hlist, hremove⟩
    refine ⟨(), made, makeDirectory_eq_ok_iff.2 hmade, ?_⟩
    rw [bind_of_ok (OnDisk.look_of_ok hlist), hremove]

/-- In a directory that is ready the old frames can be removed, and no file stays under the name of
a frame. -/
theorem prepareFrames_of_ready (hmade : createDirectories dir d = (.ok (), base))
    (hr : Ready dir place base) :
    ∃ e, prepareFrames dir d = (.ok (), e) ∧ Touched place base e ∧
      ∀ n, isFrameName n = true → e.fileAt (n :: place) = none := by
  have hnames : ∀ n ∈ base.children place, n.IsProper := fun n hn => by
    obtain ⟨x, hx⟩ := Option.isSome_iff_exists.1 ((mem_children base place n).1 hn)
    exact (hr.tree.attached hx).1
  obtain ⟨e, hrun, htouched, hgone, hnone⟩ := removeFrames_spec hr hnames
  refine ⟨e, ?_, htouched, fun n hframe => ?_⟩
  · exact prepareFrames_eq_ok_iff.2
      ⟨base, _, hmade, list_eq_ok_iff.2 ⟨place, hr.find, rfl⟩, hrun⟩
  · by_cases hn : n ∈ base.children place
    · exact hgone n hn hframe
    · refine hnone _ ?_
      rw [mem_children, Option.not_isSome_iff_eq_none] at hn
      rw [fileAt, hn]

end Preparing

end Starfilm
