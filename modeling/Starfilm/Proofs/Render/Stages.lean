import Mathlib.Data.List.Forall2
import Starfilm.Proofs.Render.Trace

/-!
# Before the first frame

A run finds the snapshots, reads them, checks its settings and looks for a window before it touches
the disk. `StopsBefore` lists what may stop it on the way, stage by stage: each constructor says
that its stage fails and that those before it have passed.

**Main statement**: `renderDirectory_stops`. A run that one of these stages stops fails with the
failure of that stage. It has read some snapshots, and has left the disk as it was; the renderer and
the assemblers play no part. A run that none of them stops goes on to its frames.
-/

namespace Starfilm

variable {F : Type}

/-! ## Reading -/

/-- These snapshots are what is read from these paths, one from each. -/
def ReadAs (read : Reader F) (d : Disk) : List Path → List (Snapshot F) → Prop :=
  List.Forall₂ fun p t => read d p = .ok t

section Reading

variable {read : Reader F} {d : Disk} (log : List (Event F))

theorem readAll_of_readAs {paths : List Path} {snapshots : List (Snapshot F)}
    (h : ReadAs read d paths snapshots) :
    readAll read paths ⟨d, log⟩ = (.ok snapshots, ⟨d, log ++ paths.map .read⟩) := by
  induction h generalizing log with
  | nil =>
    rw [readAll, List.map_nil, List.append_nil]
    rfl
  | cons hp _ ih =>
    rw [readAll, bind_of_ok (Run.record_apply _ _ _), bind_of_ok (Run.look_apply _ hp),
      bind_of_ok (ih _), List.append_assoc]
    rfl

theorem readAll_of_failing {done rest : List Path} {snapshots : List (Snapshot F)} {p : Path}
    {e : Failure} (h : ReadAs read d done snapshots) (hp : read d p = .error e) :
    readAll read (done ++ p :: rest) ⟨d, log⟩ =
      (.error e, ⟨d, log ++ (done ++ [p]).map .read⟩) := by
  induction h generalizing log with
  | nil =>
    rw [List.nil_append, readAll, bind_of_ok (Run.record_apply _ _ _),
      bind_of_error (Run.look_apply _ hp)]
    rfl
  | cons hp' _ ih =>
    rw [List.cons_append, readAll, bind_of_ok (Run.record_apply _ _ _),
      bind_of_ok (Run.look_apply _ hp'), bind_of_error (ih _), List.append_assoc]
    rfl

/-- Paths are either all read, or one is the first that cannot be. -/
theorem readAs_or_failing (read : Reader F) (d : Disk) (paths : List Path) :
    (∃ snapshots, ReadAs read d paths snapshots) ∨
      ∃ done p rest snapshots e, paths = done ++ p :: rest ∧ ReadAs read d done snapshots ∧
        read d p = .error e := by
  induction paths with
  | nil => exact .inl ⟨[], .nil⟩
  | cons p paths ih =>
    cases hp : read d p with
    | error e => exact .inr ⟨[], p, paths, [], e, rfl, .nil, hp⟩
    | ok t =>
      rcases ih with ⟨snapshots, h⟩ | ⟨done, p', rest, snapshots, e, rfl, h, he⟩
      · exact .inl ⟨t :: snapshots, .cons hp h⟩
      · exact .inr ⟨p :: done, p', rest, t :: snapshots, e, rfl, .cons hp h, he⟩

end Reading

/-! ## The stages -/

section Stages

variable [Arith F] [Elementary F] [DecimalText F] (s : Settings F) (read : Reader F) (d : Disk)

/-- The snapshots that a run finds. -/
def Settings.find : Except Failure (List Path) := discover s.inputDir s.nameStart s.nameExtension d

/-- A stage before the first frame fails, and it is the first one: the run is to end with this
failure. -/
inductive StopsBefore : Failure → Prop
  /-- The directory of the snapshots cannot be listed. -/
  | unlisted {f : Disk.Fault} (h : d.list s.inputDir = .error f) :
    StopsBefore (.disk s.inputDir f.message)
  /-- No file in it has the name of a snapshot. -/
  | unmatched {names : List Name} (h : d.list s.inputDir = .ok names)
    (hnone : ∀ n ∈ names, d.isFile (s.inputDir.join ⟨n⟩) = true →
      isSnapshotName s.nameStart s.nameExtension n = false) :
    StopsBefore .nothingToFrame
  /-- A snapshot cannot be read. -/
  | unreadable {done rest : List Path} {p : Path} {snapshots : List (Snapshot F)} {e : Failure}
    (hfind : s.find d = .ok (done ++ p :: rest)) (hread : ReadAs read d done snapshots)
    (h : read d p = .error e) :
    StopsBefore e
  /-- The settings make no sense. -/
  | invalid {paths : List Path} {snapshots : List (Snapshot F)} {e : Failure}
    (hfind : s.find d = .ok paths) (hne : paths ≠ []) (hread : ReadAs read d paths snapshots)
    (h : s.validate = .error e) :
    StopsBefore e
  /-- No particle is seen at a finite point. -/
  | unframed {paths : List Path} {snapshots : List (Snapshot F)}
    (hfind : s.find d = .ok paths) (hne : paths ≠ []) (hread : ReadAs read d paths snapshots)
    (hvalid : s.validate = .ok ()) (h : ¬s.SeesPoint snapshots) :
    StopsBefore .nothingToFrame

/-- All stages before the first frame pass, with these snapshots and this window. -/
structure Passes (paths : List Path) (snapshots : List (Snapshot F)) (w : Window F) : Prop where
  find : s.find d = .ok paths
  ne_nil : paths ≠ []
  read : ReadAs read d paths snapshots
  valid : s.validate = .ok ()
  window : s.window (s.frames (.ofSnapshots snapshots)) = .ok w

variable {s read d}

omit [Arith F] [Elementary F] [DecimalText F] in
/-- In a directory that can be listed, nothing is found when no file has the name of a snapshot. -/
theorem find_of_list {names : List Name} (h : d.list s.inputDir = .ok names) :
    ∃ paths, s.find d = .ok paths ∧
      (paths = [] ↔ ∀ n ∈ names, d.isFile (s.inputDir.join ⟨n⟩) = true →
        isSnapshotName s.nameStart s.nameExtension n = false) := by
  refine ⟨_, by rw [Settings.find, discover, h], ?_⟩
  have hsort := (List.mergeSort_perm (names.filter fun n => d.isFile (s.inputDir.join ⟨n⟩) &&
    isSnapshotName s.nameStart s.nameExtension n) Name.le).length_eq
  rw [List.map_eq_nil_iff, snapshotNames, ← List.length_eq_zero_iff, hsort,
    List.length_eq_zero_iff, List.filter_eq_nil_iff]
  refine forall₂_congr fun n _ => ?_
  rw [Bool.and_eq_true, not_and, Bool.not_eq_true]

/-- A run that has found snapshots goes on to read them. -/
theorem renderDirectory_of_find {paths : List Path} (hfind : s.find d = .ok paths)
    (hne : paths ≠ []) (render : Renderer F) (assemblers : List Assembler) (log : List (Event F)) :
    renderDirectory s read render assemblers ⟨d, log⟩ =
      (Sequence.load read paths >>= renderSequence s render assemblers) ⟨d, log⟩ := by
  have hempty : paths.isEmpty = false := by simpa using hne
  refine (bind_of_ok (Run.look_apply log hfind)).trans ?_
  simp only [hempty, Bool.false_eq_true, if_false]

theorem renderDirectory_of_readAs {paths : List Path} {snapshots : List (Snapshot F)}
    (hfind : s.find d = .ok paths) (hne : paths ≠ []) (hread : ReadAs read d paths snapshots)
    (render : Renderer F) (assemblers : List Assembler) (log : List (Event F)) :
    renderDirectory s read render assemblers ⟨d, log⟩ =
      renderSequence s render assemblers (.ofSnapshots snapshots) ⟨d, log ++ paths.map .read⟩ := by
  rw [renderDirectory_of_find hfind hne]
  exact bind_of_ok (bind_of_ok (readAll_of_readAs log hread))

/-- A run that a stage stops has only read snapshots. -/
theorem StopsBefore.renderDirectory_eq {e : Failure} (h : StopsBefore s read d e) :
    ∃ paths : List Path, ∀ render assemblers log,
      renderDirectory s read render assemblers ⟨d, log⟩ =
        (.error e, ⟨d, log ++ paths.map .read⟩) := by
  cases h with
  | @unlisted f h =>
    have hfind : s.find d = .error (.disk s.inputDir f.message) := by
      simp only [Settings.find, discover, h]
    refine ⟨[], fun render assemblers log => ?_⟩
    rw [List.map_nil, List.append_nil]
    exact bind_of_error (Run.look_apply log hfind)
  | unmatched h hnone =>
    obtain ⟨paths, hfind, hnil⟩ := find_of_list h
    rw [hnil.2 hnone] at hfind
    refine ⟨[], fun render assemblers log => ?_⟩
    rw [List.map_nil, List.append_nil]
    exact bind_of_ok (Run.look_apply log hfind)
  | @unreadable done rest p snapshots e hfind hread h =>
    refine ⟨done ++ [p], fun render assemblers log => ?_⟩
    rw [renderDirectory_of_find hfind (by simp)]
    exact bind_of_error (bind_of_error (readAll_of_failing log hread h))
  | @invalid paths snapshots e hfind hne hread h =>
    refine ⟨paths, fun render assemblers log => ?_⟩
    rw [renderDirectory_of_readAs hfind hne hread]
    exact bind_of_error (lift_apply h _)
  | @unframed paths snapshots hfind hne hread hvalid h =>
    refine ⟨paths, fun render assemblers log => ?_⟩
    rw [renderDirectory_of_readAs hfind hne hread, renderSequence, bind_of_ok (lift_apply hvalid _)]
    exact bind_of_error (lift_apply (window_of_not_seesPoint h) _)

theorem Passes.renderDirectory_eq {paths : List Path} {snapshots : List (Snapshot F)}
    {w : Window F} (h : Passes s read d paths snapshots w) (render : Renderer F)
    (assemblers : List Assembler) (log : List (Event F)) :
    renderDirectory s read render assemblers ⟨d, log⟩ =
      renderFramed s render assemblers w (.ofSnapshots snapshots) ⟨d, log ++ paths.map .read⟩ := by
  rw [renderDirectory_of_readAs h.find h.ne_nil h.read]
  exact renderSequence_of_framed render assemblers h.valid h.window _

variable (s read d)

/-- Either a stage stops a run, or all of them pass. -/
theorem stopsBefore_or_passes :
    (∃ e, StopsBefore s read d e) ∨ ∃ paths snapshots w, Passes s read d paths snapshots w := by
  cases hlist : d.list s.inputDir with
  | error f => exact .inl ⟨_, .unlisted hlist⟩
  | ok names =>
    obtain ⟨paths, hfind, hnil⟩ := find_of_list hlist
    by_cases hne : paths = []
    · exact .inl ⟨_, .unmatched hlist (hnil.1 hne)⟩
    · rcases readAs_or_failing read d paths with
        ⟨snapshots, hread⟩ | ⟨done, p, rest, snapshots, e, rfl, hread, h⟩
      · cases hvalid : s.validate with
        | error e => exact .inl ⟨e, .invalid hfind hne hread hvalid⟩
        | ok _ =>
          by_cases hsees : s.SeesPoint snapshots
          · obtain ⟨w, hw⟩ := window_of_seesPoint hsees
            exact .inr ⟨paths, snapshots, w, hfind, hne, hread, hvalid, hw⟩
          · exact .inl ⟨_, .unframed hfind hne hread hvalid hsees⟩
      · exact .inl ⟨e, .unreadable hfind hread h⟩

/-- **What stops a run before its first frame leaves no trace.** A run that a stage stops ends with
the failure of that stage. The disk is what it was, and the log has got nothing but snapshots that
were read, whatever the renderer, the assemblers and the log before. If no stage stops it, then the
run goes on to its frames from the same disk. -/
theorem renderDirectory_stops :
    (∀ e, StopsBefore s read d e → ∃ paths : List Path, ∀ render assemblers log,
        renderDirectory s read render assemblers ⟨d, log⟩ =
          (.error e, ⟨d, log ++ paths.map .read⟩)) ∧
      ((∃ e, StopsBefore s read d e) ∨
        ∃ paths snapshots w, Passes s read d paths snapshots w ∧ ∀ render assemblers log,
          renderDirectory s read render assemblers ⟨d, log⟩ =
            renderFramed s render assemblers w (.ofSnapshots snapshots)
              ⟨d, log ++ paths.map .read⟩) := by
  refine ⟨fun e h => h.renderDirectory_eq, ?_⟩
  rcases stopsBefore_or_passes s read d with h | ⟨paths, snapshots, w, h⟩
  · exact .inl h
  · exact .inr ⟨paths, snapshots, w, h, h.renderDirectory_eq⟩

end Stages

/-- A snapshot that cannot be read comes before settings that make no sense. The frame of an earlier
run stays where it is. -/
theorem renderDirectory_stops_unreadable :
    let s : Settings Double := { Settings.default with inputDir := .ofString "in", fps := 0 }
    let file : Path := .ofString "in/snapshot_0.hdf5"
    let read : Reader Double := fun _ p => .error (.malformedData p "not a snapshot")
    let d : Disk :=
      ⟨[([], .directory), (["in".toList], .directory), (["frames".toList], .directory),
        ([frameName 0, "frames".toList], .file (.text "old") false),
        (["snapshot_0.hdf5".toList, "in".toList], .file (.text "") false)], []⟩
    let e : Failure := .malformedData file "not a snapshot"
    (StopsBefore s read d e ∧ ∃ e', s.validate = .error e') ∧
      ∃ paths : List Path, ∀ render assemblers log,
        renderDirectory s read render assemblers ⟨d, log⟩ =
          (.error e, ⟨d, log ++ paths.map .read⟩) := by
  intro s file read d e
  have hlist : d.list s.inputDir = .ok ["snapshot_0.hdf5".toList] := rfl
  have hnames : (["snapshot_0.hdf5".toList].filter fun n => d.isFile (s.inputDir.join ⟨n⟩) &&
      isSnapshotName s.nameStart s.nameExtension n) = ["snapshot_0.hdf5".toList] :=
    List.filter_cons_of_pos (by decide)
  have hfind : s.find d = .ok ([] ++ file :: []) := by
    rw [Settings.find, discover, hlist]
    simp only [snapshotNames, hnames, List.mergeSort_singleton]
    rfl
  have hstops : StopsBefore s read d e := .unreadable hfind .nil rfl
  exact ⟨⟨hstops, _, rfl⟩, (renderDirectory_stops s read d).1 e hstops⟩

end Starfilm
