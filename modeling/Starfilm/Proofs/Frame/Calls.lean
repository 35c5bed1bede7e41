import Mathlib.Data.List.Basic
import Starfilm.Frame.Files
import Starfilm.Proofs.Run.Steps

/-!
# The calls of the renderer

The renderer is called once for each frame, in the order of the frames: `frameCalls` lists what it
is given. `Rendered` says that a list of calls succeeds from one disk to another. A pass over frames
either renders all of them (`renderFrom_of_rendered`), or it ends at the first call that fails, and
none is made after that one (`renderFrom_of_failing`); there is no third way
(`rendered_or_failing`).
-/

namespace Starfilm

variable {F : Type}

/-- What a renderer is given: a request, and the file that it writes. -/
abbrev FrameCall (F : Type) := FrameRequest F × Path

/-- The log's entry for a call. -/
def FrameCall.event (c : FrameCall F) : Event F := .render c.1 c.2

/-- What is kept of a call for the index. -/
def FrameCall.record (c : FrameCall F) : FrameRecord F := ⟨c.2, c.1.frame, c.1.caption⟩

/-- All of these calls succeed, one after another. -/
inductive Rendered (render : Renderer F) : List (FrameCall F) → Disk → Disk → Prop
  | nil (d : Disk) : Rendered render [] d d
  | cons {c : FrameCall F} {cs : List (FrameCall F)} {d d₁ d₂ : Disk}
      (h : render c.1 c.2 d = (.ok (), d₁)) (hs : Rendered render cs d₁ d₂) :
      Rendered render (c :: cs) d d₂

/-- Calls either all succeed, or one is the first to fail. -/
theorem rendered_or_failing (render : Renderer F) (cs : List (FrameCall F)) (d : Disk) :
    (∃ d₁, Rendered render cs d d₁) ∨
      ∃ done c rest e d₁ d₂, cs = done ++ c :: rest ∧ Rendered render done d d₁ ∧
        render c.1 c.2 d₁ = (.error e, d₂) := by
  induction cs generalizing d with
  | nil => exact .inl ⟨d, .nil d⟩
  | cons c cs ih =>
    rcases hc : render c.1 c.2 d with ⟨e | ⟨⟩, d₁⟩
    · exact .inr ⟨[], c, cs, e, d, d₁, rfl, .nil d, hc⟩
    · rcases ih d₁ with ⟨d₂, hs⟩ | ⟨done, c', rest, e, d₂, d₃, rfl, hs, he⟩
      · exact .inl ⟨d₂, .cons hc hs⟩
      · exact .inr ⟨c :: done, c', rest, e, d₂, d₃, rfl, .cons hc hs, he⟩

section Frames

variable [DecimalText F] (mode : ViewMode F) (w : Window F) (dir : Path)

/-- What the renderer is given for frames, the first of which is frame `i`. -/
def frameCalls : ℕ → List (Frame F) → List (FrameCall F)
  | _, [] => []
  | i, f :: fs => (frameRequest mode w i f, framePath dir i) :: frameCalls (i + 1) fs

@[simp] theorem frameCalls_nil (i : ℕ) : frameCalls mode w dir i [] = [] := rfl

@[simp] theorem frameCalls_cons (i : ℕ) (f : Frame F) (fs : List (Frame F)) :
    frameCalls mode w dir i (f :: fs) =
      (frameRequest mode w i f, framePath dir i) :: frameCalls mode w dir (i + 1) fs :=
  rfl

@[simp] theorem length_frameCalls (i : ℕ) (fs : List (Frame F)) :
    (frameCalls mode w dir i fs).length = fs.length := by
  induction fs generalizing i with
  | nil => rfl
  | cons f fs ih => simp [ih]

/-- The calls go through the frames by their numbers. -/
theorem getElem?_frameCalls (i k : ℕ) (fs : List (Frame F)) :
    (frameCalls mode w dir i fs)[k]? =
      fs[k]?.map fun f => (frameRequest mode w (i + k) f, framePath dir (i + k)) := by
  induction fs generalizing i k with
  | nil => rfl
  | cons f fs ih =>
    cases k with
    | zero => rfl
    | succ k =>
      rw [frameCalls_cons, List.getElem?_cons_succ, List.getElem?_cons_succ, ih,
        Nat.add_right_comm, Nat.add_assoc]

variable {mode w dir} {render : Renderer F} (log : List (Event F))

theorem renderFrom_of_rendered {fs : List (Frame F)} {i : ℕ} {d d' : Disk}
    (h : Rendered render (frameCalls mode w dir i fs) d d') :
    renderFrom render mode w dir i fs ⟨d, log⟩ =
      (.ok ((frameCalls mode w dir i fs).map FrameCall.record),
        ⟨d', log ++ (frameCalls mode w dir i fs).map FrameCall.event⟩) := by
  induction fs generalizing i d log with
  | nil =>
    cases h
    simp only [renderFrom, frameCalls_nil, List.map_nil, List.append_nil]
    rfl
  | cons f fs ih =>
    cases h with
    | cons hc hs =>
      rw [renderFrom, bind_of_ok (Run.record_apply _ _ _), bind_of_ok (Run.onDisk_apply _ hc),
        bind_of_ok (ih _ hs), frameCalls_cons, List.map_cons, List.map_cons, List.append_assoc]
      rfl

theorem renderFrom_of_failing {fs : List (Frame F)} {i : ℕ} {d d₁ d₂ : Disk}
    {done rest : List (FrameCall F)} {c : FrameCall F} {e : Failure}
    (hcalls : frameCalls mode w dir i fs = done ++ c :: rest) (h : Rendered render done d d₁)
    (hc : render c.1 c.2 d₁ = (.error e, d₂)) :
    renderFrom render mode w dir i fs ⟨d, log⟩ =
      (.error e, ⟨d₂, log ++ (done ++ [c]).map FrameCall.event⟩) := by
  induction fs generalizing i d log done with
  | nil => simp at hcalls
  | cons f fs ih =>
    rw [frameCalls_cons] at hcalls
    cases h with
    | nil =>
      obtain ⟨rfl, -⟩ := List.cons_eq_cons.1 hcalls
      rw [renderFrom, bind_of_ok (Run.record_apply _ _ _), bind_of_error (Run.onDisk_apply _ hc)]
      rfl
    | cons hc' hs =>
      obtain ⟨rfl, hrest⟩ := List.cons_eq_cons.1 hcalls
      rw [renderFrom, bind_of_ok (Run.record_apply _ _ _), bind_of_ok (Run.onDisk_apply _ hc'),
        bind_of_error (ih _ hrest hs), List.append_assoc]
      rfl

end Frames

/-! ## The index -/

section Index

variable [DecimalText F] {path : Path} {records : List (FrameRecord F)} {d d' : Disk}

theorem writeIndex_of_ok (h : d.write path (.text (FrameIndex.text records)) = .ok d') :
    writeIndex path records d = (.ok (), d') :=
  OnDisk.change_of_ok h

theorem writeIndex_of_error {f : Disk.Fault}
    (h : d.write path (.text (FrameIndex.text records)) = .error f) :
    writeIndex path records d = (.error (.disk path f.message), d) :=
  OnDisk.change_of_error h

end Index

/-! ## The whole pass -/

section Pass

variable [DecimalText F] {render : Renderer F} {mode : ViewMode F} {w : Window F} {dir : Path}
  {d d₀ : Disk}

theorem renderFrames_of_prepared (hd : prepareFrames dir d = (.ok (), d₀)) (log : List (Event F))
    (frames : List (Frame F)) :
    renderFrames render mode dir w frames ⟨d, log⟩ =
      (renderFrom render mode w dir 0 frames >>= fun records => do
        Run.record (.index (indexPath dir))
        Run.onDisk (writeIndex (indexPath dir) records)
        return records.map (·.file)) ⟨d₀, log⟩ :=
  bind_of_ok (Run.onDisk_apply log hd)

/-- A pass ends well exactly when the directory can be prepared, all calls of the renderer succeed,
and then the index can be written. -/
theorem renderFrames_eq_ok_iff {frames : List (Frame F)} {log : List (Event F)}
    {paths : List Path} {s : RunState F} :
    renderFrames render mode dir w frames ⟨d, log⟩ = (.ok paths, s) ↔
      let calls := frameCalls mode w dir 0 frames
      ∃ d₀ d₁ d₂, prepareFrames dir d = (.ok (), d₀) ∧ Rendered render calls d₀ d₁ ∧
        d₁.write (indexPath dir) (.text (FrameIndex.text (calls.map FrameCall.record))) = .ok d₂ ∧
        paths = calls.map Prod.snd ∧
        s = ⟨d₂, log ++ calls.map FrameCall.event ++ [.index (indexPath dir)]⟩ := by
  constructor
  · intro h
    rcases hd : prepareFrames dir d with ⟨e | ⟨⟩, d₀⟩
    · have hfail : renderFrames render mode dir w frames ⟨d, log⟩ = (.error e, ⟨d₀, log⟩) :=
        bind_of_error (Run.onDisk_apply log hd)
      cases hfail.symm.trans h
    · rw [renderFrames_of_prepared hd] at h
      rcases rendered_or_failing render (frameCalls mode w dir 0 frames) d₀ with
        ⟨d₁, hs⟩ | ⟨done, c, rest, e, d₁, d₂, hcalls, hdone, hc⟩
      · rw [bind_of_ok (renderFrom_of_rendered log hs), bind_of_ok (Run.record_apply _ _ _)] at h
        cases hwrite : d₁.write (indexPath dir) (.text (FrameIndex.text
            ((frameCalls mode w dir 0 frames).map FrameCall.record))) with
        | error f =>
          rw [bind_of_error (Run.onDisk_apply _ (writeIndex_of_error hwrite))] at h
          cases h
        | ok d₂ =>
          rw [bind_of_ok (Run.onDisk_apply _ (writeIndex_of_ok hwrite))] at h
          cases h
          exact ⟨d₀, d₁, d₂, rfl, hs, hwrite, List.map_map, rfl⟩
      · rw [bind_of_error (renderFrom_of_failing log hcalls hdone hc)] at h
        cases h
  · rintro ⟨d₀, d₁, d₂, hd, hs, hwrite, rfl, rfl⟩
    rw [renderFrames_of_prepared hd, bind_of_ok (renderFrom_of_rendered log hs),
      bind_of_ok (Run.record_apply _ _ _),
      bind_of_ok (Run.onDisk_apply _ (writeIndex_of_ok hwrite)), List.map_map]
    rfl

end Pass

end Starfilm
