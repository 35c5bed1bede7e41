import Mathlib.Algebra.Order.Field.Rat
import Mathlib.Data.List.Sort
import Mathlib.Data.Rat.Floor
import Mathlib.Tactic.NormNum
import Starfilm.Proofs.Film.Fallback
import Starfilm.Proofs.Frame.Calls
import Starfilm.Proofs.Window.Seen
import Starfilm.Proofs.Window.Settings

/-!
# What a rendering run does, in order

Once the window is known and the directory of the frames is ready, a run calls the renderer for one
frame after another, writes the index, and asks the assemblers. The log has these events in this
order, and `Traced` tells how far it comes: to the first call that fails, to the index, or through
the assemblers up to the one that decides (`Decided`), if they do not all decline (`Declined`).

**Main statement**: `renderSequence_traced`. The calls go through the snapshots by rising time, with
one window for all of them, and the run that makes them is `Traced`.
-/

namespace Starfilm

variable {F : Type}

section Trace

variable [Arith F] [Elementary F] [DecimalText F] (s : Settings F) (render : Renderer F)
  (assemblers : List Assembler) (w : Window F) (q : Sequence F)

/-- The calls of a run: the snapshots of its sequence, seen through its transform. -/
def Settings.calls : List (FrameCall F) := frameCalls s.mode w s.framesDir 0 (s.frames q)

/-- What remains to be done once the window is known. -/
def renderFramed : Run F (Summary F) := do
  let paths ← renderFrames render s.mode s.framesDir w (s.frames q)
  let assembly ← assembleWithFallback paths s.saveFile s.fps.toNat assemblers
  return ⟨w, paths, indexPath s.framesDir, assembly⟩

variable {s w q} in
theorem renderSequence_of_framed (hs : s.validate = .ok ()) (hw : s.window (s.frames q) = .ok w)
    (state : RunState F) :
    renderSequence s render assemblers q state = renderFramed s render assemblers w q state := by
  rw [renderSequence, bind_of_ok (lift_apply hs state)]
  exact bind_of_ok (lift_apply hw state)

/-- The calls all succeed, and then the index of their frames is written. -/
def Indexed (calls : List (FrameCall F)) (d d' : Disk) : Prop :=
  ∃ d₁, Rendered render calls d d₁ ∧
    d₁.write (indexPath s.framesDir) (.text (FrameIndex.text (calls.map FrameCall.record))) = .ok d'

/-- How far a run comes with the calls of its renderer, from the disk on which the directory of the
frames is ready and from the log at that time. -/
structure Traced (calls : List (FrameCall F)) (d : Disk) (log : List (Event F))
    (outcome : Except Failure (Summary F) × RunState F) : Prop where
  /-- The first call that fails is the last one: no index is written and no assembler asked. -/
  failing (k : ℕ) (hk : k < calls.length) (d₁ d₂ : Disk) (e : Failure) :
    Rendered render (calls.take k) d d₁ → render calls[k].1 calls[k].2 d₁ = (.error e, d₂) →
      outcome = (.error e, ⟨d₂, log ++ (calls.take (k + 1)).map FrameCall.event⟩)
  /-- Without an index no assembler is asked. -/
  unindexed (d₁ : Disk) (f : Disk.Fault) : Rendered render calls d d₁ →
    d₁.write (indexPath s.framesDir) (.text (FrameIndex.text (calls.map FrameCall.record))) =
        .error f →
      outcome = (.error (.disk (indexPath s.framesDir) f.message),
        ⟨d₁, log ++ calls.map FrameCall.event ++ [.index (indexPath s.framesDir)]⟩)
  /-- After the index, the assemblers are asked for a film of the files of the calls, up to the one
  that decides. Its film is that of the summary, or its failure that of the run. -/
  decided (d₁ d₂ : Disk) (before : List Assembler) (a : Assembler) (r : Except Failure Path) :
    let paths := calls.map Prod.snd
    let indexed := log ++ calls.map FrameCall.event ++ [.index (indexPath s.framesDir)]
    Indexed s render calls d d₁ →
      Decided paths s.saveFile s.fps.toNat assemblers d₁ before a r d₂ →
        outcome = (r.map fun film => ⟨w, paths, indexPath s.framesDir, .encoded a.name film⟩,
          ⟨d₂, indexed ++ (before ++ [a]).map (Assembler.event paths s.saveFile s.fps.toNat)⟩)
  /-- When they all decline, all of them are asked and the frames are kept. -/
  declined (d₁ d₂ : Disk) :
    let paths := calls.map Prod.snd
    let indexed := log ++ calls.map FrameCall.event ++ [.index (indexPath s.framesDir)]
    Indexed s render calls d d₁ → Declined paths s.saveFile s.fps.toNat assemblers d₁ d₂ →
      outcome = (.ok ⟨w, paths, indexPath s.framesDir, .imageSequence paths.length⟩,
        ⟨d₂, indexed ++ assemblers.map (Assembler.event paths s.saveFile s.fps.toNat)⟩)

section Prepared

variable {d d₀ : Disk} (hd : prepareFrames s.framesDir d = (.ok (), d₀)) (log : List (Event F))

include hd

theorem renderFramed_of_indexed {d₁ : Disk} (h : Indexed s render (s.calls w q) d₀ d₁) :
    let paths := (s.calls w q).map Prod.snd
    renderFramed s render assemblers w q ⟨d, log⟩ =
      (assembleWithFallback paths s.saveFile s.fps.toNat assemblers >>= fun assembly =>
        return ⟨w, paths, indexPath s.framesDir, assembly⟩)
        ⟨d₁, log ++ (s.calls w q).map FrameCall.event ++ [.index (indexPath s.framesDir)]⟩ := by
  obtain ⟨d', hdone, hwrite⟩ := h
  exact bind_of_ok (renderFrames_eq_ok_iff.2 ⟨d₀, d', d₁, hd, hdone, hwrite, rfl, rfl⟩)

theorem renderFramed_traced :
    Traced s render assemblers w (s.calls w q) d₀ log
      (renderFramed s render assemblers w q ⟨d, log⟩) where
  failing k hk d₁ d₂ e hdone hcall := by
    have hsplit : s.calls w q =
        (s.calls w q).take k ++ (s.calls w q)[k] :: (s.calls w q).drop (k + 1) := by
      rw [← List.drop_eq_getElem_cons hk, List.take_append_drop]
    have hfail := renderFrom_of_failing log hsplit hdone hcall
    rw [List.take_append_getElem hk] at hfail
    refine bind_of_error ?_
    rw [renderFrames_of_prepared hd log]
    exact bind_of_error hfail
  unindexed d₁ f hdone hwrite := by
    refine bind_of_error ?_
    rw [renderFrames_of_prepared hd log, bind_of_ok (renderFrom_of_rendered log hdone),
      bind_of_ok (Run.record_apply _ _ _)]
    exact bind_of_error (Run.onDisk_apply _ (writeIndex_of_error hwrite))
  decided d₁ d₂ before a r hdone h := by
    rw [renderFramed_of_indexed s render assemblers w q hd log hdone]
    have hasked := h.assembleWithFallback_eq (F := F)
      (log ++ (s.calls w q).map FrameCall.event ++ [.index (indexPath s.framesDir)])
    cases r with
    | ok film => exact bind_of_ok hasked
    | error e => exact bind_of_error hasked
  declined d₁ d₂ hdone h := by
    rw [renderFramed_of_indexed s render assemblers w q hd log hdone]
    exact bind_of_ok (h.assembleWithFallback_eq _)

end Prepared

omit [DecimalText F] [Elementary F] in
/-- A sequence has the snapshots that it is made of, by rising time. -/
theorem Sequence.ofSnapshots_spec [PlaceOrder F] (snapshots : List (Snapshot F)) :
    (Sequence.ofSnapshots snapshots).snapshots.Perm snapshots ∧
      (Sequence.ofSnapshots snapshots).snapshots.Pairwise fun a b =>
        Arith.totalLe a.time b.time = true := by
  refine ⟨List.mergeSort_perm _ _, List.pairwise_mergeSort ?_ ?_ _⟩
  · intro a b c hab hbc
    exact PlaceOrder.trans a.time b.time c.time hab hbc
  · intro a b
    exact PlaceOrder.total a.time b.time

/-- **The trace of a rendering run.** A sequence has its snapshots by rising time, and call `i` of
the renderer is given frame `i`: the snapshot in that place seen through the view, with the one
window of the run, the caption of that frame, and the file `frame_i.png`. The calls all succeed, or
one of them is the first to fail. Asked for a film of the files of the calls, the assemblers all
decline, or one of them decides. The run is `Traced` by the calls and the assemblers. -/
theorem renderSequence_traced [PlaceOrder F] (snapshots : List (Snapshot F)) {d d₀ : Disk}
    (hs : s.validate = .ok ()) (hw : s.window (s.frames (.ofSnapshots snapshots)) = .ok w)
    (hd : prepareFrames s.framesDir d = (.ok (), d₀)) (log : List (Event F)) :
    let q := Sequence.ofSnapshots snapshots
    let calls := s.calls w q
    (q.snapshots.Perm snapshots ∧
        q.snapshots.Pairwise fun a b => Arith.totalLe a.time b.time = true) ∧
      (calls.length = snapshots.length ∧
        ∀ (i : ℕ) (t : Snapshot F), q.snapshots[i]? = some t →
          let frame := Frame.ofSnapshot s.mode.transform t
          calls[i]? = some (⟨i, frame, w, .ofFrame s.mode frame⟩, s.framesDir.join ⟨frameName i⟩)) ∧
      ((∃ d₁, Rendered render calls d₀ d₁) ∨
        ∃ (k : ℕ) (hk : k < calls.length) (d₁ d₂ : Disk) (e : Failure),
          Rendered render (calls.take k) d₀ d₁ ∧
            render calls[k].1 calls[k].2 d₁ = (.error e, d₂)) ∧
      (∀ d₁, let paths := calls.map Prod.snd
        (∃ d₂, Declined paths s.saveFile s.fps.toNat assemblers d₁ d₂) ∨
          ∃ before a r d₂, Decided paths s.saveFile s.fps.toNat assemblers d₁ before a r d₂) ∧
      Traced s render assemblers w calls d₀ log
        (renderSequence s render assemblers q ⟨d, log⟩) := by
  intro q calls
  obtain ⟨hperm, hsorted⟩ := Sequence.ofSnapshots_spec snapshots
  refine ⟨⟨hperm, hsorted⟩, ⟨?_, ?_⟩, ?_, declined_or_decided assemblers, ?_⟩
  · rw [← hperm.length_eq, ← List.length_map (f := Frame.ofSnapshot s.mode.transform)]
    exact length_frameCalls s.mode w s.framesDir 0 (s.frames q)
  · intro i t ht frame
    change (frameCalls s.mode w s.framesDir 0 (s.frames q))[i]? = _
    rw [getElem?_frameCalls, Settings.frames, List.getElem?_map, ht, Nat.zero_add]
    rfl
  · rcases rendered_or_failing render calls d₀ with
      h | ⟨done, c, rest, e, d₁, d₂, hcalls, hdone, hc⟩
    · exact .inl h
    · have hk : done.length < calls.length := by
        rw [hcalls, List.length_append, List.length_cons]
        omega
      refine .inr ⟨done.length, hk, d₁, d₂, e, ?_, ?_⟩
      · rw [hcalls, List.take_left]
        exact hdone
      · have hget : calls[done.length] = c := by
          simp only [hcalls, List.getElem_append_right, le_refl, Nat.sub_self,
            List.getElem_cons_zero]
        rw [hget, hc]
  · rw [renderSequence_of_framed render assemblers hs hw]
    exact renderFramed_traced s render assemblers w q hd log

end Trace

open Exact in
/-- Two frames, the later of which is given first. When both are drawn, the first assembler declines
and the second makes the film; when the second of them fails, no assembler is asked. -/
theorem renderSequence_traced_filmed :
    let _text : DecimalText (Exact ℚ) := ⟨fun _ => "", fun _ _ => ""⟩
    let _elementary : Elementary (Exact ℚ) := ⟨id, id, id, id, id, nan⟩
    let s : Settings (Exact ℚ) := .default
    let taken (time : ℚ) : Snapshot (Exact ℚ) :=
      ⟨none, finite time, [⟨finite time, finite 0, finite 0⟩], [], .empty⟩
    let q := Sequence.ofSnapshots [taken 2, taken 1]
    let e : Failure := .picture (framePath s.framesDir 1) "no space"
    let drawing : Renderer (Exact ℚ) := fun _ _ d => (.ok (), d)
    let failing : Renderer (Exact ℚ) := fun request _ d =>
      (if request.index = 1 then .error e else .ok (), d)
    let declining : Assembler := ⟨"ffmpeg", fun _ _ _ d => (.error (.encoding "ffmpeg" "none"), d)⟩
    let filming : Assembler := ⟨"gif", fun _ output _ d => (.ok output, d)⟩
    let assemblers := [declining, filming, declining]
    let d : Disk := ⟨[([], .directory), (["frames".toList], .directory)], []⟩
    ∃ w, (s.validate = .ok () ∧ s.window (s.frames q) = .ok w ∧
        prepareFrames s.framesDir d = (.ok (), d)) ∧
      let call (i : ℕ) (time : ℚ) : FrameCall (Exact ℚ) :=
        (frameRequest s.mode w i (.ofSnapshot s.mode.transform (taken time)),
          framePath s.framesDir i)
      let paths := [framePath s.framesDir 0, framePath s.framesDir 1]
      let index := indexPath s.framesDir
      (∃ d', renderSequence s drawing assemblers q ⟨d, []⟩ =
          (.ok ⟨w, paths, index, .encoded "gif" s.saveFile⟩,
            ⟨d', [(call 0 1).event, (call 1 2).event, .index index,
              .assemble "ffmpeg" paths s.saveFile s.fps.toNat,
              .assemble "gif" paths s.saveFile s.fps.toNat]⟩)) ∧
        renderSequence s failing assemblers q ⟨d, []⟩ =
          (.error e, ⟨d, [(call 0 1).event, (call 1 2).event]⟩) := by
  intro _text _elementary s taken q e drawing failing declining filming assemblers d
  have hs : s.validate = .ok () := by
    refine (Framing.validate_eq_ok_iff s.framing).2 ?_
    rw [Framing.isPercentage_iff, Framing.isPercentage_iff]
    norm_num [s, Settings.default, Framing.default]
  obtain ⟨w, hw⟩ : ∃ w, s.window (s.frames q) = .ok w :=
    window_of_seesPoint ⟨taken 2, by simp, .disk, _, List.mem_singleton_self _, rfl⟩
  have hd : prepareFrames s.framesDir d = (.ok (), d) := rfl
  have hq : q = ⟨[taken 1, taken 2]⟩ := by
    simp [q, Sequence.ofSnapshots, List.mergeSort, Sequence.inOrder, taken,
      List.MergeSort.Internal.splitInTwo]
  refine ⟨w, ⟨hs, hw, hd⟩, ?_⟩
  intro call paths index
  have hcalls : s.calls w q = [call 0 1, call 1 2] := by
    rw [hq]
    rfl
  constructor
  · obtain ⟨-, -, -, -, htraced⟩ :=
      renderSequence_traced s drawing assemblers w [taken 2, taken 1] hs hw hd []
    rw [hcalls] at htraced
    obtain ⟨d', hd'⟩ : ∃ d', Indexed s drawing [call 0 1, call 1 2] d d' :=
      ⟨_, d, .cons rfl (.cons rfl (.nil d)), rfl⟩
    have hdecided : Decided paths s.saveFile s.fps.toNat assemblers d' [declining] filming
        (.ok s.saveFile) d' :=
      ⟨⟨[declining], rfl⟩, ⟨d', .cons rfl ⟨_, _, rfl⟩ (.nil d'), rfl⟩, fun e h => by cases h⟩
    exact ⟨d', htraced.decided d' d' _ _ _ hd' hdecided⟩
  · obtain ⟨-, -, -, -, htraced⟩ :=
      renderSequence_traced s failing assemblers w [taken 2, taken 1] hs hw hd []
    rw [hcalls] at htraced
    have hfirst : Rendered failing ([call 0 1, call 1 2].take 1) d d := .cons rfl (.nil d)
    exact htraced.failing 1 Nat.one_lt_two d d e hfirst rfl

end Starfilm
