import Mathlib.Data.List.Basic
import Starfilm.Film
import Starfilm.Proofs.Run.Steps

/-!
# One assembler after another

Assemblers are asked in turn for the same film. As long as they fail over their encoding
(`Declined`), the next one is asked; the first that does not is the one that decides (`Decided`),
and no assembler after it is asked. There may be none such, and then the frames stay what they are.

An assembler may change the disk even when it fails, and so what the next one comes to. The run is
told with the disks in between, and leaving out an assembler that declines is harmless when those
after it come to the same outcomes without it (`Unaffected`). They do if it left the disk alone
(`Unaffected.refl`), and if no outcome depends on the disk (`unaffected_of_settled`).

**Main statement**: `assembleWithFallback_decided`.
-/

namespace Starfilm

/-- A failure over an encoding. -/
def Failure.IsEncoding (e : Failure) : Prop := ∃ encoder reason, e = .encoding encoder reason

theorem Failure.isRecoverable_iff (e : Failure) : e.isRecoverable = true ↔ e.IsEncoding := by
  cases e <;> simp [isRecoverable, IsEncoding]

variable {F : Type}

/-- The log's entry for an assembler that is asked. -/
def Assembler.event (frames : List Path) (output : Path) (fps : ℕ) (a : Assembler) : Event F :=
  .assemble a.name frames output fps

/-! ## Outcomes -/

section Outcomes

variable (frames : List Path) (output : Path) (fps : ℕ)

/-- All of these assemblers fail over their encoding, one after another. -/
inductive Declined : List Assembler → Disk → Disk → Prop
  | nil (d : Disk) : Declined [] d d
  | cons {a : Assembler} {as : List Assembler} {d d₁ d₂ : Disk} {e : Failure}
      (h : a.assemble frames output fps d = (.error e, d₁)) (he : e.IsEncoding)
      (hs : Declined as d₁ d₂) : Declined (a :: as) d d₂

/-- Of some assemblers, all in `before` decline, and `a` is the next one. Its outcome `r` is no
failure over an encoding, and it leaves the disk `d'`. -/
structure Decided (assemblers : List Assembler) (d : Disk) (before : List Assembler) (a : Assembler)
    (r : Except Failure Path) (d' : Disk) : Prop where
  splits : ∃ after, assemblers = before ++ a :: after
  asked : ∃ d₁, Declined frames output fps before d d₁ ∧ a.assemble frames output fps d₁ = (r, d')
  not_isEncoding : ∀ e, r = .error e → ¬e.IsEncoding

/-- Assemblers come to the same outcomes from one disk and from another. -/
def Unaffected : List Assembler → Disk → Disk → Prop
  | [], _, _ => True
  | a :: as, d, d' =>
    (a.assemble frames output fps d).1 = (a.assemble frames output fps d').1 ∧
      Unaffected as (a.assemble frames output fps d).2 (a.assemble frames output fps d').2

variable {frames output fps} {assemblers before after : List Assembler} {a : Assembler}
  {r : Except Failure Path} {d d' : Disk}

theorem Unaffected.refl (as : List Assembler) (d : Disk) :
    Unaffected frames output fps as d d := by
  induction as generalizing d with
  | nil => trivial
  | cons a as ih => exact ⟨rfl, ih _⟩

/-- Outcomes that no disk changes are the same from everywhere. -/
theorem unaffected_of_settled {as : List Assembler}
    (h : ∀ a ∈ as, ∃ r, ∀ d, (a.assemble frames output fps d).1 = r) (d d' : Disk) :
    Unaffected frames output fps as d d' := by
  induction as generalizing d d' with
  | nil => trivial
  | cons a as ih =>
    obtain ⟨r, hr⟩ := h a List.mem_cons_self
    exact ⟨(hr d).trans (hr d').symm, ih (fun b hb => h b (List.mem_cons_of_mem a hb)) _ _⟩

/-- Assemblers all decline, or one of them decides. -/
theorem declined_or_decided (assemblers : List Assembler) (d : Disk) :
    (∃ d', Declined frames output fps assemblers d d') ∨
      ∃ before a r d', Decided frames output fps assemblers d before a r d' := by
  induction assemblers generalizing d with
  | nil => exact .inl ⟨d, .nil d⟩
  | cons a as ih =>
    rcases ha : a.assemble frames output fps d with ⟨r, d₁⟩
    by_cases hr : ∃ e, r = .error e ∧ e.IsEncoding
    · obtain ⟨e, rfl, he⟩ := hr
      rcases ih d₁ with ⟨d', h⟩ | ⟨before, b, r, d', ⟨after, rfl⟩, ⟨d₂, hbefore, hb⟩, hr⟩
      · exact .inl ⟨d', .cons ha he h⟩
      · exact .inr ⟨a :: before, b, r, d', ⟨after, rfl⟩, ⟨d₂, .cons ha he hbefore, hb⟩, hr⟩
    · refine .inr ⟨[], a, r, d₁, ⟨as, rfl⟩, ⟨d, .nil d, ha⟩, fun e he hencoding => ?_⟩
      exact hr ⟨e, he, hencoding⟩

/-- Who decides does not depend on the assemblers behind. -/
theorem Decided.append (h : Decided frames output fps assemblers d before a r d')
    (more : List Assembler) : Decided frames output fps (assemblers ++ more) d before a r d' := by
  obtain ⟨after, rfl⟩ := h.splits
  exact ⟨⟨after ++ more, by rw [List.append_assoc]; rfl⟩, h.asked, h.not_isEncoding⟩

end Outcomes

/-! ## Asking -/

section Asking

variable {frames : List Path} {output : Path} {fps : ℕ} {a : Assembler} {d d' : Disk}

section Step

variable (rest : List Assembler) (log : List (Event F))

theorem assembleWithFallback_of_ok {path : Path}
    (h : a.assemble frames output fps d = (.ok path, d')) :
    assembleWithFallback frames output fps (a :: rest) ⟨d, log⟩ =
      (.ok (.encoded a.name path), ⟨d', log ++ [a.event frames output fps]⟩) := by
  have hattempt := Run.attempt_apply (Run.onDisk_apply (log ++ [a.event frames output fps]) h)
  rw [assembleWithFallback, bind_of_ok (Run.record_apply _ _ _)]
  exact bind_of_ok hattempt

theorem assembleWithFallback_of_isEncoding {e : Failure}
    (h : a.assemble frames output fps d = (.error e, d')) (he : e.IsEncoding) :
    assembleWithFallback frames output fps (a :: rest) ⟨d, log⟩ =
      assembleWithFallback frames output fps rest ⟨d', log ++ [a.event frames output fps]⟩ := by
  have hattempt := Run.attempt_apply (Run.onDisk_apply (log ++ [a.event frames output fps]) h)
  rw [assembleWithFallback, bind_of_ok (Run.record_apply _ _ _)]
  refine (bind_of_ok hattempt).trans ?_
  simp only [(Failure.isRecoverable_iff e).2 he, if_true]

theorem assembleWithFallback_of_not_isEncoding {e : Failure}
    (h : a.assemble frames output fps d = (.error e, d')) (he : ¬e.IsEncoding) :
    assembleWithFallback frames output fps (a :: rest) ⟨d, log⟩ =
      (.error e, ⟨d', log ++ [a.event frames output fps]⟩) := by
  have hattempt := Run.attempt_apply (Run.onDisk_apply (log ++ [a.event frames output fps]) h)
  rw [assembleWithFallback, bind_of_ok (Run.record_apply _ _ _)]
  refine (bind_of_ok hattempt).trans ?_
  simp only [mt (Failure.isRecoverable_iff e).1 he]
  rfl

end Step

variable {assemblers before : List Assembler} {r : Except Failure Path}

/-- Assemblers that decline leave a disk and their entries in the log; the rest is asked next. -/
theorem Declined.assembleWithFallback_append (h : Declined frames output fps before d d')
    (rest : List Assembler) (log : List (Event F)) :
    assembleWithFallback frames output fps (before ++ rest) ⟨d, log⟩ =
      assembleWithFallback frames output fps rest
        ⟨d', log ++ before.map (Assembler.event frames output fps)⟩ := by
  induction h generalizing log with
  | nil d => rw [List.map_nil, List.append_nil, List.nil_append]
  | cons ha he hs ih =>
    rw [List.cons_append, assembleWithFallback_of_isEncoding _ log ha he, ih, List.append_assoc]
    rfl

theorem Declined.assembleWithFallback_eq (h : Declined frames output fps assemblers d d')
    (log : List (Event F)) :
    assembleWithFallback frames output fps assemblers ⟨d, log⟩ =
      (.ok (.imageSequence frames.length),
        ⟨d', log ++ assemblers.map (Assembler.event frames output fps)⟩) := by
  have hrun := h.assembleWithFallback_append [] log
  rw [List.append_nil] at hrun
  exact hrun

theorem Decided.assembleWithFallback_eq
    (h : Decided frames output fps assemblers d before a r d') (log : List (Event F)) :
    assembleWithFallback frames output fps assemblers ⟨d, log⟩ = (r.map (.encoded a.name),
      ⟨d', log ++ (before ++ [a]).map (Assembler.event frames output fps)⟩) := by
  obtain ⟨after, rfl⟩ := h.splits
  obtain ⟨d₁, hbefore, ha⟩ := h.asked
  rw [hbefore.assembleWithFallback_append, List.map_append, ← List.append_assoc]
  cases r with
  | ok path => exact assembleWithFallback_of_ok after _ ha
  | error e => exact assembleWithFallback_of_not_isEncoding after _ ha (h.not_isEncoding e rfl)

/-- Only outcomes count for the result. -/
theorem Unaffected.assembleWithFallback_fst (h : Unaffected frames output fps assemblers d d')
    (log log' : List (Event F)) :
    (assembleWithFallback frames output fps assemblers ⟨d, log⟩).1 =
      (assembleWithFallback frames output fps assemblers ⟨d', log'⟩).1 := by
  induction assemblers generalizing d d' log log' with
  | nil => rfl
  | cons a as ih =>
    obtain ⟨hsame, hrest⟩ := h
    rcases ha : a.assemble frames output fps d with ⟨r, d₁⟩
    rcases ha' : a.assemble frames output fps d' with ⟨r', d₁'⟩
    rw [ha, ha'] at hsame hrest
    obtain rfl : r = r' := hsame
    cases r with
    | ok path => rw [assembleWithFallback_of_ok as log ha, assembleWithFallback_of_ok as log' ha']
    | error e =>
      by_cases he : e.IsEncoding
      · rw [assembleWithFallback_of_isEncoding as log ha he,
          assembleWithFallback_of_isEncoding as log' ha' he]
        exact ih hrest _ _
      · rw [assembleWithFallback_of_not_isEncoding as log ha he,
          assembleWithFallback_of_not_isEncoding as log' ha' he]

/-- **An assembler that declines can be left out**, if those after it come to the same outcomes
without it. -/
theorem assembleWithFallback_fst_of_declining {after : List Assembler}
    (h : ∀ d₁, Declined frames output fps before d d₁ → ∃ e d₂,
      a.assemble frames output fps d₁ = (.error e, d₂) ∧ e.IsEncoding ∧
        Unaffected frames output fps after d₁ d₂) (log : List (Event F)) :
    (assembleWithFallback frames output fps (before ++ after) ⟨d, log⟩).1 =
      (assembleWithFallback frames output fps (before ++ a :: after) ⟨d, log⟩).1 := by
  rcases declined_or_decided before d with
    ⟨d₁, hbefore⟩ | ⟨asked, b, r, d', hdecided⟩
  · obtain ⟨e, d₂, ha, he, hafter⟩ := h d₁ hbefore
    rw [hbefore.assembleWithFallback_append, hbefore.assembleWithFallback_append,
      assembleWithFallback_of_isEncoding after _ ha he]
    exact hafter.assembleWithFallback_fst _ _
  · rw [(hdecided.append _).assembleWithFallback_eq, (hdecided.append _).assembleWithFallback_eq]

/-- A film fails exactly when an assembler decides so, and with its failure. -/
theorem assembleWithFallback_fst_eq_error_iff (assemblers : List Assembler) (d : Disk)
    (log : List (Event F)) (e : Failure) :
    (assembleWithFallback frames output fps assemblers ⟨d, log⟩).1 = .error e ↔
      ∃ before a d', Decided frames output fps assemblers d before a (.error e) d' := by
  constructor
  · intro hrun
    rcases declined_or_decided assemblers d with ⟨d', h⟩ | ⟨before, a, r, d', h⟩
    · rw [h.assembleWithFallback_eq log] at hrun
      cases hrun
    · rw [h.assembleWithFallback_eq log] at hrun
      cases r with
      | ok path => cases hrun
      | error e' =>
        cases hrun
        exact ⟨before, a, d', h⟩
  · rintro ⟨before, a, d', h⟩
    rw [h.assembleWithFallback_eq log]
    rfl

/-- **How a film is assembled.** Of any assemblers, all decline or one decides. They are asked one
after another and once, each for the same film, up to the one that decides: its film, under its
name, or its failure is what comes out. When all decline, the frames are kept. So there is a failure
exactly when an assembler fails otherwise than over its encoding and all before it decline; and an
assembler that would decline can be left out, if those after it come to the same outcomes without
it. -/
theorem assembleWithFallback_decided (frames : List Path) (output : Path) (fps : ℕ)
    (assemblers : List Assembler) (d : Disk) (log : List (Event F)) :
    let run (as : List Assembler) := assembleWithFallback frames output fps as ⟨d, log⟩
    let asking (as : List Assembler) := log ++ as.map (Assembler.event frames output fps)
    ((∃ d', Declined frames output fps assemblers d d') ∨
        ∃ before a r d', Decided frames output fps assemblers d before a r d') ∧
      (∀ before a r d', Decided frames output fps assemblers d before a r d' →
        run assemblers = (r.map (.encoded a.name), ⟨d', asking (before ++ [a])⟩)) ∧
      (∀ d', Declined frames output fps assemblers d d' →
        run assemblers = (.ok (.imageSequence frames.length), ⟨d', asking assemblers⟩)) ∧
      (∀ e, (run assemblers).1 = .error e ↔
        ∃ before a d', Decided frames output fps assemblers d before a (.error e) d') ∧
      ∀ before a after, assemblers = before ++ a :: after →
        (∀ d₁, Declined frames output fps before d d₁ → ∃ e d₂,
          a.assemble frames output fps d₁ = (.error e, d₂) ∧ e.IsEncoding ∧
            Unaffected frames output fps after d₁ d₂) →
        (run (before ++ after)).1 = (run assemblers).1 := by
  intro run asking
  refine ⟨declined_or_decided assemblers d, fun before a r d' h => h.assembleWithFallback_eq log,
    fun d' h => h.assembleWithFallback_eq log,
    assembleWithFallback_fst_eq_error_iff assemblers d log, ?_⟩
  rintro before a after rfl hdeclines
  exact assembleWithFallback_fst_of_declining hdeclines log

/-- The second of three assemblers decides. The first could be left out, and the third would have
failed. -/
theorem assembleWithFallback_decided_second :
    let mock (name : String) (r : Except Failure Path) : Assembler := ⟨name, fun _ _ _ d => (r, d)⟩
    let failing := mock "failing" (.error (.encoding "failing" "unavailable"))
    let succeeding := mock "succeeding" (.ok (.ofString "out.gif"))
    let broken := mock "broken" (.error .nothingToFrame)
    let frames := [Path.ofString "frames/frame_000.png"]
    let output := Path.ofString "out.mp4"
    let d : Disk := ⟨[], []⟩
    let run (as : List Assembler) := assembleWithFallback (F := Unit) frames output 2 as ⟨d, []⟩
    Decided frames output 2 [failing, succeeding, broken] d [failing] succeeding
        (.ok (.ofString "out.gif")) d ∧
      run [failing, succeeding, broken] = (.ok (.encoded "succeeding" (.ofString "out.gif")),
        ⟨d, [.assemble "failing" frames output 2, .assemble "succeeding" frames output 2]⟩) ∧
      (run [succeeding, broken]).1 = (run [failing, succeeding, broken]).1 := by
  intro mock failing succeeding broken frames output d run
  have hfailing : failing.assemble frames output 2 d =
      (.error (.encoding "failing" "unavailable"), d) := rfl
  have hdecided : Decided frames output 2 [failing, succeeding, broken] d [failing] succeeding
      (.ok (.ofString "out.gif")) d :=
    ⟨⟨[broken], rfl⟩, ⟨d, .cons hfailing ⟨_, _, rfl⟩ (.nil d), rfl⟩, fun e h => by cases h⟩
  obtain ⟨-, hrun, -, -, hleft⟩ := assembleWithFallback_decided (F := Unit) frames output 2
    [failing, succeeding, broken] d []
  refine ⟨hdecided, hrun _ _ _ _ hdecided, hleft [] failing [succeeding, broken] rfl ?_⟩
  intro d₁ hnone
  exact ⟨_, d₁, rfl, ⟨_, _, rfl⟩, .refl _ _⟩

end Asking

end Starfilm
