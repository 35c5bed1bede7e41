import Starfilm.Run

/-!
# Runs, step by step

What a computation that may fail does with a state is a result and a next state. `bind_of_ok` and
`bind_of_error` say how two computations follow one another, and the lemmas after them what each
primitive of a run does. They are all that the proofs about runs open of the monad.
-/

namespace Starfilm

section Bind

variable {S A B : Type} {a : ExceptT Failure (StateM S) A} {f : A → ExceptT Failure (StateM S) B}
  {s s' s'' : S}

theorem bind_of_ok {x : A} (h : a s = (.ok x, s')) : (a >>= f) s = f x s' := by
  change StateT.bind a (ExceptT.bindCont f) s = _
  rw [StateT.bind]
  simp only [h]
  rfl

theorem bind_of_error {e : Failure} (h : a s = (.error e, s')) :
    (a >>= f) s = (.error e, s') := by
  change StateT.bind a (ExceptT.bindCont f) s = _
  rw [StateT.bind]
  simp only [h]
  rfl

theorem lift_apply {x r : Except Failure A} (h : x = r) (s : S) :
    (liftM x : ExceptT Failure (StateM S) A) s = (r, s) := by
  rw [h]
  rfl

/-- A computation that succeeds has succeeded in both of its parts. -/
theorem bind_eq_ok_iff {y : B} :
    (a >>= f) s = (.ok y, s'') ↔ ∃ x s', a s = (.ok x, s') ∧ f x s' = (.ok y, s'') := by
  constructor
  · intro h
    rcases ha : a s with ⟨e | x, s'⟩
    · rw [bind_of_error ha] at h
      cases h
    · rw [bind_of_ok ha] at h
      exact ⟨x, s', rfl, h⟩
  · rintro ⟨x, s', ha, h⟩
    rw [bind_of_ok ha, h]

end Bind

namespace OnDisk

variable {A : Type} {at_ : Path} {d d' : Disk}

theorem look_of_ok {f : Disk → Except Disk.Fault A} {x : A} (h : f d = .ok x) :
    look at_ f d = (.ok x, d) := by
  have hget : (get : OnDisk Disk) d = (.ok d, d) := rfl
  rw [look, bind_of_ok hget, h]
  rfl

theorem look_of_error {f : Disk → Except Disk.Fault A} {e : Disk.Fault} (h : f d = .error e) :
    look at_ f d = (.error (.disk at_ e.message), d) := by
  have hget : (get : OnDisk Disk) d = (.ok d, d) := rfl
  rw [look, bind_of_ok hget, h]
  rfl

theorem change_of_ok {f : Disk → Except Disk.Fault Disk} (h : f d = .ok d') :
    change at_ f d = (.ok (), d') := by
  have hget : (get : OnDisk Disk) d = (.ok d, d) := rfl
  rw [change, bind_of_ok hget, h]
  rfl

theorem change_of_error {f : Disk → Except Disk.Fault Disk} {e : Disk.Fault}
    (h : f d = .error e) : change at_ f d = (.error (.disk at_ e.message), d) := by
  have hget : (get : OnDisk Disk) d = (.ok d, d) := rfl
  rw [change, bind_of_ok hget, h]
  rfl

theorem change_eq_ok_iff {f : Disk → Except Disk.Fault Disk} :
    change at_ f d = (.ok (), d') ↔ f d = .ok d' := by
  cases h : f d with
  | error fault =>
    rw [change_of_error h]
    exact iff_of_false (fun h => by cases h) fun h => by cases h
  | ok e =>
    rw [change_of_ok h]
    exact ⟨fun h => by cases h; rfl, fun h => by cases h; rfl⟩

end OnDisk

namespace Run

variable {F A : Type} (log : List (Event F))

theorem record_apply (d : Disk) (e : Event F) : record e ⟨d, log⟩ = (.ok (), ⟨d, log ++ [e]⟩) := rfl

theorem onDisk_apply {a : OnDisk A} {d d' : Disk} {r : Except Failure A} (h : a d = (r, d')) :
    (onDisk a : Run F A) ⟨d, log⟩ = (r, ⟨d', log⟩) := by
  change ((a d).1, (⟨(a d).2, log⟩ : RunState F)) = _
  rw [h]

theorem attempt_apply {a : Run F A} {s s' : RunState F} {r : Except Failure A}
    (h : a s = (r, s')) : attempt a s = (.ok r, s') := by
  change (Except.ok (a s).1, (a s).2) = _
  rw [h]

theorem look_apply {f : Disk → Except Failure A} {d : Disk} {r : Except Failure A} (h : f d = r) :
    (look f : Run F A) ⟨d, log⟩ = (r, ⟨d, log⟩) := by
  have hget : (get : Run F (RunState F)) ⟨d, log⟩ = (.ok ⟨d, log⟩, ⟨d, log⟩) := rfl
  rw [look, bind_of_ok hget, h]
  cases r <;> rfl

end Run

end Starfilm
