/-!
# Results of computations that may fail

Of two computations one after the other the first that fails tells the error, and a result is one
of both. The readers of values and of containers are such chains, each over its own errors.
-/

namespace Starfilm

variable {E A B : Type} {x : Except E A}

theorem except_bind_eq_ok_iff {k : A → Except E B} {b : B} :
    (x >>= k) = .ok b ↔ ∃ a, x = .ok a ∧ k a = .ok b := by
  cases x with
  | ok a => simp [bind, Except.bind]
  | error e => simp [bind, Except.bind]

/-- Of two computations the first that fails tells the error. -/
theorem except_bind_eq_error_iff {k : A → Except E B} {e : E} :
    (x >>= k) = .error e ↔ x = .error e ∨ ∃ a, x = .ok a ∧ k a = .error e := by
  cases x with
  | ok a => simp [bind, Except.bind]
  | error e' => simp [bind, Except.bind]

theorem except_map_eq_ok_iff {f : A → B} {b : B} :
    x.map f = .ok b ↔ ∃ a, x = .ok a ∧ f a = b := by
  cases x with
  | ok a => simp [Except.map]
  | error e => simp [Except.map]

/-- A computed result is the one that is left once the errors are forgotten. Results, unlike errors,
can often be compared. -/
theorem eq_ok_of_toOption_eq_some {a : A} (h : x.toOption = some a) : x = .ok a := by
  cases x with
  | ok b => exact congrArg Except.ok (Option.some.inj h)
  | error e => cases h

end Starfilm
