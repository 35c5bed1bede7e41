import Mathlib.Tactic.SplitIfs
import Starfilm.CommandLine

/-!
# Values of options

An option may stand anywhere among the arguments and more than once. `Gives` says which argument is
its value, without looking from the left, and `value?` finds it (`value?_eq_some_iff`). What a
setting becomes of it is `Takes`: what the value reads as, or a default where there is no value.
`readValue` and `pathOr` compute that (`readValue_eq_ok_iff`, `pathOr_eq_iff`).
-/

namespace Starfilm

namespace CommandLine

/-- `v` is the argument after the first occurrence of an option that has one. Of all occurrences
only one at the very end has none, so no other occurrence stands in front of this one. -/
def Gives (args : List String) (option v : String) : Prop :=
  ∃ front rest, args = front ++ option :: v :: rest ∧ option ∉ front

/-- `a` is what the value of an option reads as, or the default where the option has no value. -/
inductive Takes {A : Type} (args : List String) (option : String) (read : String → Option A)
    (default : A) : A → Prop where
  | given {v : String} {a : A} (h : Gives args option v) (hread : read v = some a) :
    Takes args option read default a
  | absent (h : ∀ v, ¬Gives args option v) : Takes args option read default default

/-! ## The value -/

theorem value?_cons (option a : String) (rest : List String) :
    value? option (a :: rest) = if a = option then rest.head? else value? option rest := by
  cases rest with
  | nil => simp [value?]
  | cons b rest => rfl

/-- An argument that is not the option is passed over. -/
theorem value?_cons_of_ne {option a : String} (h : a ≠ option) (rest : List String) :
    value? option (a :: rest) = value? option rest := by
  rw [value?_cons, if_neg h]

variable {args : List String} {option v : String}

/-- **The value that is found is the one that is given.** -/
theorem value?_eq_some_iff : value? option args = some v ↔ Gives args option v := by
  induction args with
  | nil => simp [value?, Gives]
  | cons a args ih =>
    rw [value?_cons]
    split_ifs with h
    · -- the occurrence in front is the first one
      subst h
      rw [List.head?_eq_some_iff]
      constructor
      · rintro ⟨rest, rfl⟩
        exact ⟨[], rest, rfl, List.not_mem_nil⟩
      · rintro ⟨front, rest, hargs, hfront⟩
        cases front with
        | nil => exact ⟨rest, (List.cons.inj hargs).2⟩
        | cons b front =>
          obtain ⟨rfl, -⟩ := List.cons.inj hargs
          exact absurd List.mem_cons_self hfront
    · rw [ih]
      constructor
      · rintro ⟨front, rest, rfl, hfront⟩
        refine ⟨a :: front, rest, rfl, ?_⟩
        rw [List.mem_cons, not_or]
        exact ⟨Ne.symm h, hfront⟩
      · rintro ⟨front, rest, hargs, hfront⟩
        cases front with
        | nil => exact absurd (List.cons.inj hargs).1 h
        | cons b front =>
          rw [List.mem_cons, not_or] at hfront
          exact ⟨front, rest, (List.cons.inj hargs).2, hfront.2⟩

theorem value?_eq_none_iff : value? option args = none ↔ ∀ v, ¬Gives args option v := by
  simp only [← value?_eq_some_iff, Option.eq_none_iff_forall_ne_some, ne_eq]

theorem isSome_value?_iff : (value? option args).isSome = true ↔ ∃ v, Gives args option v := by
  rw [Option.isSome_iff_exists]
  exact exists_congr fun v => value?_eq_some_iff

/-- An option has at most one value. -/
theorem Gives.unique {w : String} (h : Gives args option v) (h' : Gives args option w) : v = w := by
  rw [← value?_eq_some_iff] at h h'
  exact Option.some.inj (h.symm.trans h')

/-! ## What is made of it -/

section Reading

variable {A : Type} {read : String → Option A} {default a : A}

theorem takes_iff : Takes args option read default a ↔
    (∃ v, value? option args = some v ∧ read v = some a) ∨
      value? option args = none ∧ a = default := by
  simp only [value?_eq_some_iff, value?_eq_none_iff]
  constructor
  · rintro (⟨h, hread⟩ | h)
    · exact .inl ⟨_, h, hread⟩
    · exact .inr ⟨h, rfl⟩
  · rintro (⟨v, h, hread⟩ | ⟨h, rfl⟩)
    · exact .given h hread
    · exact .absent h

theorem Takes.eq_some_of_gives (h : Takes args option read default a)
    (hv : Gives args option v) : read v = some a := by
  cases h with
  | given h hread => rwa [hv.unique h]
  | absent h => exact absurd hv (h v)

theorem readValue_eq_ok_iff :
    readValue read option default args = .ok a ↔ Takes args option read default a := by
  rw [takes_iff, readValue]
  cases value? option args with
  | none => simp [eq_comm]
  | some v => cases hread : read v <;> simp [hread]

/-- An option makes at most one thing of its value. -/
theorem Takes.unique {b : A} (h : Takes args option read default a)
    (h' : Takes args option read default b) : a = b := by
  rw [← readValue_eq_ok_iff] at h h'
  exact Except.ok.inj (h.symm.trans h')

/-- A value that cannot be read is the only thing that is refused. -/
theorem readValue_eq_error_iff {e : ArgumentError} :
    readValue read option default args = .error e ↔
      ∃ v, Gives args option v ∧ read v = none ∧ e = .badValue v option := by
  simp only [← value?_eq_some_iff, readValue]
  cases value? option args with
  | none => simp
  | some v => cases hread : read v <;> simp [hread, eq_comm]

theorem pathOr_eq_iff {default p : Path} :
    pathOr option default args = p ↔ Takes args option (fun v => some (.ofString v)) default p := by
  rw [takes_iff, pathOr]
  cases value? option args with
  | none => simp [eq_comm]
  | some v => simp

end Reading

end CommandLine

end Starfilm
