import Mathlib.Data.List.Forall2
import Starfilm.Proofs.Run.Steps
import Starfilm.Random.Source

/-!
# What draws come to

A computation that draws takes as many words as it likes, so little can be told of the state that it
leaves. What is told here is of every state at once: `Ensures` says that a computation comes to a
value with a property, and which failures it may come to instead. It follows the steps of the
computation, and its one loop, attempts until one is not rejected, may come to `.unsettledDraw` and
to nothing else that its attempts do not come to (`Ensures.untilAccepted`).

A draw has only so many attempts. `Extends` says that more of them change nothing where a
computation ends, that is, where none of its draws is given up (`Ends`).
-/

namespace Starfilm

/-- The source does not leave the states with `I`. -/
def Source.Keeps {S : Type} [Source S] (I : S → Prop) : Prop := ∀ s, I s → I (Source.next s).2

namespace Draws

variable {S A B : Type}

/-- No draw is given up. -/
def Ends (x : Draws S A) (s : S) : Prop := (x s).1 ≠ .error .unsettledDraw

theorem Ends.of_bind {x : Draws S A} {f : A → Draws S B} {s : S} (h : (x >>= f).Ends s) :
    x.Ends s := by
  rcases hx : x s with ⟨e | a, s'⟩
  · rw [Ends, bind_of_error hx] at h
    rw [Ends, hx]
    exact fun he => h (congrArg Except.error (Except.error.inj he))
  · rw [Ends, hx]
    intro h
    cases h

/-! ## Outcomes -/

/-- From every state with `I` the computation comes to a value with `P` and to a state with `I`
again, or to a failure with `E`. -/
def Ensures (E : Failure → Prop) (I : S → Prop) (x : Draws S A) (P : A → Prop) : Prop :=
  ∀ s, I s → (∃ a s', x s = (.ok a, s') ∧ P a ∧ I s') ∨ ∃ e s', x s = (.error e, s') ∧ E e

namespace Ensures

variable {E : Failure → Prop} {I : S → Prop} {P : A → Prop} {Q : B → Prop}

theorem pure {a : A} (h : P a) : Ensures E I (Pure.pure a) P :=
  fun s hs => .inl ⟨a, s, rfl, h, hs⟩

theorem bind {x : Draws S A} {f : A → Draws S B} (hx : x.Ensures E I P)
    (hf : ∀ a, P a → (f a).Ensures E I Q) : (x >>= f).Ensures E I Q := by
  intro s hs
  rcases hx s hs with ⟨a, s', ha, hP, hs'⟩ | ⟨e, s', he, hE⟩
  · rw [bind_of_ok ha]
    exact hf a hP s' hs'
  · exact .inr ⟨e, s', bind_of_error he, hE⟩

theorem mono {x : Draws S A} {P' : A → Prop} (hx : x.Ensures E I P) (h : ∀ a, P a → P' a) :
    x.Ensures E I P' := by
  intro s hs
  rcases hx s hs with ⟨a, s', ha, hP, hs'⟩ | hfail
  · exact .inl ⟨a, s', ha, h a hP, hs'⟩
  · exact .inr hfail

theorem lift {x : Except Failure A} {a : A} (hx : x = .ok a) :
    Ensures E I (liftM x : Draws S A) fun b => b = a :=
  fun s hs => .inl ⟨a, s, lift_apply hx s, rfl, hs⟩

/-- One value for each element of a list. -/
theorem mapM {C : Type} {R : C → A → Prop} {f : C → Draws S A} {cs : List C}
    (h : ∀ c ∈ cs, (f c).Ensures E I (R c)) : (cs.mapM f).Ensures E I (List.Forall₂ R cs) := by
  induction cs with
  | nil =>
    rw [List.mapM_nil]
    exact pure .nil
  | cons c cs ih =>
    rw [List.mapM_cons]
    refine (h c List.mem_cons_self).bind fun a ha => ?_
    refine (ih fun c hc => h c (List.mem_cons_of_mem _ hc)).bind fun as has => ?_
    exact pure (.cons ha has)

theorem word [Source S] (hI : Source.Keeps I) :
    Ensures E I word fun w => ∃ s, I s ∧ w = (Source.next s).1 :=
  fun s hs => .inl ⟨_, _, rfl, ⟨s, hs, rfl⟩, hI s hs⟩

/-- Attempts come to a value, or are given up. -/
theorem untilAccepted {attempt : Draws S (Option A)} (hE : E .unsettledDraw)
    (h : attempt.Ensures E I fun o => ∀ a, o = some a → P a) (n : ℕ) :
    (attempt.untilAccepted n).Ensures E I P := by
  induction n with
  | zero => exact fun s _ => .inr ⟨.unsettledDraw, s, rfl, hE⟩
  | succ n ih =>
    refine h.bind fun o ho => ?_
    cases o with
    | some a => exact pure (ho a rfl)
    | none => exact ih

/-- Nothing is given up where the first attempt is always accepted. -/
theorem untilAccepted_of_accepted {attempt : Draws S (Option A)} {n : ℕ} (hn : 0 < n)
    (h : attempt.Ensures E I fun o => ∃ a, o = some a ∧ P a) :
    (attempt.untilAccepted n).Ensures E I P := by
  cases n with
  | zero => exact absurd hn (Nat.lt_irrefl 0)
  | succ n =>
    refine h.bind fun o ho => ?_
    obtain ⟨a, rfl, ha⟩ := ho
    exact pure ha

/-- A computation that comes to no failure ends. -/
theorem ends {x : Draws S A} (h : x.Ensures (fun _ => False) I P) {s : S} (hs : I s) :
    x.Ends s := by
  rcases h s hs with ⟨a, s', ha, -, -⟩ | ⟨e, s', -, he⟩
  · rw [Ends, ha]
    intro h
    cases h
  · exact he.elim

end Ensures

/-! ## One after the other -/

/-- Computations for the elements of a list, each from the state that the one before it leaves. -/
inductive Successive (f : A → Draws S B) : S → List A → List B → S → Prop
  | nil (s : S) : Successive f s [] [] s
  | cons {s s' s'' : S} {a : A} {b : B} {as : List A} {bs : List B} (first : f a s = (.ok b, s'))
      (rest : Successive f s' as bs s'') : Successive f s (a :: as) (b :: bs) s''

theorem mapM_eq_ok_iff {f : A → Draws S B} {as : List A} {bs : List B} {s s' : S} :
    as.mapM f s = (.ok bs, s') ↔ Successive f s as bs s' := by
  constructor
  · intro h
    induction as generalizing s bs with
    | nil =>
      rw [List.mapM_nil] at h
      cases h
      exact .nil _
    | cons a as ih =>
      rw [List.mapM_cons] at h
      obtain ⟨b, s₁, hfirst, h⟩ := bind_eq_ok_iff.1 h
      obtain ⟨bs, s₂, hrest, h⟩ := bind_eq_ok_iff.1 h
      cases h
      exact .cons hfirst (ih hrest)
  · intro h
    induction h with
    | nil => rfl
    | cons first rest ih =>
      rw [List.mapM_cons, bind_of_ok first, bind_of_ok ih]
      rfl

/-! ## More attempts -/

/-- `y` does what `x` does, wherever `x` ends. -/
def Extends (y x : Draws S A) : Prop := ∀ s, x.Ends s → y s = x s

namespace Extends

theorem refl (x : Draws S A) : x.Extends x := fun _ _ => rfl

theorem bind {x y : Draws S A} {f g : A → Draws S B} (hy : y.Extends x)
    (hg : ∀ a, (g a).Extends (f a)) : (y >>= g).Extends (x >>= f) := by
  intro s hs
  have heq := hy s hs.of_bind
  rcases hx : x s with ⟨e | a, s'⟩
  · rw [bind_of_error hx, bind_of_error (heq.trans hx)]
  · rw [Ends, bind_of_ok hx] at hs
    rw [bind_of_ok hx, bind_of_ok (heq.trans hx)]
    exact hg a s' hs

theorem mapM {f g : A → Draws S B} (h : ∀ a, (g a).Extends (f a)) (as : List A) :
    (as.mapM g).Extends (as.mapM f) := by
  induction as with
  | nil => exact refl _
  | cons a as ih =>
    rw [List.mapM_cons, List.mapM_cons]
    exact (h a).bind fun b => ih.bind fun bs => refl _

theorem untilAccepted {x y : Draws S (Option A)} (h : y.Extends x) {m n : ℕ} (hmn : m ≤ n) :
    (y.untilAccepted n).Extends (x.untilAccepted m) := by
  induction m generalizing n with
  | zero => exact fun s hs => absurd rfl hs
  | succ m ih =>
    cases n with
    | zero => exact absurd hmn (Nat.not_succ_le_zero m)
    | succ n =>
      refine h.bind fun o => ?_
      cases o with
      | some a => exact refl _
      | none => exact ih (Nat.le_of_succ_le_succ hmn)

end Extends

end Draws

end Starfilm
