import Mathlib.Algebra.BigOperators.Group.Multiset.Basic
import Mathlib.Logic.Relation
import Starfilm.Proofs.Arith.PlaceOrder
import Starfilm.Window.Estimate

/-!
# What the window depends on

The points of all sets are pooled before the window is estimated, and each axis is sorted by places.
So the window depends only on how often each finite point occurs in all sets together
(`finitePoints`), and with the height taken from the width only on how often each abscissa does:
`estimate_eq_of_finitePoints`, `estimate_thin_eq_of_abscissas`. It may be made from any list of the
finite points (`estimate_eq_windowOf`). No law of the arithmetic is used besides `PlaceOrder`.

`Edit` lists what may be done to the sets one step at a time. Chains of edits, forwards and
backwards, lead from some sets to exactly those with the same finite points
(`eqvGen_edit_iff`).
-/

namespace Starfilm

open Relation (EqvGen)

variable {F : Type} [Arith F]

/-! ## The finite points -/

/-- The finite points of some sets, each as often as it occurs in all of them together. -/
def finitePoints (sets : List (List (Point F))) : Multiset (Point F) :=
  (sets.map fun ps => Multiset.ofList (ps.filter Point.isFinite)).sum

@[simp] theorem finitePoints_nil : finitePoints ([] : List (List (Point F))) = 0 := rfl

@[simp] theorem finitePoints_cons (ps : List (Point F)) (sets : List (List (Point F))) :
    finitePoints (ps :: sets) = Multiset.ofList (ps.filter Point.isFinite) + finitePoints sets := by
  simp [finitePoints]

@[simp] theorem finitePoints_append (sets sets' : List (List (Point F))) :
    finitePoints (sets ++ sets') = finitePoints sets + finitePoints sets' := by
  simp [finitePoints]

/-- The pool holds the finite points. -/
theorem coe_pool (sets : List (List (Point F))) :
    (pool sets : Multiset (Point F)) = finitePoints sets := by
  induction sets with
  | nil => rfl
  | cons ps sets ih =>
    rw [finitePoints_cons, ← ih, pool, pool, List.flatten_cons, List.filter_append,
      Multiset.coe_add]

theorem pool_eq_nil_iff (sets : List (List (Point F))) :
    pool sets = [] ↔ finitePoints sets = 0 := by
  rw [← coe_pool, Multiset.coe_eq_zero]

section Listing

variable {points : List (Point F)} {sets : List (List (Point F))}
  (hpoints : (points : Multiset (Point F)) = finitePoints sets)

include hpoints

/-- Lists of the finite points differ from the pool in their order only. -/
theorem pool_perm : (pool sets).Perm points := by
  rw [← Multiset.coe_eq_coe, coe_pool, hpoints]

theorem pool_ne_nil (hne : points ≠ []) : pool sets ≠ [] :=
  fun hnil => hne (hnil ▸ pool_perm hpoints).nil_eq.symm

theorem isFinite_of_mem {p : Point F} (hp : p ∈ points) : p.isFinite = true :=
  (List.mem_filter.1 ((pool_perm hpoints).mem_iff.2 hp)).2

end Listing

/-- What keeps finite points finite, and no others, may be done before or after pooling. -/
theorem pool_map {f : Point F → Point F} (hf : ∀ p, (f p).isFinite = p.isFinite)
    (sets : List (List (Point F))) : pool (sets.map fun ps => ps.map f) = (pool sets).map f := by
  rw [pool, pool, ← List.map_flatten, List.filter_map]
  simp only [Function.comp_def, hf]

/-! ## Edits -/

/-- One step of rearranging sets of points that leaves the finite points alone. -/
inductive Edit : List (List (Point F)) → List (List (Point F)) → Prop
  /-- The sets in another order. -/
  | reorderSets {sets sets' : List (List (Point F))} (h : sets.Perm sets') : Edit sets sets'
  /-- The points of one set in another order. -/
  | reorderPoints (before after : List (List (Point F))) {ps ps' : List (Point F)}
      (h : ps.Perm ps') : Edit (before ++ ps :: after) (before ++ ps' :: after)
  /-- One set divided into two. -/
  | divide (before after : List (List (Point F))) (ps qs : List (Point F)) :
      Edit (before ++ (ps ++ qs) :: after) (before ++ ps :: qs :: after)
  /-- An empty set put in. -/
  | insertEmpty (before after : List (List (Point F))) :
      Edit (before ++ after) (before ++ [] :: after)
  /-- A point put in that has a coordinate which is infinite or no number. -/
  | insertStray (before after : List (List (Point F))) (ps qs : List (Point F)) {p : Point F}
      (h : p.isFinite = false) :
      Edit (before ++ (ps ++ qs) :: after) (before ++ (ps ++ p :: qs) :: after)

/-- An edit keeps the finite points. -/
theorem Edit.finitePoints_eq {sets sets' : List (List (Point F))} (h : Edit sets sets') :
    finitePoints sets = finitePoints sets' := by
  cases h with
  | reorderSets h =>
    exact List.Perm.sum_eq (h.map _)
  | reorderPoints before after h =>
    rw [finitePoints_append, finitePoints_append, finitePoints_cons, finitePoints_cons,
      Multiset.coe_eq_coe.2 (h.filter Point.isFinite)]
  | divide before after ps qs =>
    simp only [finitePoints_append, finitePoints_cons, List.filter_append, ← Multiset.coe_add,
      add_assoc]
  | insertEmpty before after => simp
  | insertStray before after ps qs h =>
    simp only [finitePoints_append, finitePoints_cons, List.filter_append, List.filter_cons, h,
      Bool.false_eq_true, if_false]

/-- A chain of edits keeps the finite points. -/
theorem finitePoints_eq_of_eqvGen {sets sets' : List (List (Point F))}
    (h : EqvGen Edit sets sets') :
    finitePoints sets = finitePoints sets' := by
  induction h with
  | rel _ _ h => exact h.finitePoints_eq
  | refl _ => rfl
  | symm _ _ _ ih => exact ih.symm
  | trans _ _ _ _ _ ih₁ ih₂ => exact ih₁.trans ih₂

/-- An edit of some sets is one of these sets behind another. -/
theorem Edit.cons {sets sets' : List (List (Point F))} (h : Edit sets sets') (qs : List (Point F)) :
    Edit (qs :: sets) (qs :: sets') := by
  cases h with
  | reorderSets h => exact .reorderSets (h.cons qs)
  | reorderPoints before after h => exact .reorderPoints (qs :: before) after h
  | divide before after ps ps' => exact .divide (qs :: before) after ps ps'
  | insertEmpty before after => exact .insertEmpty (qs :: before) after
  | insertStray before after ps ps' h => exact .insertStray (qs :: before) after ps ps' h

theorem eqvGen_edit_cons {sets sets' : List (List (Point F))} (h : EqvGen Edit sets sets')
    (qs : List (Point F)) : EqvGen Edit (qs :: sets) (qs :: sets') := by
  induction h with
  | rel _ _ h => exact .rel _ _ (h.cons qs)
  | refl _ => exact .refl _
  | symm _ _ _ ih => exact .symm _ _ ih
  | trans _ _ _ _ _ ih₁ ih₂ => exact .trans _ _ _ ih₁ ih₂

/-- Edits bring all points into one set. -/
theorem eqvGen_edit_flatten (sets : List (List (Point F))) : EqvGen Edit sets [sets.flatten] := by
  induction sets with
  | nil => exact .rel _ _ (.insertEmpty [] [])
  | cons ps sets ih =>
    refine .trans _ _ _ (eqvGen_edit_cons ih ps) (.symm _ _ (.rel _ _ ?_))
    exact .divide [] [] ps sets.flatten

/-- Edits take all points away that are not finite. -/
theorem eqvGen_edit_filter (done ps : List (Point F)) :
    EqvGen Edit [done ++ ps] [done ++ ps.filter Point.isFinite] := by
  induction ps generalizing done with
  | nil => exact .refl _
  | cons p ps ih =>
    cases hp : p.isFinite with
    | true =>
      rw [List.filter_cons_of_pos hp, List.append_cons done p ps,
        List.append_cons done p (ps.filter Point.isFinite)]
      exact ih (done ++ [p])
    | false =>
      rw [List.filter_cons_of_neg (by simp [hp])]
      exact .trans _ _ _ (.symm _ _ (.rel _ _ (.insertStray [] [] done ps hp))) (ih done)

theorem eqvGen_edit_pool (sets : List (List (Point F))) : EqvGen Edit sets [pool sets] :=
  .trans _ _ _ (eqvGen_edit_flatten sets) (eqvGen_edit_filter [] sets.flatten)

/-- **Edits lead from some sets to exactly those with the same finite points.** -/
theorem eqvGen_edit_iff (sets sets' : List (List (Point F))) :
    EqvGen Edit sets sets' ↔ finitePoints sets = finitePoints sets' := by
  refine ⟨finitePoints_eq_of_eqvGen, fun h => ?_⟩
  rw [← coe_pool, ← coe_pool, Multiset.coe_eq_coe] at h
  refine .trans _ _ _ (eqvGen_edit_pool sets) (.trans _ _ _ (.rel _ _ ?_)
    (.symm _ _ (eqvGen_edit_pool sets')))
  exact .reorderPoints [] [] h

/-! ## The window -/

/-- The window of some abscissas and ordinates. -/
def windowOf (s : Framing F) (thin : Bool) (xs ys : List F) : Window F :=
  let x := paddedRange s xs
  let half := s.thinAxisRatio * (x.2 - x.1)
  let y := if thin then (-half, half) else paddedRange s ys
  ⟨x.1, x.2, y.1, y.2⟩

theorem estimate_of_pool_eq_nil (s : Framing F) (thin : Bool) {sets : List (List (Point F))}
    (h : pool sets = []) : estimate s thin sets = .error .nothingToFrame := by
  rw [estimate, h]

theorem estimate_of_pool_ne_nil (s : Framing F) (thin : Bool) {sets : List (List (Point F))}
    (h : pool sets ≠ []) :
    estimate s thin sets =
      .ok (windowOf s thin ((pool sets).map (·.x)) ((pool sets).map (·.y))) := by
  rw [estimate]
  split
  · contradiction
  · cases thin <;> rfl

variable [PlaceOrder F]

theorem paddedRange_eq_of_perm (s : Framing F) {xs ys : List F} (h : xs.Perm ys) :
    paddedRange s xs = paddedRange s ys := by
  rw [paddedRange, paddedRange, mergeSort_eq_of_perm h]

theorem windowOf_eq_of_perm (s : Framing F) (thin : Bool) {xs xs' ys ys' : List F}
    (hx : xs.Perm xs') (hy : thin = false → ys.Perm ys') :
    windowOf s thin xs ys = windowOf s thin xs' ys' := by
  cases thin with
  | false => simp only [windowOf, paddedRange_eq_of_perm s hx, paddedRange_eq_of_perm s (hy rfl)]
  | true => simp only [windowOf, paddedRange_eq_of_perm s hx, if_true]

/-- **The window of some sets** is that of their finite points, however these are listed. -/
theorem estimate_eq_windowOf (s : Framing F) (thin : Bool) {points : List (Point F)}
    {sets : List (List (Point F))} (hpoints : (points : Multiset (Point F)) = finitePoints sets)
    (hne : points ≠ []) :
    estimate s thin sets = .ok (windowOf s thin (points.map (·.x)) (points.map (·.y))) := by
  have hperm := pool_perm hpoints
  rw [estimate_of_pool_ne_nil s thin (pool_ne_nil hpoints hne),
    windowOf_eq_of_perm s thin (hperm.map _) fun _ => hperm.map _]

/-- The estimate depends on the pooled abscissas, and on the ordinates where they are looked at. -/
theorem estimate_eq_of_perm (s : Framing F) (thin : Bool) {sets sets' : List (List (Point F))}
    (hx : ((pool sets).map (·.x)).Perm ((pool sets').map (·.x)))
    (hy : thin = false → ((pool sets).map (·.y)).Perm ((pool sets').map (·.y))) :
    estimate s thin sets = estimate s thin sets' := by
  have hnil : pool sets = [] ↔ pool sets' = [] := by
    rw [← List.map_eq_nil_iff (f := (·.x)), ← List.map_eq_nil_iff (f := (·.x)) (l := pool sets')]
    exact ⟨fun h => (h ▸ hx).nil_eq.symm, fun h => (h ▸ hx).eq_nil⟩
  by_cases h : pool sets = []
  · rw [estimate_of_pool_eq_nil s thin h, estimate_of_pool_eq_nil s thin (hnil.1 h)]
  · rw [estimate_of_pool_ne_nil s thin h, estimate_of_pool_ne_nil s thin (mt hnil.2 h),
      windowOf_eq_of_perm s thin hx hy]

theorem estimate_eq_of_finitePoints (s : Framing F) (thin : Bool)
    {sets sets' : List (List (Point F))} (h : finitePoints sets = finitePoints sets') :
    estimate s thin sets = estimate s thin sets' := by
  rw [← coe_pool, ← coe_pool, Multiset.coe_eq_coe] at h
  exact estimate_eq_of_perm s thin (h.map _) fun _ => h.map _

theorem estimate_thin_eq_of_abscissas (s : Framing F) {sets sets' : List (List (Point F))}
    (h : (finitePoints sets).map (·.x) = (finitePoints sets').map (·.x)) :
    estimate s true sets = estimate s true sets' := by
  rw [← coe_pool, ← coe_pool, Multiset.map_coe, Multiset.map_coe, Multiset.coe_eq_coe] at h
  exact estimate_eq_of_perm s true h nofun

/-- **The window of double precision points**, to the bit: it is the same for collections with the
same finite points, so for collections that edits lead to from one another, and with the height
taken from the width for collections whose finite points have the same abscissas. -/
theorem estimate_rearranged (s : Framing Double) (sets sets' : List (List (Point Double))) :
    (finitePoints sets = finitePoints sets' →
        ∀ thin, estimate s thin sets = estimate s thin sets') ∧
      (EqvGen Edit sets sets' → ∀ thin, estimate s thin sets = estimate s thin sets') ∧
      ((finitePoints sets).map (·.x) = (finitePoints sets').map (·.x) →
        estimate s true sets = estimate s true sets') := by
  refine ⟨fun h thin => estimate_eq_of_finitePoints s thin h, fun h thin => ?_,
    fun h => estimate_thin_eq_of_abscissas s h⟩
  exact estimate_eq_of_finitePoints s thin ((eqvGen_edit_iff sets sets').1 h)

/-- Two zeros of either sign change places, one of them moves to a set of its own, and points that
are not finite come in; with the height taken from the width also the ordinates may change. -/
theorem estimate_rearranged_zeros :
    let zero : Double := ⟨0⟩
    let minusZero : Double := ⟨0x8000000000000000⟩
    let sets := [[⟨zero, zero⟩, ⟨minusZero, zero⟩], []]
    let sets' := [[⟨minusZero, zero⟩, ⟨.nan, zero⟩], [⟨zero, .infinity⟩, ⟨zero, zero⟩]]
    let sets'' := [[⟨minusZero, minusZero⟩, ⟨zero, minusZero⟩]]
    (finitePoints sets = finitePoints sets' ∧
        estimate .default false sets = estimate .default false sets') ∧
      EqvGen Edit sets sets' ∧
      ((finitePoints sets).map (·.x) = (finitePoints sets'').map (·.x) ∧
        estimate .default true sets = estimate .default true sets'') := by
  intro zero minusZero sets sets' sets''
  have h : finitePoints sets = finitePoints sets' := by decide
  have hx : (finitePoints sets).map (·.x) = (finitePoints sets'').map (·.x) := by decide
  exact ⟨⟨h, (estimate_rearranged .default sets sets').1 h false⟩, (eqvGen_edit_iff sets sets').2 h,
    hx, (estimate_rearranged .default sets sets'').2.2 hx⟩

end Starfilm
