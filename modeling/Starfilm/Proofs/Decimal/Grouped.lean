import Mathlib.Data.List.Basic
import Mathlib.Logic.Function.Basic
import Starfilm.Decimal.Grouped
import Starfilm.Decimal.Read

/-!
# Groups of three digits

Commas are put in from the left, by what is left of the digits, but the groups are those counted
from the end: behind a digit there stands a beginning of fewer than three digits, and then groups of
three with a comma before each (`exists_groupTail`). One digit more makes the beginning longer, or
makes a group of it when it would have three.

The commas are all that is put in (`filter_group`), so that a count can be read back.

**Main statement**: `Decimal.grouped_by_thousands`.
-/

namespace Starfilm

namespace Decimal

/-- The groups of a count: the first of one to three digits, the others of three. -/
structure IsGrouping (first : List Char) (others : List (List Char)) : Prop where
  one_le_length : 1 ≤ first.length
  length_le : first.length ≤ 3
  length_of_mem : ∀ g ∈ others, g.length = 3
  isDigit_of_mem : ∀ g ∈ first :: others, ∀ c ∈ g, c.isDigit = true

/-- The count that a text with commas stands for: they are passed over. -/
def ungrouped (text : String) : ℕ := ofDigits (text.toList.filter (· != ','))

/-! ## Groups -/

/-- Groups with a comma before each but the first. -/
theorem append_flatMap_comma (first : List Char) (others : List (List Char)) :
    first ++ others.flatMap (',' :: ·) = [','].intercalate (first :: others) := by
  induction others generalizing first with
  | nil => simp
  | cons g others ih =>
    rw [List.flatMap_cons, List.cons_append, ih, List.intercalate_cons_cons, List.append_assoc]
    rfl

/-- **Digits from the left are groups from the end**: what is over of three digits each comes
first. -/
theorem exists_groupTail (ds : List Char) :
    ∃ (first : List Char) (others : List (List Char)),
      groupTail ds = first ++ others.flatMap (',' :: ·) ∧ first ++ others.flatten = ds ∧
        first.length = ds.length % 3 ∧ ∀ g ∈ others, g.length = 3 := by
  induction ds with
  | nil => exact ⟨[], [], rfl, rfl, rfl, by simp⟩
  | cons d ds ih =>
    obtain ⟨first, others, htail, hds, hfirst, hothers⟩ := ih
    have hlength : (d :: ds).length = ds.length + 1 := rfl
    rw [groupTail, htail]
    split_ifs with hfull
    · -- the digit fills up the beginning to a group of its own
      refine ⟨[], (d :: first) :: others, rfl, ?_, hfull.symm, List.forall_mem_cons.2 ⟨?_, hothers⟩⟩
      · rw [List.nil_append, List.flatten_cons, List.cons_append, hds]
      · rw [List.length_cons]
        omega
    · refine ⟨d :: first, others, rfl, ?_, ?_, hothers⟩
      · rw [List.cons_append, hds]
      · rw [List.length_cons]
        omega

theorem exists_group {ds : List Char} (hne : ds ≠ []) (hdigits : ∀ c ∈ ds, c.isDigit = true) :
    ∃ first others, IsGrouping first others ∧ group ds = [','].intercalate (first :: others) ∧
      first ++ others.flatten = ds := by
  cases ds with
  | nil => exact absurd rfl hne
  | cons d ds =>
    obtain ⟨first, others, htail, hds, hfirst, hothers⟩ := exists_groupTail ds
    have hwhole : d :: first ++ others.flatten = d :: ds := by rw [List.cons_append, hds]
    refine ⟨d :: first, others, ⟨?_, ?_, hothers, fun g hg c hc => hdigits c ?_⟩, ?_, hwhole⟩
    · exact Nat.succ_pos _
    · rw [List.length_cons]
      omega
    · rw [← hwhole, ← List.flatten_cons]
      exact List.mem_flatten_of_mem hg hc
    · rw [group, htail, ← List.cons_append, append_flatMap_comma]

/-! ## Commas -/

theorem filter_groupTail {ds : List Char} (h : ∀ c ∈ ds, c ≠ ',') :
    (groupTail ds).filter (· != ',') = ds := by
  induction ds with
  | nil => rfl
  | cons d ds ih =>
    obtain ⟨hd, hds⟩ := List.forall_mem_cons.1 h
    rw [groupTail]
    split_ifs <;> simp [hd, ih hds]

/-- Nothing but commas is put in. -/
theorem filter_group {ds : List Char} (h : ∀ c ∈ ds, c ≠ ',') :
    (group ds).filter (· != ',') = ds := by
  cases ds with
  | nil => rfl
  | cons d ds =>
    obtain ⟨hd, hds⟩ := List.forall_mem_cons.1 h
    have htail := filter_groupTail hds
    simp [group, hd, htail]

theorem head?_group (ds : List Char) : (group ds).head? = ds.head? := by
  cases ds <;> rfl

theorem getLast?_groupTail (ds : List Char) : (groupTail ds).getLast? = ds.getLast? := by
  induction ds with
  | nil => rfl
  | cons d ds ih =>
    rw [groupTail]
    split_ifs <;> simp only [List.getLast?_cons, ih, Option.getD_some]

theorem getLast?_group (ds : List Char) : (group ds).getLast? = ds.getLast? := by
  cases ds with
  | nil => rfl
  | cons d ds => simp only [group, List.getLast?_cons, getLast?_groupTail]

/-! ## Counts -/

theorem isDigit_of_mem_digits {n : ℕ} {c : Char} (h : c ∈ digits n) : c.isDigit = true :=
  Nat.isDigit_of_mem_toDigits (by decide) (Nat.le_refl 10) h

theorem ne_comma_of_mem_digits {n : ℕ} {c : Char} (h : c ∈ digits n) : c ≠ ',' := by
  rintro rfl
  exact absurd (isDigit_of_mem_digits h) (by decide)

theorem toList_grouped (n : ℕ) : (grouped n).toList = group (digits n) := String.toList_ofList

theorem filter_grouped (n : ℕ) : (grouped n).toList.filter (· != ',') = digits n := by
  rw [toList_grouped]
  exact filter_group fun c => ne_comma_of_mem_digits

theorem ofDigits_digits (n : ℕ) : ofDigits (digits n) = n := Nat.ofDigitChars_ten_toDigits

theorem ungrouped_grouped (n : ℕ) : ungrouped (grouped n) = n := by
  rw [ungrouped, filter_grouped, ofDigits_digits]

/-- **Counts are written by thousands**: groups of digits with single commas between them, the first
of one to three digits and the others of three. No comma stands at either end, and without the
commas it is the decimal text of the count. So counts can be read back, and different ones are
written differently. -/
theorem grouped_by_thousands :
    (∀ n, ∃ first others, IsGrouping first others ∧
        (grouped n).toList = [','].intercalate (first :: others) ∧
        first ++ others.flatten = (toString n).toList) ∧
      (∀ n, (grouped n).toList.head? ≠ some ',' ∧ (grouped n).toList.getLast? ≠ some ',') ∧
      (∀ n, (grouped n).toList.filter (· != ',') = (toString n).toList) ∧
      Function.LeftInverse ungrouped grouped ∧ Function.Injective grouped := by
  have hinverse : Function.LeftInverse ungrouped grouped := ungrouped_grouped
  have htext (n : ℕ) : (toString n).toList = digits n := Nat.toList_repr
  refine ⟨fun n => ?_, fun n => ?_, fun n => ?_, hinverse, hinverse.injective⟩
  · rw [toList_grouped, htext]
    exact exists_group Nat.toDigits_ne_nil fun c => isDigit_of_mem_digits
  · rw [toList_grouped, head?_group, getLast?_group]
    exact ⟨fun h => ne_comma_of_mem_digits (List.mem_of_head? h) rfl,
      fun h => ne_comma_of_mem_digits (List.mem_of_getLast? h) rfl⟩
  · rw [filter_grouped, htext]

example : grouped 1234567 = "1,234,567" := by decide

end Decimal

end Starfilm
