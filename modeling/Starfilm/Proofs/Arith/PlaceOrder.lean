import Mathlib.Data.List.Sort
import Mathlib.Tactic.NormNum
import Starfilm.Arith.Double

/-!
# The order of places

`Arith.totalLe` is meant to put every value in a place of its own, those that are no number
included. `PlaceOrder` says that it does, and that is all that sorting needs: a list sorted by
places depends on nothing but how often each value occurs in it (`mergeSort_eq_of_perm`).

For double precision numbers the place of a pattern is an integer, and no two patterns share one
(`Double.placeKey_injective`). In particular `0` and `-0`, which are equal in value, have places of
their own.
-/

namespace Starfilm

open Arith

/-- The order of representations is a linear order: what has the same place is the same. -/
class PlaceOrder (F : Type) [Arith F] : Prop where
  trans (a b c : F) : totalLe a b → totalLe b c → totalLe a c
  total (a b : F) : totalLe a b || totalLe b a
  antisymm (a b : F) : totalLe a b → totalLe b a → a = b

/-- An order that compares keys, of which no two values share one. -/
theorem PlaceOrder.ofKey {F L : Type} [Arith F] [LinearOrder L] {key : F → L}
    (hinj : Function.Injective key) (hkey : ∀ a b : F, totalLe a b = true ↔ key a ≤ key b) :
    PlaceOrder F where
  trans a b c hab hbc := (hkey a c).2 (((hkey a b).1 hab).trans ((hkey b c).1 hbc))
  total a b := by
    rw [Bool.or_eq_true, hkey, hkey]
    exact le_total _ _
  antisymm a b hab hba := hinj (le_antisymm ((hkey a b).1 hab) ((hkey b a).1 hba))

/-! ## Sorting -/

section Sorting

variable {F : Type} [Arith F] [PlaceOrder F]

theorem pairwise_mergeSort_totalLe (xs : List F) :
    (xs.mergeSort totalLe).Pairwise fun a b => totalLe a b = true :=
  List.pairwise_mergeSort PlaceOrder.trans PlaceOrder.total xs

/-- Sorting by places finds the one ascending order. -/
theorem mergeSort_totalLe_eq {xs v : List F} (h : xs.Perm v)
    (hv : v.Pairwise fun a b => totalLe a b = true) : xs.mergeSort totalLe = v :=
  ((List.mergeSort_perm xs totalLe).trans h).eq_of_pairwise
    (fun a b _ _ => PlaceOrder.antisymm a b) (pairwise_mergeSort_totalLe xs) hv

/-- **Sorting by places forgets the order in which the values came.** -/
theorem mergeSort_eq_of_perm {xs ys : List F} (h : xs.Perm ys) :
    xs.mergeSort totalLe = ys.mergeSort totalLe :=
  mergeSort_totalLe_eq (h.trans (List.mergeSort_perm ys totalLe).symm)
    (pairwise_mergeSort_totalLe ys)

end Sorting

/-! ## Double precision -/

namespace Double

theorem magnitude_eq_mod (x : Double) : x.magnitude = x.bits.toNat % 2 ^ 63 := by
  rw [magnitude, UInt64.toNat_and]
  exact Nat.and_two_pow_sub_one_eq_mod x.bits.toNat 63

theorem toNat_signBit (x : Double) : (x.bits >>> 63).toNat = x.bits.toNat / 2 ^ 63 := by
  rw [UInt64.toNat_shiftRight, Nat.shiftRight_eq_div_pow]
  rfl

theorem negative_iff (x : Double) : x.negative = true ↔ 2 ^ 63 ≤ x.bits.toNat := by
  rw [negative, bne_iff_ne, ne_eq, ← UInt64.toNat_inj, toNat_signBit, UInt64.toNat_zero]
  omega

/-- **No two patterns share a place**: the place of a pattern tells its sign and its magnitude. -/
theorem placeKey_injective : Function.Injective placeKey := by
  intro x y h
  have hx := x.bits.toNat_lt
  have hy := y.bits.toNat_lt
  have key : x.bits.toNat = y.bits.toNat := by
    unfold placeKey at h
    rw [magnitude_eq_mod, magnitude_eq_mod] at h
    split_ifs at h with hnx hny hny <;> rw [negative_iff] at hnx hny <;> omega
  obtain ⟨b⟩ := x
  obtain ⟨c⟩ := y
  exact congrArg Double.mk (UInt64.toNat_inj.1 key)

instance : PlaceOrder Double := .ofKey placeKey_injective fun _ _ => decide_eq_true_iff

/-- The two zeros are equal in value and lie next to each other in the order of places. -/
example : eqv (⟨0x8000000000000000⟩ : Double) ⟨0⟩ = true ∧
    placeKey ⟨0x8000000000000000⟩ + 1 = placeKey ⟨0⟩ := by decide

end Double

end Starfilm
