import Mathlib.Data.List.Sort
import Mathlib.Order.Monotone.Defs

/-!
# Sorting numbers

A list of numbers has one ascending order (`mergeSort_eq_of_pairwise`). So sorting goes along with a
rising function, and with a falling one it is turned around.
-/

namespace Starfilm

variable {L : Type} [LinearOrder L]

theorem mergeSort_ne_nil {xs : List L} (h : xs ≠ []) : xs.mergeSort (· ≤ ·) ≠ [] := by
  rwa [Ne, ← List.length_eq_zero_iff, List.length_mergeSort, List.length_eq_zero_iff]

/-- Sorting finds the one ascending order. -/
theorem mergeSort_eq_of_pairwise {xs v : List L} (h : xs.Perm v) (hv : v.Pairwise (· ≤ ·)) :
    xs.mergeSort (· ≤ ·) = v :=
  ((List.mergeSort_perm xs _).trans h).eq_of_pairwise (fun _ _ _ _ => le_antisymm)
    (List.pairwise_mergeSort' (· ≤ ·) xs) hv

theorem mergeSort_map_of_monotone {f : L → L} (hf : Monotone f) (xs : List L) :
    (xs.map f).mergeSort (· ≤ ·) = (xs.mergeSort (· ≤ ·)).map f := by
  apply mergeSort_eq_of_pairwise ((List.mergeSort_perm xs _).symm.map f)
  exact (List.pairwise_mergeSort' (· ≤ ·) xs).map f fun _ _ h => hf h

theorem mergeSort_map_of_antitone {f : L → L} (hf : Antitone f) (xs : List L) :
    (xs.map f).mergeSort (· ≤ ·) = ((xs.mergeSort (· ≤ ·)).map f).reverse := by
  apply mergeSort_eq_of_pairwise
  · exact ((List.mergeSort_perm xs _).symm.map f).trans (List.reverse_perm _).symm
  · rw [List.pairwise_reverse]
    exact (List.pairwise_mergeSort' (· ≤ ·) xs).map f fun _ _ h => hf h

end Starfilm
