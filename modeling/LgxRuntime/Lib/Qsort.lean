import Mathlib.Data.Int.Notation
import Mathlib.Data.List.Perm.Basic
import Mathlib.Tactic.Common

/-!
# `qsort`

`qsort` sorts an array by a comparison function that returns a negative number, zero or a positive number.
The standard leaves the order of elements that compare equal to the implementation.
-/

/-- A comparison function is consistent if it orders its elements, up to elements that compare equal. -/
structure Consistent {α : Type*} (cmp : α → α → ℤ) : Prop where
  total : ∀ a b, cmp a b ≤ 0 ∨ cmp b a ≤ 0
  trans : ∀ a b c, cmp a b ≤ 0 → cmp b c ≤ 0 → cmp a c ≤ 0

/-- An implementation of `qsort`. -/
structure Qsort (α : Type*) where
  sort : (α → α → ℤ) → List α → List α
  perm : ∀ cmp l, (sort cmp l).Perm l
  sorted : ∀ cmp l, Consistent cmp → (sort cmp l).Pairwise fun a b => cmp a b ≤ 0

namespace Qsort

/-- The implementation by merge sort. -/
def mergeSort {α : Type*} : Qsort α where
  sort cmp l := l.mergeSort fun a b => cmp a b ≤ 0
  perm cmp l := List.mergeSort_perm l _
  sorted cmp l h := by
    have hsorted : (l.mergeSort fun a b => cmp a b ≤ 0).Pairwise _ := List.pairwise_mergeSort
      (fun a b c hab hbc => by simpa using h.trans a b c (by simpa using hab) (by simpa using hbc))
      (fun a b => by simpa using h.total a b) l
    simpa using hsorted

end Qsort
