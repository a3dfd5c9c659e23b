import Mathlib.Data.List.Perm.Basic
import Mathlib.Data.List.ReduceOption
import Mathlib.Tactic.Common

/-!
# Tables of slots

A table is a list of slots, each of which is free or holds an element.  A new element goes to the first free
slot, and an element is taken out of the first slot whose element has a property.  Whatever the slots are, the
elements in them are those that were put in and not taken out.
-/

namespace SlotTable

variable {α : Type*} {slots : List (Option α)} {i : ℕ} {x : α} {p : α → Bool}

theorem perm_set_some (h : slots[i]? = some none) :
    (slots.set i (some x)).reduceOption.Perm (x :: slots.reduceOption) := by
  induction slots generalizing i with
  | nil => simp at h
  | cons slot slots ih =>
      cases i with
      | zero =>
          obtain rfl : slot = none := by simpa using h
          exact List.Perm.refl _
      | succ i =>
          have hset := ih (i := i) (by simpa using h)
          cases slot with
          | none => exact hset
          | some y => exact (hset.cons y).trans (List.Perm.swap x y _)

theorem perm_set_none (h : slots[i]? = some (some x)) :
    slots.reduceOption.Perm (x :: (slots.set i none).reduceOption) := by
  induction slots generalizing i with
  | nil => simp at h
  | cons slot slots ih =>
      cases i with
      | zero =>
          obtain rfl : slot = some x := by simpa using h
          exact List.Perm.refl _
      | succ i =>
          have hset := ih (i := i) (by simpa using h)
          cases slot with
          | none => exact hset
          | some y => exact (hset.cons y).trans (List.Perm.swap x y _)

/-! ## The first slot -/

theorem getElem?_of_findIdx?_isNone (h : slots.findIdx? Option.isNone = some i) : slots[i]? = some none := by
  obtain ⟨hlt, hnone, -⟩ := List.findIdx?_eq_some_iff_getElem.mp h
  rw [List.getElem?_eq_getElem hlt, Option.isNone_iff_eq_none.mp hnone]

theorem findIdx?_isNone_eq_none_iff :
    slots.findIdx? Option.isNone = none ↔ slots.reduceOption.length = slots.length := by
  rw [List.findIdx?_eq_none_iff, List.reduceOption_length_eq_iff]
  simp

theorem getElem?_of_findIdx?_any (h : slots.findIdx? (fun slot => slot.any p) = some i) :
    ∃ x, slots[i]? = some (some x) ∧ p x := by
  obtain ⟨hlt, hany, -⟩ := List.findIdx?_eq_some_iff_getElem.mp h
  obtain ⟨x, hx, hp⟩ := (Option.any_eq_true ..).mp hany
  exact ⟨x, by rw [List.getElem?_eq_getElem hlt, hx], hp⟩

theorem findIdx?_any_eq_none_iff :
    slots.findIdx? (fun slot => slot.any p) = none ↔ ∀ x ∈ slots.reduceOption, p x = false := by
  rw [List.findIdx?_eq_none_iff]
  constructor
  · intro h x hx
    exact h _ (List.reduceOption_mem_iff.mp hx)
  · intro h slot hslot
    cases slot with
    | none => rfl
    | some x => exact h x (List.reduceOption_mem_iff.mpr hslot)

end SlotTable
