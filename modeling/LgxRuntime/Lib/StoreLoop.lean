import Mathlib.Data.List.Basic
import Mathlib.Tactic.Common

/-!
# Store loops

A loop that writes the values `value 0`, `value 1`, … to the places `place 0`, `place 1`, … of a buffer.
-/

namespace StoreLoop

variable {α : Type*} {n count p j i stop : ℕ} {place : ℕ → ℕ} {value : ℕ → α} {buffer : Vector α n}

def store (place : ℕ → ℕ) (value : ℕ → α) (count : ℕ) (buffer : Vector α n) : Vector α n :=
  (List.range count).foldl (fun buffer j => buffer.setIfInBounds (place j) (value j)) buffer

theorem store_succ :
    store place value (count + 1) buffer =
      (store place value count buffer).setIfInBounds (place count) (value count) := by
  rw [store, List.range_succ, List.foldl_append]
  rfl

/-- A place that the loop does not write. -/
theorem getElem?_store_of_ne (hne : ∀ j < count, place j ≠ p) :
    (store place value count buffer)[p]? = buffer[p]? := by
  induction count with
  | zero => rfl
  | succ count ih =>
      rw [store_succ, Vector.getElem?_setIfInBounds_ne (hne count (by omega))]
      exact ih fun j hj => hne j (by omega)

/-- A place that the loop writes, once. -/
theorem getElem?_store (hinj : ∀ a < count, ∀ b < count, place a = place b → a = b) (hj : j < count)
    (hplace : place j < n) : (store place value count buffer)[place j]? = some (value j) := by
  induction count with
  | zero => omega
  | succ count ih =>
      rw [store_succ]
      by_cases hlast : j = count
      · rw [hlast] at hplace ⊢
        exact Vector.getElem?_setIfInBounds_self_of_lt hplace
      · rw [Vector.getElem?_setIfInBounds_ne fun heq => hlast (hinj j (by omega) count (by omega) heq.symm)]
        exact ih (fun a ha b hb => hinj a (by omega) b (by omega)) (by omega)

/-- A loop that writes the places from `i` on. -/
theorem toList_store_add (hstop : i + count ≤ n) :
    (store (fun j => i + j) value count buffer).toList =
      buffer.toList.take i ++ (List.range count).map value ++ buffer.toList.drop (i + count) := by
  refine List.ext_getElem? fun p => ?_
  have htake : (buffer.toList.take i).length = i := by
    rw [List.length_take, Vector.length_toList]
    omega
  have hmap : ((List.range count).map value).length = count := by rw [List.length_map, List.length_range]
  rw [Vector.getElem?_toList]
  rcases Nat.lt_or_ge p i with hbefore | hfrom
  · rw [getElem?_store_of_ne fun j _ => by omega, List.append_assoc, List.getElem?_append_left (by omega),
      List.getElem?_take_of_lt hbefore, Vector.getElem?_toList]
  · obtain ⟨j, rfl⟩ := Nat.exists_eq_add_of_le hfrom
    rcases Nat.lt_or_ge j count with hin | hafter
    · rw [@getElem?_store _ _ _ _ (fun j => i + j) _ _ (fun a _ b _ h => Nat.add_left_cancel h) hin (by omega),
        List.append_assoc, List.getElem?_append_right (by omega), List.getElem?_append_left (by omega), htake,
        Nat.add_sub_cancel_left, List.getElem?_map, List.getElem?_range hin]
      rfl
    · rw [getElem?_store_of_ne fun k _ => by omega, List.getElem?_append_right (by
          rw [List.length_append]
          omega), List.length_append, htake, hmap, List.getElem?_drop, Vector.getElem?_toList]
      congr 1
      omega

end StoreLoop
