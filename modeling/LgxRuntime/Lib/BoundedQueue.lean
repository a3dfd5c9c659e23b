import Mathlib.Algebra.Order.Ring.Nat
import Mathlib.Data.List.Induction
import Mathlib.Data.Nat.ModEq
import Mathlib.Tactic.Common

/-!
# Bounded queues

A queue of at most `size` elements.  An element that is offered to a full queue takes the place of the
oldest one, or is dropped: the queue holds the last elements that were offered, or the first ones.  A ring of
`size` slots holds the queue in the slots from its tail on.
-/

namespace BoundedQueue

variable {α : Type*} {size : ℕ}

/-- The oldest element makes room. -/
def replaceOldest (size : ℕ) (queue : List α) (x : α) : List α :=
  if queue.length < size then queue ++ [x] else queue.tail ++ [x]

/-- There is no room for the new element. -/
def dropNewest (size : ℕ) (queue : List α) (x : α) : List α :=
  if queue.length < size then queue ++ [x] else queue

theorem foldl_replaceOldest (hsize : 0 < size) (xs : List α) :
    xs.foldl (replaceOldest size) [] = xs.drop (xs.length - size) := by
  induction xs using List.reverseRecOn with
  | nil => rw [List.foldl_nil, List.drop_nil]
  | append_singleton xs x ih =>
      rw [List.foldl_append, ih, List.foldl_cons, List.foldl_nil, replaceOldest, List.length_drop,
        List.length_append, List.length_singleton]
      by_cases hroom : xs.length < size
      · rw [if_pos (by omega), Nat.sub_eq_zero_of_le hroom.le, Nat.sub_eq_zero_of_le hroom]
        rfl
      · rw [if_neg (by omega), List.tail_drop, List.drop_append_of_le_length (by omega)]
        congr 2
        omega

theorem foldl_dropNewest (xs : List α) : xs.foldl (dropNewest size) [] = xs.take size := by
  induction xs using List.reverseRecOn with
  | nil => rw [List.foldl_nil, List.take_nil]
  | append_singleton xs x ih =>
      rw [List.foldl_append, ih, List.foldl_cons, List.foldl_nil, dropNewest, List.length_take]
      by_cases hroom : xs.length < size
      · rw [if_pos (by omega), List.take_of_length_le hroom.le, List.take_of_length_le]
        rw [List.length_append]
        exact hroom
      · rw [if_neg (by omega), List.take_append_of_le_length (not_lt.mp hroom)]

/-- Of the elements that are offered to a queue, those at the front are taken that there is room for. -/
theorem foldl_dropNewest_eq {queue : List α} (hle : queue.length ≤ size) (xs : List α) :
    xs.foldl (dropNewest size) queue = queue ++ xs.take (size - queue.length) := by
  induction xs generalizing queue with
  | nil => rw [List.foldl_nil, List.take_nil, List.append_nil]
  | cons x xs ih =>
      rw [List.foldl_cons, dropNewest]
      by_cases hroom : queue.length < size
      · have hrest : size - queue.length = size - (queue ++ [x]).length + 1 := by
          rw [List.length_append, List.length_singleton]
          omega
        rw [if_pos hroom, ih (by rw [List.length_append]; exact hroom), hrest, List.take_succ_cons, List.append_assoc]
        rfl
      · have hfull : size - queue.length = 0 := Nat.sub_eq_zero_of_le (not_lt.mp hroom)
        rw [if_neg hroom, ih hle, hfull, List.take_zero, List.take_zero]

/-- In a full queue, the two differ, unless the new element is like all others. -/
theorem tail_append_eq_self_iff {queue : List α} {x : α} (hne : queue ≠ []) :
    queue.tail ++ [x] = queue ↔ ∀ y ∈ queue, y = x := by
  induction queue with
  | nil => exact absurd rfl hne
  | cons a queue ih =>
      cases queue with
      | nil => simp [eq_comm]
      | cons b queue =>
          have hih := ih (List.cons_ne_nil b queue)
          rw [List.tail_cons] at hih
          rw [List.tail_cons, List.cons_append, List.cons_eq_cons, hih]
          simp only [List.forall_mem_cons]
          constructor
          · rintro ⟨rfl, hb, hrest⟩
            exact ⟨hb, hb, hrest⟩
          · rintro ⟨rfl, rfl, hrest⟩
            exact ⟨rfl, rfl, hrest⟩

theorem dropNewest_eq_replaceOldest_iff (hsize : 0 < size) {queue : List α} (hle : queue.length ≤ size) {x : α} :
    dropNewest size queue x = replaceOldest size queue x ↔ (queue.length = size → ∀ y ∈ queue, y = x) := by
  unfold dropNewest replaceOldest
  by_cases hroom : queue.length < size
  · simp [hroom, hroom.ne]
  · have hfull : queue.length = size := by omega
    have hne : queue ≠ [] := List.ne_nil_of_length_pos (by omega)
    rw [if_neg hroom, if_neg hroom, eq_comm, tail_append_eq_self_iff hne]
    simp [hfull]

theorem length_replaceOldest_le (hsize : 0 < size) {queue : List α} (hle : queue.length ≤ size) (x : α) :
    (replaceOldest size queue x).length ≤ size := by
  unfold replaceOldest
  split_ifs with hroom
  · rw [List.length_append, List.length_singleton]
    exact hroom
  · rw [List.length_append, List.length_tail, List.length_singleton]
    omega

/-! ## Rings -/

/-- The slots from the tail on hold the queue. -/
structure Holds (buffer : List α) (tail : ℕ) (queue : List α) : Prop where
  le : queue.length ≤ buffer.length
  tail_lt : tail < buffer.length
  slots : ∀ i < queue.length, buffer[(tail + i) % buffer.length]? = queue[i]?

variable {buffer queue : List α} {tail : ℕ} {x : α}

/-- Different elements of a queue are in different slots. -/
theorem slot_ne {n i j : ℕ} (hij : i < j) (hj : j < n) : (tail + i) % n ≠ (tail + j) % n := by
  intro heq
  have hmod : i % n = j % n := Nat.ModEq.add_left_cancel' tail heq
  rw [Nat.mod_eq_of_lt (hij.trans hj), Nat.mod_eq_of_lt hj] at hmod
  omega

/-- A new element goes to the slot after the last one. -/
theorem Holds.push (h : Holds buffer tail queue) (hroom : queue.length < buffer.length) :
    Holds (buffer.set ((tail + queue.length) % buffer.length) x) tail (queue ++ [x]) := by
  have hslot : (tail + queue.length) % buffer.length < buffer.length := Nat.mod_lt _ (by omega)
  refine ⟨?_, ?_, fun i hi => ?_⟩
  · rw [List.length_append, List.length_set]
    exact hroom
  · rw [List.length_set]
    exact h.tail_lt
  · rw [List.length_append, List.length_singleton] at hi
    rw [List.length_set]
    by_cases hlast : i = queue.length
    · rw [hlast, List.getElem?_set_self hslot, List.getElem?_append_right (le_refl _), Nat.sub_self]
      rfl
    · rw [List.getElem?_set_ne (slot_ne (by omega) hroom).symm, List.getElem?_append_left (by omega)]
      exact h.slots i (by omega)

/-- The oldest element is at the tail. -/
theorem Holds.pop (h : Holds buffer tail queue) :
    Holds buffer ((tail + 1) % buffer.length) queue.tail := by
  refine ⟨?_, Nat.mod_lt _ (Nat.zero_le tail |>.trans_lt h.tail_lt), fun i hi => ?_⟩
  · rw [List.length_tail]
    exact (Nat.sub_le ..).trans h.le
  · rw [List.length_tail] at hi
    have hslot : ((tail + 1) % buffer.length + i) % buffer.length = (tail + (i + 1)) % buffer.length := by
      rw [Nat.mod_add_mod, Nat.add_assoc, Nat.add_comm 1]
    rw [hslot, h.slots (i + 1) (by omega), List.getElem?_tail]

/-- The elements, read off the ring. -/
theorem Holds.map_range (h : Holds buffer tail queue) :
    (List.range queue.length).map (fun i => buffer[(tail + i) % buffer.length]?) = queue.map some := by
  refine List.ext_getElem? fun i => ?_
  rw [List.getElem?_map, List.getElem?_map]
  rcases Nat.lt_or_ge i queue.length with hi | hi
  · rw [List.getElem?_range hi, Option.map_some, h.slots i hi, List.getElem?_eq_getElem hi]
    rfl
  · rw [List.getElem?_eq_none (by rwa [List.length_range]), List.getElem?_eq_none hi]
    rfl

end BoundedQueue
