import Mathlib.Algebra.BigOperators.Group.Finset.Piecewise
import Mathlib.Algebra.BigOperators.Group.Finset.Sigma
import Mathlib.Algebra.Order.Ring.Nat

/-!
# Rolling windows

The last `n` values of a history are kept in `n` slots.  A new value goes to the slot `next` of the oldest
one, and `next` moves on by one, around the end.  A history is a list with its last value at the head; as
long as it is shorter than `n`, the other slots hold a value that stands for nothing.

The sum of the slots follows every new value, without the other slots being looked at.
-/

namespace RollingWindow

open Function (update update_self update_of_ne)

variable {α : Type*} {n next age : ℕ} {empty x : α} {entries : ℕ → α} {history : List α}

/-- The slot of the value that is followed by `age` others. -/
def slot (n next age : ℕ) : ℕ :=
  (next + (n - 1 - age)) % n

/-- The slots hold the last `n` values. -/
structure Holds (n : ℕ) (empty : α) (entries : ℕ → α) (next : ℕ) (history : List α) : Prop where
  next_lt : next < n
  entry : ∀ age < n, entries (slot n next age) = history.getD age empty

/-! ## Slots -/

theorem slot_lt (hage : age < n) : slot n next age < n :=
  Nat.mod_lt _ (Nat.zero_lt_of_lt hage)

/-- The values are found backwards from `next`, around the start. -/
theorem slot_eq (hnext : next < n) (hage : age < n) :
    slot n next age = if next ≤ age then next + (n - 1 - age) else next - 1 - age := by
  unfold slot
  split
  · exact Nat.mod_eq_of_lt (by omega)
  · have heq : next + (n - 1 - age) = next - 1 - age + n := by omega
    rw [heq, Nat.add_mod_right]
    exact Nat.mod_eq_of_lt (by omega)

theorem succ_mod_eq (hnext : next < n) : (next + 1) % n = if next + 1 = n then 0 else next + 1 := by
  split
  · rename_i heq
    rw [heq, Nat.mod_self]
  · exact Nat.mod_eq_of_lt (by omega)

/-- The last value is where `next` was. -/
theorem slot_newest (hnext : next < n) : slot n ((next + 1) % n) 0 = next := by
  rw [slot_eq (Nat.mod_lt _ (Nat.zero_lt_of_lt hnext)) (Nat.zero_lt_of_lt hnext), succ_mod_eq hnext]
  split <;> split <;> omega

/-- The other values age by one. -/
theorem slot_succ (hnext : next < n) (hage : age + 1 < n) :
    slot n ((next + 1) % n) (age + 1) = slot n next age := by
  rw [slot_eq (Nat.mod_lt _ (Nat.zero_lt_of_lt hnext)) hage, slot_eq hnext (Nat.lt_of_succ_lt hage),
    succ_mod_eq hnext]
  split <;> split <;> split <;> omega

theorem slot_ne_next (hnext : next < n) (hage : age + 1 < n) : slot n next age ≠ next := by
  rw [slot_eq hnext (Nat.lt_of_succ_lt hage)]
  split <;> omega

/-- Different values are in different slots. -/
theorem slot_injective {age₁ age₂ : ℕ} (hnext : next < n) (h₁ : age₁ < n) (h₂ : age₂ < n)
    (heq : slot n next age₁ = slot n next age₂) : age₁ = age₂ := by
  rw [slot_eq hnext h₁, slot_eq hnext h₂] at heq
  split at heq <;> split at heq <;> omega

/-! ## Values -/

/-- Nothing has come yet. -/
theorem Holds.nil (hpos : 0 < n) : Holds n empty (fun _ => empty) 0 [] :=
  ⟨hpos, fun _ _ => rfl⟩

/-- A new value replaces the oldest one. -/
theorem Holds.push (h : Holds n empty entries next history) (x : α) :
    Holds n empty (update entries next x) ((next + 1) % n) (x :: history) := by
  refine ⟨Nat.mod_lt _ (Nat.zero_lt_of_lt h.next_lt), fun age hage => ?_⟩
  cases age with
  | zero => rw [slot_newest h.next_lt, update_self, List.getD_cons_zero]
  | succ age =>
      have hne : slot n next age ≠ next := slot_ne_next h.next_lt hage
      rw [slot_succ h.next_lt hage, update_of_ne hne, List.getD_cons_succ]
      exact h.entry age (Nat.lt_of_succ_lt hage)

/-! ## Sums -/

variable [AddCommMonoid α]

/-- The sum loses the value that leaves and gets the one that enters. -/
theorem sum_push (entries : ℕ → α) (x : α) (hnext : next < n) :
    ∑ i ∈ Finset.range n, update entries next x i + entries next =
      ∑ i ∈ Finset.range n, entries i + x := by
  have hmem : next ∈ Finset.range n := Finset.mem_range.mpr hnext
  rw [Finset.sum_update_of_mem hmem, ← Finset.sum_sdiff (Finset.singleton_subset_iff.mpr hmem) (f := entries),
    Finset.sum_singleton]
  ac_rfl

theorem sum_getD_eq (history : List α) (n : ℕ) :
    ∑ age ∈ Finset.range n, history.getD age 0 = (history.take n).sum := by
  induction history generalizing n with
  | nil => simp
  | cons x history ih =>
      cases n with
      | zero => rfl
      | succ n =>
          rw [Finset.sum_range_succ', List.take_succ_cons, List.sum_cons, ← ih, add_comm]
          rfl

/-- The sum of the slots is the sum of the last values. -/
theorem Holds.sum_eq (h : Holds n (0 : α) entries next history) :
    ∑ i ∈ Finset.range n, entries i = (history.take n).sum := by
  have hmaps : Set.MapsTo (slot n next) (Finset.range n) (Finset.range n) := by
    intro age hage
    exact Finset.mem_range.mpr (slot_lt (Finset.mem_range.mp hage))
  have hinj : Set.InjOn (slot n next) (Finset.range n) := by
    intro age₁ h₁ age₂ h₂ heq
    exact slot_injective h.next_lt (Finset.mem_range.mp h₁) (Finset.mem_range.mp h₂) heq
  have hbij : (Finset.range n).image (slot n next) = Finset.range n :=
    Finset.eq_of_subset_of_card_le (Finset.image_subset_iff.mpr hmaps)
      (Finset.card_image_of_injOn hinj).ge
  calc ∑ i ∈ Finset.range n, entries i
      = ∑ i ∈ (Finset.range n).image (slot n next), entries i := by rw [hbij]
    _ = ∑ age ∈ Finset.range n, entries (slot n next age) := Finset.sum_image hinj
    _ = ∑ age ∈ Finset.range n, history.getD age 0 :=
        Finset.sum_congr rfl fun age hage => h.entry age (Finset.mem_range.mp hage)
    _ = (history.take n).sum := sum_getD_eq history n

end RollingWindow
