import Mathlib.Algebra.BigOperators.Group.List.Basic
import Mathlib.Data.List.Basic

/-!
# Since and always

A history is a list of events, the last one at its end.  `Since P Q` says that an event with `P` has
happened, and that every event after it has `Q`; `P` may look at the events before.  Whether this holds is
decided by the last event and by whether it held before.  `Always P` says that every event has `P`, and `total f`
is what `f` comes to over all events.
-/

namespace History

variable {Event : Type*}

/-- An event with `P` has happened, and all events since then have `Q`. -/
def Since (P : List Event → Event → Prop) (Q : Event → Prop) (events : List Event) : Prop :=
  ∃ before e after, events = before ++ e :: after ∧ P before e ∧ ∀ e' ∈ after, Q e'

variable {P : List Event → Event → Prop} {Q : Event → Prop} {events : List Event} {e : Event}

theorem not_since_nil : ¬ Since P Q [] := by
  rintro ⟨before, e, after, h, -⟩
  simp at h

/-- It has just happened, or it held before and is not ended. -/
theorem since_concat : Since P Q (events ++ [e]) ↔ P events e ∨ Since P Q events ∧ Q e := by
  constructor
  · rintro ⟨before, e', after, h, hP, hQ⟩
    obtain rfl | ⟨after, last, rfl⟩ := List.eq_nil_or_concat after
    · obtain ⟨rfl, rfl⟩ := List.append_singleton_inj.mp h
      exact Or.inl hP
    · rw [List.concat_eq_append, ← List.cons_append, ← List.append_assoc] at h
      obtain ⟨rfl, rfl⟩ := List.append_singleton_inj.mp h
      simp only [List.concat_eq_append, List.forall_mem_append, List.forall_mem_singleton] at hQ
      exact Or.inr ⟨⟨before, e', after, rfl, hP, hQ.1⟩, hQ.2⟩
  · rintro (hP | ⟨⟨before, e', after, rfl, hP, hQ⟩, hlast⟩)
    · exact ⟨events, e, [], rfl, hP, by simp⟩
    · refine ⟨before, e', after ++ [e], by simp, hP, ?_⟩
      simp only [List.forall_mem_append, List.forall_mem_singleton]
      exact ⟨hQ, hlast⟩

/-- Every event has `P`. -/
def Always (P : List Event → Event → Prop) (events : List Event) : Prop :=
  ∀ before e after, events = before ++ e :: after → P before e

theorem always_nil : Always P [] := by
  intro before e after h
  simp at h

/-- It has held so far, and the last event has it. -/
theorem always_concat : Always P (events ++ [e]) ↔ Always P events ∧ P events e := by
  constructor
  · refine fun h => ⟨fun before e' after hevents => h before e' (after ++ [e]) (by simp [hevents]), ?_⟩
    exact h events e [] rfl
  · rintro ⟨hevents, hlast⟩ before e' after h
    obtain rfl | ⟨after, last, rfl⟩ := List.eq_nil_or_concat after
    · obtain ⟨rfl, rfl⟩ := List.append_singleton_inj.mp h
      exact hlast
    · rw [List.concat_eq_append, ← List.cons_append, ← List.append_assoc] at h
      exact hevents before e' after (List.append_singleton_inj.mp h).1

/-- The sum over all events, of which `f` may look at those before. -/
def total {M : Type*} [AddMonoid M] (f : List Event → Event → M) (events : List Event) : M :=
  ((List.range events.length).map fun n => events[n]?.elim 0 (f (events.take n))).sum

variable {M : Type*} [AddMonoid M] {f : List Event → Event → M}

theorem total_nil : total f [] = 0 := rfl

theorem total_concat : total f (events ++ [e]) = total f events + f events e := by
  have hearlier : ∀ n ∈ List.range events.length,
      (events ++ [e])[n]?.elim 0 (f ((events ++ [e]).take n)) = events[n]?.elim 0 (f (events.take n)) := by
    intro n hn
    have hlt := List.mem_range.mp hn
    rw [List.getElem?_append_left hlt, List.take_append_of_le_length (Nat.le_of_lt hlt)]
  rw [total, List.length_append, List.length_singleton, List.range_succ, List.map_append, List.sum_append,
    List.map_congr_left hearlier]
  simp [total]

end History
