import Mathlib.Logic.Function.Basic
import Mathlib.Order.Lattice
import Mathlib.Order.Defs.LinearOrder
import Mathlib.Tactic.Common

/-!
# Maxima that are written late

Values of a linear order appear one after the other, and a register is to hold the largest of them.  The
parties that bring the values have them pending until they have compared them with the register, and have
written those that exceed it.  Until then the register may be too small, but then the largest value is
pending with somebody.
-/

namespace PendingMax

open Function (update update_self update_of_ne)

variable {Party Value : Type*} [DecidableEq Party] [LinearOrder Value]

/-- The register and the pending values account for the largest value that has appeared. -/
structure Covers (register largest : Value) (pending : Party → Option Value) : Prop where
  register_le : register ≤ largest
  pending_le : ∀ p value, pending p = some value → value ≤ largest
  largest_le : largest ≤ register ∨ ∃ p value, pending p = some value ∧ largest ≤ value

variable {register largest value : Value} {pending : Party → Option Value} {p : Party}

omit [DecidableEq Party] in
/-- At the start the register is right. -/
theorem Covers.start (value : Value) : Covers value value fun _ : Party => none := by
  refine ⟨le_rfl, ?_, Or.inl le_rfl⟩
  intro p value hp
  cases hp

omit [DecidableEq Party] in
/-- The register is right once nothing is pending. -/
theorem Covers.eq_of_none (h : Covers register largest pending) (hnone : ∀ p, pending p = none) :
    register = largest := by
  apply le_antisymm h.register_le
  rcases h.largest_le with hle | ⟨p, value, hp, -⟩
  · exact hle
  · rw [hnone p] at hp
    cases hp

/-- A value appears. -/
theorem Covers.appear (h : Covers register largest pending) (hp : pending p = none) (value : Value) :
    Covers register (max largest value) (update pending p (some value)) := by
  refine ⟨h.register_le.trans (le_max_left ..), ?_, ?_⟩
  · intro q other hq
    by_cases hqp : q = p
    · rw [hqp, update_self] at hq
      obtain rfl := Option.some.inj hq
      exact le_max_right ..
    · rw [update_of_ne hqp] at hq
      exact (h.pending_le q other hq).trans (le_max_left ..)
  · rcases le_total largest value with hle | hle
    · exact Or.inr ⟨p, value, update_self .., (max_eq_right hle).le⟩
    · rw [max_eq_left hle]
      rcases h.largest_le with hregister | ⟨q, other, hq, hother⟩
      · exact Or.inl hregister
      · have hqp : q ≠ p := by
          intro heq
          rw [heq, hp] at hq
          cases hq
        exact Or.inr ⟨q, other, by rwa [update_of_ne hqp], hother⟩

/-- A value is no longer pending once the register is at least as large. -/
theorem Covers.settle {register' : Value} (h : Covers register largest pending)
    (hp : pending p = some value) (hregister : register ≤ register') (hvalue : value ≤ register')
    (hle : register' ≤ largest) : Covers register' largest (update pending p none) := by
  refine ⟨hle, ?_, ?_⟩
  · intro q other hq
    by_cases hqp : q = p
    · rw [hqp, update_self] at hq
      cases hq
    · rw [update_of_ne hqp] at hq
      exact h.pending_le q other hq
  · rcases h.largest_le with hlargest | ⟨q, other, hq, hother⟩
    · exact Or.inl (hlargest.trans hregister)
    · by_cases hqp : q = p
      · rw [hqp, hp] at hq
        obtain rfl := Option.some.inj hq
        exact Or.inl (hother.trans hvalue)
      · exact Or.inr ⟨q, other, by rwa [update_of_ne hqp], hother⟩

/-- A value that does not exceed the register is dropped. -/
theorem Covers.drop (h : Covers register largest pending) (hp : pending p = some value)
    (hle : value ≤ register) : Covers register largest (update pending p none) :=
  h.settle hp le_rfl hle h.register_le

/-- A value that exceeds the register is written. -/
theorem Covers.write (h : Covers register largest pending) (hp : pending p = some value)
    (hle : register ≤ value) : Covers value largest (update pending p none) :=
  h.settle hp hle le_rfl (h.pending_le p value hp)

end PendingMax
