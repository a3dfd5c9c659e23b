import Mathlib.Data.List.Basic
import Mathlib.Data.List.Perm.Basic

/-!
# Tokens in custody

Tokens are handed from place to place.  Every token that is pending is at exactly one place, and no other
token is anywhere.
-/

variable {Token Place : Type*} {Holds Holds' : Token → Place → Prop} {pending : List Token}

/-- Every pending token is at exactly one place. -/
structure Custody (Holds : Token → Place → Prop) (pending : List Token) : Prop where
  nodup : pending.Nodup
  mem_iff : ∀ x, x ∈ pending ↔ ∃ p, Holds x p
  unique : ∀ x p q, Holds x p → Holds x q → p = q

namespace Custody

variable {x : Token} {p q : Place}

theorem mem (h : Custody Holds pending) (hx : Holds x p) : x ∈ pending :=
  (h.mem_iff x).mpr ⟨p, hx⟩

/-- Nothing moves. -/
theorem congr (h : Custody Holds pending) (hiff : ∀ y r, Holds' y r ↔ Holds y r) :
    Custody Holds' pending := by
  refine ⟨h.nodup, fun y => ?_, fun y r r' hr hr' => ?_⟩
  · simp only [h.mem_iff y, hiff]
  · exact h.unique y r r' ((hiff y r).mp hr) ((hiff y r').mp hr')

/-- A new token appears at a place. -/
theorem create (h : Custody Holds pending) (hfresh : ∀ r, ¬ Holds x r)
    (hother : ∀ y r, r ≠ p → (Holds' y r ↔ Holds y r)) (hto : ∀ y, Holds' y p ↔ Holds y p ∨ y = x) :
    Custody Holds' (x :: pending) := by
  have hnew : ∀ y, y ≠ x → ∀ r, Holds' y r ↔ Holds y r := by
    intro y hy r
    by_cases hr : r = p
    · rw [hr, hto y]
      simp [hy]
    · exact hother y r hr
  have hself : ∀ r, Holds' x r ↔ r = p := by
    intro r
    by_cases hr : r = p
    · simp [hr, hto]
    · simp [hr, hother x r hr, hfresh r]
  refine ⟨List.nodup_cons.mpr ⟨fun hmem => ?_, h.nodup⟩, fun y => ?_, fun y r r' hr hr' => ?_⟩
  · obtain ⟨r, hr⟩ := (h.mem_iff x).mp hmem
    exact hfresh r hr
  · by_cases hy : y = x
    · simp [hy, hself]
    · simp [hy, hnew y hy, h.mem_iff y]
  · by_cases hy : y = x
    · rw [hy, hself] at hr hr'
      rw [hr, hr']
    · rw [hnew y hy] at hr hr'
      exact h.unique y r r' hr hr'

/-- A token moves from one place to another. -/
theorem move (h : Custody Holds pending) (hx : Holds x p) (hpq : p ≠ q)
    (hother : ∀ y r, r ≠ p → r ≠ q → (Holds' y r ↔ Holds y r))
    (hfrom : ∀ y, Holds' y p ↔ Holds y p ∧ y ≠ x) (hto : ∀ y, Holds' y q ↔ Holds y q ∨ y = x) :
    Custody Holds' pending := by
  have hrest : ∀ y, y ≠ x → ∀ r, Holds' y r ↔ Holds y r := by
    intro y hy r
    by_cases hr : r = p
    · simp [hr, hfrom, hy]
    · by_cases hr' : r = q
      · simp [hr', hto, hy]
      · exact hother y r hr hr'
  have hself : ∀ r, Holds' x r ↔ r = q := by
    intro r
    by_cases hr : r = q
    · simp [hr, hto]
    · by_cases hr' : r = p
      · simp [hr', hfrom, hpq]
      · rw [hother x r hr' hr]
        simp only [hr, iff_false]
        intro hxr
        exact hr' (h.unique x r p hxr hx)
  refine ⟨h.nodup, fun y => ?_, fun y r r' hr hr' => ?_⟩
  · by_cases hy : y = x
    · simp [hy, hself, h.mem hx]
    · simp [hrest y hy, h.mem_iff y]
  · by_cases hy : y = x
    · rw [hy, hself] at hr hr'
      rw [hr, hr']
    · rw [hrest y hy] at hr hr'
      exact h.unique y r r' hr hr'

/-- A token leaves. -/
theorem consume [DecidableEq Token] (h : Custody Holds pending) (hx : Holds x p)
    (hother : ∀ y r, r ≠ p → (Holds' y r ↔ Holds y r)) (hfrom : ∀ y, Holds' y p ↔ Holds y p ∧ y ≠ x) :
    Custody Holds' (pending.erase x) := by
  have hrest : ∀ y r, Holds' y r ↔ Holds y r ∧ y ≠ x := by
    intro y r
    by_cases hr : r = p
    · rw [hr, hfrom y]
    · rw [hother y r hr]
      refine ⟨fun hy => ⟨hy, ?_⟩, And.left⟩
      rintro rfl
      exact hr (h.unique y r p hy hx)
  refine ⟨h.nodup.erase x, fun y => ?_, fun y r r' hr hr' => ?_⟩
  · rw [h.nodup.mem_erase_iff, h.mem_iff y]
    simp only [hrest, exists_and_right]
    exact And.comm
  · exact h.unique y r r' ((hrest y r).mp hr).1 ((hrest y r').mp hr').1

end Custody
