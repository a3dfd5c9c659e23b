import Mathlib.Data.Set.Insert
import Mathlib.Logic.Function.Basic
import Mathlib.Tactic.Common

/-!
# Blocks on free lists and blocks off them

An allocator knows a set `S` of blocks, some of which are on its free lists.  The others are *taken*:
a client has them, or the allocator itself while it moves them from one list to another.
-/

namespace FreeLists

open Function (update update_self update_of_ne)

variable {α κ : Type*} {free : κ → List α} {S : Set α} {a : α} {k : κ}

/-- The blocks of `S` that are on no free list. -/
def taken (free : κ → List α) (S : Set α) : Set α :=
  { a | a ∈ S ∧ ∀ k, a ∉ free k }

/-- Two blocks that become one are named by their place, or by which of them was asked for. -/
theorem ne_pair_iff {lo hi b x : α} (hpair : lo = a ∧ hi = b ∨ lo = b ∧ hi = a) :
    x ≠ lo ∧ x ≠ hi ↔ x ≠ a ∧ x ≠ b := by
  rcases hpair with ⟨rfl, rfl⟩ | ⟨rfl, rfl⟩
  · exact Iff.rfl
  · exact And.comm

variable [DecidableEq κ]

/-- Blocks that are put on a free list are no longer taken. -/
theorem mem_taken_prepend {l : List α} {x : α} :
    x ∈ taken (update free k (l ++ free k)) S ↔ x ∈ taken free S ∧ x ∉ l := by
  simp only [taken, Set.mem_ofPred_eq]
  constructor
  · rintro ⟨hx, hnot⟩
    have hk := hnot k
    rw [update_self, List.mem_append, not_or] at hk
    refine ⟨⟨hx, fun j hj => ?_⟩, hk.1⟩
    by_cases hjk : j = k
    · subst hjk
      exact hk.2 hj
    · exact hnot j (by rwa [update_of_ne hjk])
  · rintro ⟨⟨hx, hnot⟩, hl⟩
    refine ⟨hx, fun j hj => ?_⟩
    by_cases hjk : j = k
    · subst hjk
      rw [update_self, List.mem_append] at hj
      exact hj.elim hl (hnot j)
    · exact hnot j (by rwa [update_of_ne hjk] at hj)

/-- A block that leaves the only list it is on becomes taken. -/
theorem taken_remove {l : List α} (ha : a ∈ S) (hk : ∀ x, x ∈ free k ↔ x = a ∨ x ∈ l) (hal : a ∉ l)
    (hother : ∀ j, j ≠ k → a ∉ free j) : taken (update free k l) S = insert a (taken free S) := by
  ext x
  simp only [taken, Set.mem_ofPred_eq, Set.mem_insert_iff]
  constructor
  · rintro ⟨hx, hout⟩
    by_cases hxa : x = a
    · exact Or.inl hxa
    · refine Or.inr ⟨hx, fun j hj => ?_⟩
      by_cases hjk : j = k
      · subst hjk
        exact hout j (by rw [update_self]; exact ((hk x).mp hj).resolve_left hxa)
      · exact hout j (by rwa [update_of_ne hjk])
  · rintro (rfl | ⟨hx, hout⟩)
    · refine ⟨ha, fun j hj => ?_⟩
      by_cases hjk : j = k
      · subst hjk
        exact hal (by rwa [update_self] at hj)
      · rw [update_of_ne hjk] at hj
        exact hother j hjk hj
    · refine ⟨hx, fun j hj => ?_⟩
      by_cases hjk : j = k
      · subst hjk
        rw [update_self] at hj
        exact hout j ((hk x).mpr (Or.inr hj))
      · exact hout j (by rwa [update_of_ne hjk] at hj)

end FreeLists
