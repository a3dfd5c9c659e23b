import Mathlib.Data.Set.Card
import LgxRuntime.Lib.Interleaving

/-!
# Counting threads

The number of threads that are at places of some kind.  There may be infinitely many threads, so that the
number is one of `ℕ∞`; what a step does to it only depends on the thread that moves on.
-/

namespace Interleaving

open Function (update update_self update_of_ne)

variable {Thread Place : Type*} {p : Place → Bool} {pc : Thread → Place} {t : Thread} {pc' : Place}

/-- The number of threads at places with `p`. -/
noncomputable def headcount (p : Place → Bool) (pc : Thread → Place) : ℕ∞ :=
  Set.encard { t | p (pc t) = true }

theorem headcount_eq_zero : headcount p pc = 0 ↔ ∀ t, p (pc t) = false := by
  simp only [headcount, Set.encard_eq_zero, Set.eq_empty_iff_forall_notMem, Set.mem_ofPred_eq,
    Bool.not_eq_true]

theorem headcount_le_card [Fintype Thread] (p : Place → Bool) (pc : Thread → Place) :
    headcount p pc ≤ Fintype.card Thread := by
  rw [← ENat.card_eq_coe_fintype_card]
  exact Set.encard_le_card

/-- The number of threads at places with `p` is bounded by a number of names for them. -/
theorem headcount_le_of_names (name : ℕ → Option Thread) {bound : ℕ}
    (h : ∀ t, p (pc t) = true → ∃ i < bound, name i = some t) : headcount p pc ≤ bound := by
  have himage : Option.some '' { t | p (pc t) = true } ⊆ name '' (Finset.range bound : Set ℕ) := by
    rintro _ ⟨t, ht, rfl⟩
    obtain ⟨i, hi, hname⟩ := h t ht
    exact ⟨i, Finset.mem_coe.mpr (Finset.mem_range.mpr hi), hname⟩
  calc headcount p pc = (Option.some '' { t | p (pc t) = true }).encard :=
        ((Option.some_injective Thread).encard_image _).symm
    _ ≤ (name '' (Finset.range bound : Set ℕ)).encard := Set.encard_le_encard himage
    _ ≤ (Finset.range bound : Set ℕ).encard := Set.encard_image_le _ _
    _ = bound := by rw [Set.encard_coe_eq_coe_finsetCard, Finset.card_range]

/-- If all threads but one are at places with `p`, it is the one that is known not to be. -/
theorem forall_of_headcount [Fintype Thread] (hcount : headcount p pc + 1 = Fintype.card Thread)
    (hself : p (pc t) = false) (u : Thread) (hne : u ≠ t) : p (pc u) = true := by
  have hall : insert t { v | p (pc v) = true } = Set.univ := by
    refine (Set.toFinite _).eq_of_subset_of_encard_le (Set.subset_univ _) ?_
    rw [Set.encard_univ, ENat.card_eq_coe_fintype_card, ← hcount,
      Set.encard_insert_of_notMem (by simp [hself]), headcount]
  have hmem : u ∈ insert t { v | p (pc v) = true } := hall ▸ Set.mem_univ u
  exact (Set.mem_insert_iff.mp hmem).resolve_left hne

variable [DecidableEq Thread]

/-- A thread moves on to a place of the same kind. -/
theorem headcount_stay (hkind : p pc' = p (pc t)) : headcount p (update pc t pc') = headcount p pc := by
  simp only [headcount, apply_update_self hkind]

/-- A thread moves on to a place with `p`. -/
theorem headcount_enter (hold : p (pc t) = false) (hnew : p pc' = true) :
    headcount p (update pc t pc') = headcount p pc + 1 := by
  have hset : { u | p (update pc t pc' u) = true } = insert t { u | p (pc u) = true } := by
    ext u
    by_cases hut : u = t
    · simp [hut, hnew]
    · simp [hut]
  rw [headcount, hset, Set.encard_insert_of_notMem (by simp [hold]), headcount]

/-- A thread leaves the places with `p`. -/
theorem headcount_leave (hold : p (pc t) = true) (hnew : p pc' = false) :
    headcount p (update pc t pc') + 1 = headcount p pc := by
  have hself : update (update pc t pc') t (pc t) = pc := by
    rw [Function.update_idem, Function.update_eq_self]
  have henter : headcount p (update (update pc t pc') t (pc t)) = headcount p (update pc t pc') + 1 :=
    headcount_enter (by rw [update_self, hnew]) hold
  rw [← henter, hself]

end Interleaving
