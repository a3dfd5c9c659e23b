import LgxRuntime.GpuPool.SplitCalls
import Mathlib.Data.Finset.Card

/-!
# The slots of the table

A slot holds a block or is on the stack of dead slots.  A split appends a slot only when the stack is empty;
the table then has no more slots than there are blocks.  Later on the slots stay, and so their number is
bounded by the largest number of blocks in the history of the run.

The lists are rebuilt on the way of such a split, so that no dead slot can be lost.
-/

namespace LgxRuntime.GpuPool

open FreeLists (taken)

/-! ## Counting the slots -/

/-- The slots that are marked free. -/
def freeBlocks (a : Allocator) : Finset ℕ :=
  (Finset.range a.numBlocks).filter fun i => (a.allBlocks i).isFree = true

/-- The number of free and allocated blocks. -/
def blockCount (r : BuddyRun) : ℕ :=
  (freeBlocks r.allocator).card + r.live.length

namespace Owned

variable {m : ℕ} {a : Allocator} {live : List Handle} {free : ℕ → List ℕ} {dead : List ℕ} {S : Set ℕ}

theorem card_entries_add_dead (h : Owned m a live free dead S) :
    (entries a dead).card + dead.length = a.numBlocks := by
  have hsub : dead.toFinset ⊆ Finset.range a.numBlocks := by
    intro i hi
    exact Finset.mem_range.mpr ((h.rep.slots i).mpr (Or.inr (List.mem_toFinset.mp hi)))
  have hentries : entries a dead = Finset.range a.numBlocks \ dead.toFinset := by
    ext i
    simp [entries]
  have hcard := Finset.card_sdiff_add_card_eq_card hsub
  rw [List.toFinset_card_of_nodup h.rep.deadLinked.nodup, Finset.card_range] at hcard
  rw [hentries, hcard]

/-- The blocks that are marked as allocated are those of the live handles. -/
theorem card_allocated (h : Owned m a live free dead S) :
    ((entries a dead).filter fun i => ¬ (a.allBlocks i).isFree = true).card = live.length := by
  have hlive : (entries a dead).filter (fun i => ¬ (a.allBlocks i).isFree = true) =
      (live.map Handle.blockIndex).toFinset := by
    ext i
    rw [Finset.mem_filter, h.mem_entries, List.mem_toFinset, List.mem_map, Bool.not_eq_true,
      Allocator.allBlocks_isFree]
    constructor
    · intro hi
      exact ⟨makeHandle a i, h.of_taken i (h.valid.mem_taken_iff.mpr hi), rfl⟩
    · rintro ⟨x, hx, rfl⟩
      exact h.valid.mem_taken_iff.mp (h.of_live x hx).1
  rw [hlive, List.toFinset_card_of_nodup h.nodup, List.length_map]

theorem filter_free (h : Owned m a live free dead S) :
    (entries a dead).filter (fun i => (a.allBlocks i).isFree = true) = freeBlocks a := by
  ext i
  simp only [entries, freeBlocks, Finset.mem_filter]
  constructor
  · exact fun hi => ⟨hi.1.1, hi.2⟩
  · rintro ⟨hlt, hfree⟩
    refine ⟨⟨hlt, fun hdead => ?_⟩, hfree⟩
    rw [Allocator.allBlocks_isFree, (h.rep.dead_mem i hdead).2] at hfree
    exact Bool.noConfusion hfree

theorem numBlocks_eq (h : Owned m a live free dead S) :
    a.numBlocks = blockCount ⟨a, live⟩ + dead.length := by
  have hsplit := Finset.card_filter_add_card_filter_not (s := entries a dead)
    fun i => (a.allBlocks i).isFree = true
  rw [h.filter_free, h.card_allocated] at hsplit
  rw [blockCount, hsplit, h.card_entries_add_dead]

end Owned

/-! ## When a slot is appended -/

section

variable {m n n' i : ℕ} {a a' : Allocator} {v v' : View} {realloc : ℕ → Option Moved}

/-- Splits take dead slots as long as there are any; if a slot was appended, there are none left. -/
theorem SplitChain.slots (h : SplitChain m realloc i a v n a' v' n') :
    v'.dead <:+ v.dead ∧ (a'.numBlocks = a.numBlocks ∨ v'.dead = []) := by
  induction h with
  | refl => exact ⟨List.suffix_rfl, Or.inl rfl⟩
  | step hsplit _ _ _ ih =>
      obtain ⟨hsuffix, hcases⟩ := ih
      rcases hsplit.slot with ⟨hdead, hnum⟩ | ⟨hdead, hdead', -⟩
      · refine ⟨?_, hcases.imp (fun heq => heq.trans hnum) id⟩
        rw [hdead]
        exact hsuffix.trans (List.suffix_cons ..)
      · rw [hdead'] at hsuffix
        have hempty := List.suffix_nil.mp hsuffix
        exact ⟨hempty ▸ List.nil_suffix, Or.inr hempty⟩

theorem Found.slots {level : ℕ} {result : Option ℕ} (h : Found m realloc level a v result a' v') :
    a'.numBlocks = a.numBlocks ∨ v'.dead = [] := by
  cases h with
  | found _ _ _ hchain => exact hchain.slots.2
  | stuck _ _ _ _ hchain => exact hchain.slots.2
  | nothing => exact Or.inl rfl

theorem AllocSteps.slots {size alignment : ℕ} {result : Option ℕ}
    (h : AllocSteps m realloc size alignment a v result a' v') :
    a'.numBlocks = a.numBlocks ∨ v'.dead = [] := by
  cases h with
  | refused => exact Or.inl rfl
  | failed _ _ hfound => exact hfound.slots
  | taken _ _ hfound htake =>
      rw [htake.numBlocks, htake.dead]
      exact hfound.slots

theorem MergeChain.numBlocks {i' : ℕ} (h : MergeChain m a v i a' v' i') : a'.numBlocks = a.numBlocks := by
  induction h with
  | refl => rfl
  | step hmerge _ _ _ ih => exact ih.trans hmerge.numBlocks

theorem FreeSteps.numBlocks (h : FreeSteps m a v i a' v') : a'.numBlocks = a.numBlocks := by
  cases h with
  | intro hput _ hchain => exact hchain.numBlocks.trans hput.numBlocks

end

/-- After a step the table has as many slots as before, or no dead one. -/
theorem BuddyStep.slots {m : ℕ} {r r' : BuddyRun} {free free' : ℕ → List ℕ} {dead dead' : List ℕ}
    {S S' : Set ℕ} (hstep : BuddyStep r r') (h : Owned m r.allocator r.live free dead S)
    (h' : Owned m r'.allocator r'.live free' dead' S') :
    r'.allocator.numBlocks = r.allocator.numBlocks ∨ dead' = [] := by
  cases hstep with
  | alloc realloc size alignment result a' hresult =>
      obtain ⟨result', a'', v', heq, hvalid', hsteps⟩ := h.valid.buddyAlloc_steps realloc size alignment
      obtain ⟨rfl, rfl⟩ := Prod.mk.inj (Option.some.inj (hresult.symm.trans heq))
      obtain rfl := h'.valid.unique hvalid'
      exact hsteps.slots
  | free x a' hlive hresult =>
      obtain ⟨a'', v', heq, -, hsteps⟩ := h.valid.buddyFree_steps (h.of_live x hlive).1
      obtain rfl := Option.some.inj (hresult.symm.trans heq)
      exact Or.inl hsteps.numBlocks

/-! ## Runs -/

/-- The runs that start with `buddy_init`, with the states that they have gone through, the last one
first. -/
inductive BuddyHistory (budget : ℕ) : List BuddyRun → BuddyRun → Prop
  | init : BuddyHistory budget [] ⟨buddyInit budget, []⟩
  | step {past : List BuddyRun} {r r' : BuddyRun} (hpast : BuddyHistory budget past r)
      (hstep : BuddyStep r r') : BuddyHistory budget (r :: past) r'

/-- The slots are used again: each one holds a block or is on the stack, there are no more of them than there
were blocks at some time, and the lists are only rebuilt when the stack is empty. -/
structure SlotsRecycled (past : List BuddyRun) (r : BuddyRun) : Prop where
  count : ∃ dead, Linked (fun i => (r.allocator.allBlocks i).next) r.allocator.deadBlocks dead ∧
    r.allocator.numBlocks = blockCount r + dead.length
  high : ∃ r₀ ∈ r :: past, r.allocator.numBlocks ≤ blockCount r₀
  rebuild : ∀ realloc size alignment, ∀ b ∈ rebuilds r.allocator realloc size alignment, b.deadBlocks = none

theorem BuddyHistory.exists_high {budget : ℕ} {past : List BuddyRun} {r : BuddyRun}
    (h : BuddyHistory budget past r) :
    (∃ free dead S, Owned (sizeToLevel budget) r.allocator r.live free dead S) ∧
      ∃ r₀ ∈ r :: past, r.allocator.numBlocks ≤ blockCount r₀ := by
  induction h with
  | init =>
      have howned := Owned.init budget
      exact ⟨⟨_, _, _, howned⟩, _, List.mem_cons_self .., howned.numBlocks_eq.le⟩
  | @step past r r' hpast hstep ih =>
      obtain ⟨⟨free, dead, S, howned⟩, r₀, hr₀, hle⟩ := ih
      obtain ⟨-, free', dead', S', howned'⟩ := hstep.owned howned
      refine ⟨⟨free', dead', S', howned'⟩, ?_⟩
      rcases hstep.slots howned howned' with hsame | hdead
      · exact ⟨r₀, List.mem_cons_of_mem _ hr₀, hsame ▸ hle⟩
      · refine ⟨r', List.mem_cons_self .., ?_⟩
        rw [howned'.numBlocks_eq, hdead]
        exact le_rfl

/-- In every run the slots are used again. -/
theorem slotsRecycled_of_history {budget : ℕ} {past : List BuddyRun} {r : BuddyRun}
    (h : BuddyHistory budget past r) : SlotsRecycled past r := by
  obtain ⟨⟨free, dead, S, howned⟩, hhigh⟩ := h.exists_high
  refine ⟨⟨dead, howned.rep.deadLinked, howned.numBlocks_eq⟩, hhigh, fun realloc size alignment b hb => ?_⟩
  obtain ⟨call, -, hrebuilt⟩ := List.mem_filterMap.mp hb
  exact (deadBlocks_of_rebuilt hrebuilt).2.1

/-- One block of 256 B from a budget of 4 KB is allocated and freed: four of the five slots are dead. -/
theorem slotsRecycled_after_free : ∃ past r, BuddyHistory 4096 past r ∧ r.allocator.numBlocks = 5 ∧
    blockCount r = 1 ∧ SlotsRecycled past r := by
  have hrun : ((buddyAlloc (buddyInit 4096) (fun _ => none) 256 256).bind fun p =>
      (buddyFree p.2 0).map fun a => (p.1, makeHandle p.2 0, a.numBlocks, (freeBlocks a).card)) =
        some (some 0, ⟨0, 0, 256⟩, 5, 1) := by
    decide +kernel
  obtain ⟨⟨result, a₁⟩, hfirst, hrun⟩ := Option.bind_eq_some_iff.mp hrun
  obtain ⟨a₂, hfree, hcount⟩ := Option.map_eq_some_iff.mp hrun
  obtain ⟨rfl, hcount⟩ := Prod.mk.inj hcount
  obtain ⟨hhandle, hcount⟩ := Prod.mk.inj hcount
  obtain ⟨hnum, hcard⟩ := Prod.mk.inj hcount
  have hhistory := (BuddyHistory.init.step (.alloc _ _ _ _ _ _ hfirst)).step
    (.free _ (makeHandle a₁ 0) a₂ (by simp [grant]) hfree)
  refine ⟨_, _, hhistory, hnum, ?_, slotsRecycled_of_history hhistory⟩
  simp [blockCount, grant, hcard]

end LgxRuntime.GpuPool
