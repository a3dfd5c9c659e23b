import LgxRuntime.GpuPool.SplitCalls
import Mathlib.Algebra.BigOperators.Group.Finset.Basic

/-!
# The sizes of the blocks

`buddy_init` gives the initial block the size of the budget and the level that the budget is rounded up to;
a split and a merge give a block the size of its level.  The levels tile the size of the initial level, and
the two agree in a state exactly when the budget is the size of a level (`sizesConserved_iff`).

A request is served with a block of its level.  Such a block is at a multiple of the size of its level, and
has this size unless it is the initial block, which is smaller when the budget was rounded up
(`allocSound_iff`).
-/

namespace LgxRuntime.GpuPool

open Allocator

/-- The sizes that the levels stand for: the powers of two from 256 B to 64 MB. -/
def IsLevelSize (size : ℕ) : Prop :=
  ∃ level < numBuddyLevels, size = levelToSize level

theorem isLevelSize_iff {size : ℕ} : IsLevelSize size ↔ size = levelToSize (sizeToLevel size) := by
  constructor
  · rintro ⟨level, hlevel, rfl⟩
    rw [sizeToLevel_levelToSize hlevel]
  · exact fun h => ⟨sizeToLevel size, sizeToLevel_lt size, h⟩

theorem levelToSize_le_maxBlockSize {level : ℕ} (h : level < numBuddyLevels) :
    levelToSize level ≤ maxBlockSize :=
  (levelToSize_le (Nat.le_sub_one_of_lt h)).trans (by decide)

/-- The initial block is not smaller than its level when the budget is not rounded up. -/
theorem levelToSize_sizeToLevel_le_iff {budget : ℕ} :
    levelToSize (sizeToLevel budget) ≤ budget ↔ maxBlockSize ≤ budget ∨ IsLevelSize budget := by
  constructor
  · intro h
    by_cases hmax : maxBlockSize ≤ budget
    · exact Or.inl hmax
    · have hle := le_levelToSize_sizeToLevel (not_le.mp hmax).le
      exact Or.inr (isLevelSize_iff.mpr (le_antisymm hle h))
  · rintro (hmax | hlevel)
    · exact (levelToSize_le_maxBlockSize (sizeToLevel_lt budget)).trans hmax
    · exact (isLevelSize_iff.mp hlevel).ge

/-! ## The sizes add up -/

/-- Every free or allocated block has the size of its level, and together they have the total size. -/
structure SizesConserved (a : Allocator) (dead : List ℕ) : Prop where
  size_eq : ∀ i ∈ entries a dead, (a.allBlocks i).size = levelToSize (a.allBlocks i).level
  sum_size : ∑ i ∈ entries a dead, (a.allBlocks i).size = a.totalSize

theorem Owned.sum_levelToSize {m : ℕ} {a : Allocator} {live : List Handle} {free : ℕ → List ℕ}
    {dead : List ℕ} {S : Set ℕ} (h : Owned m a live free dead S) :
    ∑ i ∈ entries a dead, levelToSize (a.allBlocks i).level = levelToSize m := by
  have htiling := h.rep.tiling
  rw [← h.coe_entries] at htiling
  exact htiling.sum_size

/-- In a reachable state the sizes are those of the levels and add up to the total size exactly when the
budget is the size of a level. -/
theorem sizesConserved_iff {budget : ℕ} {r : BuddyRun} (h : BuddyReachable budget r) :
    ∃ dead, Linked (fun i => (r.allocator.allBlocks i).next) r.allocator.deadBlocks dead ∧
      (SizesConserved r.allocator dead ↔ IsLevelSize budget) := by
  obtain ⟨htotal, free, dead, S, howned⟩ := h.owned
  have hsum := howned.sum_levelToSize
  refine ⟨dead, howned.rep.deadLinked, ?_⟩
  rw [isLevelSize_iff]
  constructor
  · intro hconserved
    calc budget = r.allocator.totalSize := htotal.symm
      _ = ∑ i ∈ entries r.allocator dead, (r.allocator.allBlocks i).size := hconserved.sum_size.symm
      _ = ∑ i ∈ entries r.allocator dead, levelToSize (r.allocator.allBlocks i).level :=
          Finset.sum_congr rfl hconserved.size_eq
      _ = levelToSize (sizeToLevel budget) := hsum
  · intro hbudget
    have hsize : ∀ i ∈ entries r.allocator dead,
        (r.allocator.allBlocks i).size = levelToSize (r.allocator.allBlocks i).level :=
      fun i hi => howned.size_eq (htotal.trans hbudget) (howned.mem_entries.mp hi)
    refine ⟨hsize, ?_⟩
    rw [Finset.sum_congr rfl hsize, hsum, htotal, ← hbudget]

/-- A budget of 4 KB is the size of level 4: the blocks that four splits leave have the sizes of their
levels. -/
theorem sizesConserved_after_alloc : ∃ r dead, BuddyReachable 4096 r ∧ r.allocator.numBlocks = 5 ∧
    SizesConserved r.allocator dead := by
  have hrun : ((buddyAlloc (buddyInit 4096) (fun _ => none) 256 256).map fun p => p.2.numBlocks) = some 5 := by
    decide +kernel
  obtain ⟨⟨result, a'⟩, hresult, hcount⟩ := Option.map_eq_some_iff.mp hrun
  have hreach := BuddyReachable.init.step (.alloc _ _ _ _ _ _ hresult)
  obtain ⟨dead, -, hiff⟩ := sizesConserved_iff hreach
  exact ⟨_, dead, hreach, hcount, hiff.mpr ⟨4, by decide, by decide⟩⟩

/-- The budget of 256 MB for device-local memory: the initial block of level 18 is four times as large as its
level. -/
theorem not_sizesConserved_deviceLocal : ∃ r, BuddyReachable (256 * 1024 * 1024) r ∧
    r.allocator.deadBlocks = none ∧ 0 ∈ entries r.allocator [] ∧ (r.allocator.allBlocks 0).isFree = true ∧
    (r.allocator.allBlocks 0).size = 4 * levelToSize (r.allocator.allBlocks 0).level ∧
    ¬ SizesConserved r.allocator [] := by
  have hmem : 0 ∈ entries (buddyInit (256 * 1024 * 1024)) [] := by decide +kernel
  have hsize : ((buddyInit (256 * 1024 * 1024)).allBlocks 0).size =
      4 * levelToSize ((buddyInit (256 * 1024 * 1024)).allBlocks 0).level := by decide +kernel
  refine ⟨_, .init, rfl, hmem, rfl, hsize, fun hconserved => ?_⟩
  have hpos := levelToSize_pos ((buddyInit (256 * 1024 * 1024)).allBlocks 0).level
  have heq : ((buddyInit (256 * 1024 * 1024)).allBlocks 0).size =
      levelToSize ((buddyInit (256 * 1024 * 1024)).allBlocks 0).level := hconserved.size_eq 0 hmem
  omega

/-! ## Size and alignment of a request -/

/-- The alignment only counts for the size that a level is looked for. -/
theorem requestLevel_eq {size alignment : ℕ} (hsize : size ≤ maxBlockSize)
    (halignment : alignment ≤ maxBlockSize) :
    requestLevel size alignment = sizeToLevel (max size alignment) := by
  have hmax : (if size < alignment then alignment else size) = max size alignment := by
    split <;> omega
  have hle := le_levelToSize_sizeToLevel (Nat.max_le.mpr ⟨hsize, halignment⟩)
  unfold requestLevel
  simp only [hmax]
  rw [alignLevel, if_neg (by omega)]

/-- What a call of `buddy_alloc` promises: it stays inside the free lists, refuses what is larger than
64 MB, and returns a block that is aligned and large enough. -/
structure AllocSound (a : Allocator) (realloc : ℕ → Option Moved) (size alignment : ℕ) : Prop where
  indices : ∀ k ∈ allocIndices a realloc size alignment, k < numBuddyLevels
  refused : size > maxBlockSize ∨ alignment > maxBlockSize →
    buddyAlloc a realloc size alignment = some (none, a)
  aligned : ∀ i a', buddyAlloc a realloc size alignment = some (some i, a') →
    alignment = 0 ∨ alignment ∣ (a'.allBlocks i).offset
  large : ∀ i a', buddyAlloc a realloc size alignment = some (some i, a') →
    max size alignment ≤ (a'.allBlocks i).size

namespace Valid

variable {m : ℕ} {a : Allocator} {v : View} {i l : ℕ}

theorem level_lt (h : Valid m a v) (hi : i ∈ v.free l) : l < numBuddyLevels :=
  (h.le_of_mem_free hi).trans_lt h.rep.level_lt

theorem rebuildIndices_lt (h : Valid m a v) {realloc : Option Moved} {b : Allocator}
    (hrebuilt : rebuilt a realloc = some b) : ∀ k ∈ rebuildIndices b, k < numBuddyLevels := by
  obtain ⟨hdead, -, -⟩ := deadBlocks_of_rebuilt hrebuilt
  unfold rebuilt at hrebuilt
  split at hrebuilt
  swap
  · cases hrebuilt
  obtain ⟨moved, -, rfl⟩ := Option.map_eq_some_iff.mp hrebuilt
  intro k hk
  rcases List.mem_append.mp hk with hk | hk
  · exact List.mem_range.mp hk
  · obtain ⟨i, hi, rfl⟩ := List.mem_map.mp hk
    obtain ⟨hlt, -⟩ := List.mem_filter.mp hi
    replace hlt : i < a.numBlocks := List.mem_range.mp hlt
    have hmax : i < a.maxBlocks := hlt.trans_le h.rep.capacity.2
    have hlevel : ((moveBlocks a moved (a.maxBlocks * 2)).allBlocks i).level = (a.data i).level := by
      simp [moveBlocks, hmax, data]
    have hiS : i ∈ v.blocks := by
      refine ((h.rep.slots i).mp hlt).resolve_right fun hmem => ?_
      rw [h.dead_eq_nil_iff.mpr hdead] at hmem
      cases hmem
    rw [hlevel]
    exact (h.rep.level_le i hiS).trans_lt h.rep.level_lt

theorem splitIndices_lt (h : Valid m a v) (hi : i ∈ v.free l) (realloc : Option Moved) :
    ∀ k ∈ splitIndices a realloc i, k < numBuddyLevels := by
  have hlevel := (h.rep.free_mem l i hi).2.2
  have hlt := h.level_lt hi
  rw [splitIndices, allBlocks_level, hlevel]
  split
  · exact fun k hk => by cases hk
  intro k hk
  rcases List.mem_append.mp hk with hk | hk
  · cases hrebuilt : rebuilt a realloc with
    | none =>
        rw [hrebuilt] at hk
        cases hk
    | some b =>
        rw [hrebuilt] at hk
        exact h.rebuildIndices_lt hrebuilt k hk
  · simp only [List.mem_cons, List.not_mem_nil, or_false] at hk
    omega

/-- `buddy_alloc` stays inside the free lists. -/
theorem allocIndices_lt (h : Valid m a v) (realloc : ℕ → Option Moved) (size alignment : ℕ) :
    ∀ k ∈ allocIndices a realloc size alignment, k < numBuddyLevels := by
  unfold allocIndices
  split
  · simp [numBuddyLevels]
  · rename_i hsmall
    have hlevel : requestLevel size alignment < numBuddyLevels := by
      rw [requestLevel_eq (by omega) (by omega)]
      exact sizeToLevel_lt _
    intro k hk
    rcases List.mem_append.mp hk with hk | hk
    · rcases List.mem_cons.mp hk with rfl | hk
      · exact Nat.zero_lt_of_lt hlevel
      · rcases List.mem_append.mp hk with hk | hk
        · rcases List.mem_cons.mp hk with rfl | hk
          · exact hlevel
          · obtain ⟨i, hi, rfl⟩ := List.mem_map.mp hk
            rw [List.mem_range] at hi
            omega
        · obtain ⟨call, hcall, hk⟩ := List.mem_flatMap.mp hk
          obtain ⟨v', n, hvalid, hmem, -⟩ := h.exists_valid_of_mem_findSplits realloc _ call hcall
          exact hvalid.splitIndices_lt hmem _ k hk
    · obtain ⟨result, a', v', heq, hfound⟩ :=
        h.buddyFindFreeBlock_spec realloc (requestLevel size alignment)
      rw [heq] at hk
      cases result with
      | none => cases hk
      | some i =>
          have hmem := hfound.mem_free h
          have hvalid := hfound.valid h
          simp only [List.mem_singleton] at hk
          rw [hk, allBlocks_level, (hvalid.rep.free_mem _ i hmem).2.2]
          exact hlevel

end Valid

/-- The block that is returned is one of the table, of the level of the request. -/
theorem Owned.exists_of_alloc {m : ℕ} {a a' : Allocator} {live : List Handle} {free : ℕ → List ℕ}
    {dead : List ℕ} {S : Set ℕ} (h : Owned m a live free dead S) {realloc : ℕ → Option Moved}
    {size alignment i : ℕ} (hresult : buddyAlloc a realloc size alignment = some (some i, a')) :
    (size ≤ maxBlockSize ∧ alignment ≤ maxBlockSize) ∧ ∃ v', Valid m a' v' ∧ i ∈ v'.blocks ∧
      (a'.allBlocks i).level = requestLevel size alignment ∧ a'.totalSize = a.totalSize := by
  obtain ⟨result, a'', v', heq, hvalid', hsteps⟩ := h.valid.buddyAlloc_steps realloc size alignment
  obtain ⟨rfl, rfl⟩ := Prod.mk.inj (Option.some.inj (hresult.symm.trans heq))
  have hsmall : size ≤ maxBlockSize ∧ alignment ≤ maxBlockSize := by
    cases hsteps with
    | taken hsize halignment => exact ⟨hsize, halignment⟩
  cases hsteps.outcome h.valid hvalid' with
  | success _ _ htaken htotal _ _ hlevel =>
      have hmem : i ∈ FreeLists.taken v'.free v'.blocks := htaken ▸ Set.mem_insert _ _
      exact ⟨hsmall, v', hvalid', hmem.1, hlevel, htotal⟩

/-- A call keeps what it promises when the budget was not rounded up. -/
theorem BuddyReachable.allocSound {budget : ℕ} {r : BuddyRun} (h : BuddyReachable budget r)
    (hbudget : levelToSize (sizeToLevel budget) ≤ budget) (realloc : ℕ → Option Moved) {size alignment : ℕ}
    (halign : alignment = 0 ∨ ∃ e, alignment = 2 ^ e) :
    AllocSound r.allocator realloc size alignment := by
  obtain ⟨htotal, free, dead, S, howned⟩ := h.owned
  refine ⟨howned.valid.allocIndices_lt realloc size alignment, fun hlarge => ?_, fun i a' hresult => ?_,
    fun i a' hresult => ?_⟩
  · rw [buddyAlloc, if_pos hlarge]
  · obtain ⟨⟨hsize, halignment⟩, v', hvalid', hi, hlevel, -⟩ := howned.exists_of_alloc hresult
    rcases halign with hzero | ⟨e, rfl⟩
    · exact Or.inl hzero
    · right
      -- both the alignment and the size of the level are powers of two
      have hle := le_levelToSize_sizeToLevel (Nat.max_le.mpr ⟨hsize, halignment⟩)
      rw [← requestLevel_eq hsize halignment, ← hlevel] at hle
      have hpow : levelToSize (a'.allBlocks i).level = 2 ^ (8 + (a'.allBlocks i).level) := by
        rw [levelToSize_eq, Nat.pow_add]
      have hexp : 2 ^ e ≤ 2 ^ (8 + (a'.allBlocks i).level) := by
        rw [← hpow]
        exact (Nat.le_max_right ..).trans hle
      have hdvd := pow_dvd_pow 2 ((Nat.pow_le_pow_iff_right (by omega)).mp hexp)
      rw [← hpow] at hdvd
      exact hdvd.trans (hvalid'.rep.tiling.aligned i hi)
  · obtain ⟨⟨hsize, halignment⟩, v', hvalid', hi, hlevel, htotal'⟩ := howned.exists_of_alloc hresult
    have hle := le_levelToSize_sizeToLevel (Nat.max_le.mpr ⟨hsize, halignment⟩)
    rw [← requestLevel_eq hsize halignment, ← hlevel] at hle
    rcases hvalid'.rep.size_eq i hi with ⟨-, hfield⟩ | ⟨htop, hfield⟩
    · rw [allBlocks_size, hfield]
      exact hle
    · rw [allBlocks_level, htop] at hle
      rw [allBlocks_size, hfield, htotal', htotal]
      exact hle.trans hbudget

/-- A request for which there is a block on the list of its level gets the first one. -/
theorem buddyAlloc_eq_takeBlock {a : Allocator} {realloc : ℕ → Option Moved} {size alignment block : ℕ}
    (hsize : size ≤ maxBlockSize) (halignment : alignment ≤ maxBlockSize)
    (hhead : a.freeLists (requestLevel size alignment) = some block) :
    buddyAlloc a realloc size alignment = some (some block, takeBlock a block) := by
  rw [buddyAlloc, if_neg (by omega)]
  simp [buddyFindFreeBlock, hhead]

/-- The first request for the size of the initial level gets the initial block, whatever its size is. -/
theorem buddyAlloc_initial (budget : ℕ) (realloc : ℕ → Option Moved) :
    ∃ a', buddyAlloc (buddyInit budget) realloc (levelToSize (sizeToLevel budget)) 0 = some (some 0, a') ∧
      (a'.allBlocks 0).size = budget := by
  have hlevel : requestLevel (levelToSize (sizeToLevel budget)) 0 = sizeToLevel budget := by
    rw [requestLevel_eq (levelToSize_le_maxBlockSize (sizeToLevel_lt budget)) (Nat.zero_le _), Nat.max_zero,
      sizeToLevel_levelToSize (sizeToLevel_lt budget)]
  refine ⟨takeBlock (buddyInit budget) 0, ?_, ?_⟩
  · refine buddyAlloc_eq_takeBlock (levelToSize_le_maxBlockSize (sizeToLevel_lt budget)) (Nat.zero_le _) ?_
    rw [hlevel]
    simp [buddyInit]
  · simp [takeBlock, unlink, buddyInit]

/-- Every call in every reachable state keeps what it promises exactly when the budget is at least 64 MB or
the size of a level. -/
theorem allocSound_iff (budget : ℕ) :
    (∀ r, BuddyReachable budget r → ∀ realloc size alignment,
        (alignment = 0 ∨ ∃ e, alignment = 2 ^ e) → AllocSound r.allocator realloc size alignment) ↔
      maxBlockSize ≤ budget ∨ IsLevelSize budget := by
  rw [← levelToSize_sizeToLevel_le_iff]
  constructor
  · intro h
    have hsound := h _ .init (fun _ => none) (levelToSize (sizeToLevel budget)) 0 (Or.inl rfl)
    obtain ⟨a', hresult, hsize⟩ := buddyAlloc_initial budget fun _ => none
    have hlarge := hsound.large 0 a' hresult
    rwa [Nat.max_zero, hsize] at hlarge
  · intro hbudget r hreach realloc size alignment halign
    exact hreach.allocSound hbudget realloc halign

/-- A budget of 40265318 bytes, 80 % of a heap of 48 MB: a request for 64 MB gets a block of that size. -/
theorem not_allocSound_smallHeap : BuddyReachable 40265318 ⟨buddyInit 40265318, []⟩ ∧
    ¬ AllocSound (buddyInit 40265318) (fun _ => none) (64 * 1024 * 1024) 0 := by
  refine ⟨.init, fun hsound => ?_⟩
  obtain ⟨a', hresult, hsize⟩ := buddyAlloc_initial 40265318 fun _ => none
  have hlevel : levelToSize (sizeToLevel 40265318) = 64 * 1024 * 1024 := by decide +kernel
  rw [hlevel] at hresult
  have hlarge := hsound.large 0 a' hresult
  omega

end LgxRuntime.GpuPool
