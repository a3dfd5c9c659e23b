import LgxRuntime.GpuPool.BuddyRun

/-!
# The calls of `buddy_split` and the accesses to the free lists

A call of `buddy_alloc` splits blocks on the way.  `allocSplits` collects the allocators and the blocks that
`buddy_split` is called with, `rebuilds` the tables that `buddy_rebuild_free_lists` is called for, and
`allocIndices` the indices of `free_lists` that are accessed.  Every call of `buddy_split` is for a block
on the list of a level above the one of the request (`exists_valid_of_mem_allocSplits`).
-/

namespace LgxRuntime.GpuPool

open Allocator

/-! ## What is called -/

/-- The calls of `buddy_split` in the loop of `buddy_find_free_block`. -/
def downSplits (realloc : ℕ → Option Moved) (level : ℕ) :
    ℕ → Allocator → Option ℕ → List (Allocator × ℕ)
  | 0, _, _ => []
  | _ + 1, _, none => []
  | fuel + 1, a, some block =>
      if (a.allBlocks block).level > level then
        let (result, a') := buddySplit a (realloc (a.allBlocks block).level) block
        (a, block) :: downSplits realloc level fuel a' result
      else []

/-- The calls of `buddy_split` in `buddy_find_free_block`. -/
def findSplits (a : Allocator) (realloc : ℕ → Option Moved) (level : ℕ) : List (Allocator × ℕ) :=
  match a.freeLists level with
  | some _ => []
  | none =>
      match findNonemptySlot (fun i => a.freeLists (level + 1 + i)) (numBuddyLevels - (level + 1)) with
      | some foundIdx =>
          downSplits realloc level (numBuddyLevels + 1) a (a.freeLists (level + 1 + foundIdx))
      | none => []

/-- The calls of `buddy_split` in `buddy_alloc`. -/
def allocSplits (a : Allocator) (realloc : ℕ → Option Moved) (size alignment : ℕ) :
    List (Allocator × ℕ) :=
  if size > maxBlockSize ∨ alignment > maxBlockSize then []
  else findSplits a realloc (requestLevel size alignment)

/-- The table that `buddy_split` rebuilds the lists of, if it does. -/
def rebuilt (a : Allocator) (realloc : Option Moved) : Option Allocator :=
  if a.deadBlocks = none ∧ a.numBlocks ≥ a.maxBlocks then
    realloc.map fun moved => moveBlocks a moved (a.maxBlocks * 2)
  else none

/-- The tables that `buddy_alloc` rebuilds the lists of. -/
def rebuilds (a : Allocator) (realloc : ℕ → Option Moved) (size alignment : ℕ) : List Allocator :=
  (allocSplits a realloc size alignment).filterMap fun (b, block) =>
    rebuilt b (realloc (b.allBlocks block).level)

/-- The indices of `free_lists` that `buddy_rebuild_free_lists` accesses. -/
def rebuildIndices (a : Allocator) : List ℕ :=
  List.range numBuddyLevels ++
    ((List.range a.numBlocks).filter fun i => (a.allBlocks i).isFree).map fun i => (a.allBlocks i).level

/-- The indices of `free_lists` that `buddy_split` accesses: the level of the block and the next lower
one. -/
def splitIndices (a : Allocator) (realloc : Option Moved) (block : ℕ) : List ℕ :=
  if (a.allBlocks block).level = 0 ∨ ensureCapacity a realloc = none then []
  else
    (rebuilt a realloc).elim [] rebuildIndices ++
      [(a.allBlocks block).level, (a.allBlocks block).level - 1]

/-- The indices of `free_lists` that `buddy_find_free_block` accesses: the level, all higher ones, and those
of the splits. -/
def findIndices (a : Allocator) (realloc : ℕ → Option Moved) (level : ℕ) : List ℕ :=
  level :: (List.range (numBuddyLevels - (level + 1))).map (level + 1 + ·) ++
    (findSplits a realloc level).flatMap fun (b, block) =>
      splitIndices b (realloc (b.allBlocks block).level) block

/-- The indices of `free_lists` that `buddy_alloc` accesses.  The first one is prefetched; the last one is
the level of the block that is taken off its list. -/
def allocIndices (a : Allocator) (realloc : ℕ → Option Moved) (size alignment : ℕ) : List ℕ :=
  if size > maxBlockSize ∨ alignment > maxBlockSize then [0]
  else
    0 :: findIndices a realloc (requestLevel size alignment) ++
      match buddyFindFreeBlock a realloc (requestLevel size alignment) with
      | some (some block, a') => [(a'.allBlocks block).level]
      | _ => []

/-! ## When they are called -/

/-- The lists are rebuilt for a table without dead slots. -/
theorem deadBlocks_of_rebuilt {a b : Allocator} {realloc : Option Moved} (h : rebuilt a realloc = some b) :
    a.deadBlocks = none ∧ b.deadBlocks = none ∧ ensureCapacity a realloc = some (buddyRebuildFreeLists b) := by
  unfold rebuilt at h
  split at h
  · rename_i hfull
    obtain ⟨moved, rfl, rfl⟩ := Option.map_eq_some_iff.mp h
    refine ⟨hfull.1, hfull.1, ?_⟩
    rw [ensureCapacity, if_pos hfull]
  · cases h

namespace Valid

variable {m level : ℕ} {a : Allocator} {v : View} {i : ℕ}

theorem exists_valid_of_mem_downSplits {fuel n : ℕ} (realloc : ℕ → Option Moved) (h : Valid m a v)
    (hi : i ∈ v.free n) (hle : level ≤ n) :
    ∀ call ∈ downSplits realloc level fuel a (some i), ∃ v' k, Valid m call.1 v' ∧
      call.2 ∈ v'.free (k + 1) ∧ level ≤ k := by
  induction fuel generalizing n a v with
  | zero => simp [downSplits]
  | succ fuel ih =>
      have hlevel := (h.rep.free_mem n i hi).2.2
      rw [downSplits, allBlocks_level, hlevel]
      by_cases hlt : n > level
      · rw [if_pos hlt]
        obtain ⟨k, rfl⟩ : ∃ k, n = k + 1 := ⟨n - 1, by omega⟩
        have hfirst : ∃ v' k', Valid m a v' ∧ i ∈ v'.free (k' + 1) ∧ level ≤ k' := ⟨v, k, h, hi, by omega⟩
        rcases h.buddySplit_spec hi (realloc (k + 1)) with ⟨hfail, -⟩ | ⟨a₁, v₁, j, heq, h₁, hsplit, -⟩
        · rw [hfail]
          simp only [List.forall_mem_cons]
          refine ⟨hfirst, fun call hcall => ?_⟩
          cases fuel with
          | zero => cases hcall
          | succ fuel => cases hcall
        · rw [heq]
          simp only [List.forall_mem_cons]
          exact ⟨hfirst, ih h₁ (hsplit.mem_free h h₁) (by omega)⟩
      · rw [if_neg hlt]
        intro call hcall
        cases hcall

/-- Every call of `buddy_split` is for a free block of a level above the one that is looked for. -/
theorem exists_valid_of_mem_findSplits (h : Valid m a v) (realloc : ℕ → Option Moved) (level : ℕ) :
    ∀ call ∈ findSplits a realloc level, ∃ v' k, Valid m call.1 v' ∧ call.2 ∈ v'.free (k + 1) ∧
      level ≤ k := by
  unfold findSplits
  cases a.freeLists level with
  | some block => exact fun call hcall => by cases hcall
  | none =>
      simp only
      cases hfound : findNonemptySlot (fun i => a.freeLists (level + 1 + i))
        (numBuddyLevels - (level + 1)) with
      | none => exact fun call hcall => by cases hcall
      | some foundIdx =>
          obtain ⟨hsome, -⟩ := List.find?_range_eq_some.mp hfound
          obtain ⟨block, hblock⟩ := Option.isSome_iff_exists.mp hsome
          simp only [hblock]
          exact h.exists_valid_of_mem_downSplits realloc (h.rep.family.mem_of_head hblock) (by omega)

theorem exists_valid_of_mem_allocSplits (h : Valid m a v) (realloc : ℕ → Option Moved)
    (size alignment : ℕ) :
    ∀ call ∈ allocSplits a realloc size alignment, ∃ v' k, Valid m call.1 v' ∧
      call.2 ∈ v'.free (k + 1) ∧ requestLevel size alignment ≤ k := by
  unfold allocSplits
  split
  · exact fun call hcall => by cases hcall
  · exact h.exists_valid_of_mem_findSplits realloc _

end Valid

end LgxRuntime.GpuPool
