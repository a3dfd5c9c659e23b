import LgxRuntime.Machine
import LgxRuntime.Lib.FitLevel
import Mathlib.Logic.Function.Basic
import Mathlib.Tactic.Simps.Basic

/-!
# The buddy allocator of the GPU pool

One Vulkan memory block is managed by a table of block records, `all_blocks`.  Free blocks of a level
are on a doubly linked list, and the slots of records that a merge has left behind are on a stack of
dead slots, from which a split takes its new record.  When the table is full it is reallocated, and the
free lists are built anew.

A pointer into the table is modelled by its slot.  `realloc` may move the table, and every stored
pointer then dangles: what it designates in the new table is arbitrary (`Moved`), and so is the
content of the new slots.
-/

namespace LgxRuntime.GpuPool

/-- `MIN_BLOCK_SIZE`. -/
def minBlockSize : ℕ := 256

/-- `MAX_BLOCK_SIZE`: 64 MB. -/
def maxBlockSize : ℕ := 64 * 1024 * 1024

/-- `NUM_BUDDY_LEVELS`. -/
def numBuddyLevels : ℕ := 19

/-- `buddy_block_t`. -/
structure BuddyBlock where
  next : Option ℕ
  prev : Option ℕ
  offset : ℕ
  size : ℕ
  isFree : Bool
  level : ℕ
  deriving DecidableEq, Repr

/-- `buddy_allocator_t`. -/
structure Allocator where
  freeLists : ℕ → Option ℕ
  memory : ℕ
  totalSize : ℕ
  mappedPtr : Option ℕ
  allBlocks : ℕ → BuddyBlock
  numBlocks : ℕ
  maxBlocks : ℕ
  deadBlocks : Option ℕ
  allocatedBytes : ℕ
  peakAllocatedBytes : ℕ
  numAllocations : ℕ
  numFrees : ℕ
  numCoalesces : ℕ

namespace Allocator

/-- `free_lists[level] = head`. -/
@[simps]
def setFreeList (a : Allocator) (level : ℕ) (head : Option ℕ) : Allocator :=
  { a with freeLists := Function.update a.freeLists level head }

/-- Write the record in slot `i`. -/
@[simps]
def setBlock (a : Allocator) (i : ℕ) (block : BuddyBlock) : Allocator :=
  { a with allBlocks := Function.update a.allBlocks i block }

/-- `block->next = next` for the block in slot `i`. -/
def setNext (a : Allocator) (i : ℕ) (next : Option ℕ) : Allocator :=
  a.setBlock i { a.allBlocks i with next := next }

/-- `block->prev = prev` for the block in slot `i`. -/
def setPrev (a : Allocator) (i : ℕ) (prev : Option ℕ) : Allocator :=
  a.setBlock i { a.allBlocks i with prev := prev }

end Allocator

/-- `size_to_level`. -/
def sizeToLevel (size : ℕ) : ℕ :=
  if size ≤ minBlockSize then 0 else fitLevel (numBuddyLevels - 1) size minBlockSize 0

/-- `level_to_size`. -/
def levelToSize (level : ℕ) : ℕ :=
  minBlockSize <<< level

/-- `get_buddy_offset`. -/
def getBuddyOffset (offset level : ℕ) : ℕ :=
  offset ^^^ levelToSize level

/-- `buddy_init`, when `calloc` succeeds. -/
def buddyInit (size : ℕ) : Allocator :=
  let maxLevel := sizeToLevel size
  let zero : BuddyBlock :=
    { next := none, prev := none, offset := 0, size := 0, isFree := false, level := 0 }
  { freeLists := Function.update (fun _ => none) maxLevel (some 0)
    memory := 0
    totalSize := size
    mappedPtr := none
    allBlocks := Function.update (fun _ => zero) 0
      { next := none, prev := none, offset := 0, size := size, isFree := true, level := maxLevel }
    numBlocks := 1
    maxBlocks := 1024
    deadBlocks := none
    allocatedBytes := 0
    peakAllocatedBytes := 0
    numAllocations := 0
    numFrees := 0
    numCoalesces := 0 }

/-! ## List surgery -/

/-- Remove the block in slot `i` from the free list of its level. -/
def unlink (a : Allocator) (i : ℕ) : Allocator :=
  let a₁ :=
    match (a.allBlocks i).prev with
    | some p => a.setNext p (a.allBlocks i).next
    | none => a.setFreeList (a.allBlocks i).level (a.allBlocks i).next
  match (a₁.allBlocks i).next with
  | some n => a₁.setPrev n (a₁.allBlocks i).prev
  | none => a₁

/-- Add the block in slot `i` to the front of the free list of its level. -/
def pushFree (a : Allocator) (i : ℕ) : Allocator :=
  let a₁ := (a.setNext i (a.freeLists (a.allBlocks i).level)).setPrev i none
  -- the old head points back to the new one
  let a₂ :=
    match a₁.freeLists (a₁.allBlocks i).level with
    | some head => a₁.setPrev head (some i)
    | none => a₁
  a₂.setFreeList (a₂.allBlocks i).level (some i)

/-- One round of the loop of `buddy_rebuild_free_lists`. -/
def rebuildBlock (a : Allocator) (i : ℕ) : Allocator :=
  if (a.allBlocks i).isFree then pushFree a i else (a.setNext i none).setPrev i none

/-- `buddy_rebuild_free_lists`. -/
def buddyRebuildFreeLists (a : Allocator) : Allocator :=
  (List.range a.numBlocks).foldl rebuildBlock { a with freeLists := fun _ => none }

/-! ## Splitting -/

/-- What the stored pointers designate after `realloc` has moved the table, and the content of the new
slots. -/
structure Moved where
  next : ℕ → Option ℕ
  prev : ℕ → Option ℕ
  heads : ℕ → Option ℕ
  fresh : ℕ → BuddyBlock

/-- The table after `realloc` has moved it. -/
def moveBlocks (a : Allocator) (moved : Moved) (newMax : ℕ) : Allocator :=
  { a with
    allBlocks := fun i =>
      if i < a.maxBlocks then { a.allBlocks i with next := moved.next i, prev := moved.prev i }
      else moved.fresh i
    freeLists := moved.heads
    maxBlocks := newMax }

/-- The first part of `buddy_split`: make room for one more record.  `none` if `realloc` fails. -/
def ensureCapacity (a : Allocator) (realloc : Option Moved) : Option Allocator :=
  if a.deadBlocks = none ∧ a.numBlocks ≥ a.maxBlocks then
    match realloc with
    | none => none
    -- the stored pointers are stale after the move, so that the lists are built anew
    | some moved => some (buddyRebuildFreeLists (moveBlocks a moved (a.maxBlocks * 2)))
  else some a

/-- The slot for the new record of a split: a dead one when available, otherwise a new one. -/
def takeSlot (a : Allocator) : ℕ × Allocator :=
  match a.deadBlocks with
  | some buddy => (buddy, { a with deadBlocks := (a.allBlocks buddy).next })
  | none => (a.numBlocks, { a with numBlocks := a.numBlocks + 1 })

/-- Split into two blocks at the lower level: the records of the two halves. -/
def halve (a : Allocator) (block buddy : ℕ) : Allocator :=
  let newLevel := (a.allBlocks block).level - 1
  let newSize := levelToSize newLevel
  let a₁ := a.setBlock block { a.allBlocks block with level := newLevel, size := newSize }
  a₁.setBlock buddy
    { next := none, prev := none, offset := (a₁.allBlocks block).offset + newSize, size := newSize,
      isFree := true, level := newLevel }

/-- Add both halves to the list of the lower level. -/
def addHalves (a : Allocator) (block buddy : ℕ) : Allocator :=
  let newLevel := (a.allBlocks block).level
  let a₁ := (a.setNext block (some buddy)).setPrev block none
  let a₂ := (a₁.setNext buddy (a₁.freeLists newLevel)).setPrev buddy (some block)
  let a₃ :=
    match a₂.freeLists newLevel with
    | some head => a₂.setPrev head (some buddy)
    | none => a₂
  a₃.setFreeList newLevel (some block)

/-- `buddy_split`. -/
def buddySplit (a : Allocator) (realloc : Option Moved) (block : ℕ) : Option ℕ × Allocator :=
  if (a.allBlocks block).level = 0 then (none, a)
  else
    match ensureCapacity a realloc with
    -- the block stays on its list
    | none => (none, a)
    | some a₁ =>
        let a₂ := unlink a₁ block
        let (buddy, a₃) := takeSlot a₂
        (some block, addHalves (halve a₃ block buddy) block buddy)

/-! ## Searching for a free block -/

/-- `lgx_simd_find_nonempty_slot`: the first slot that is not `NULL`. -/
def findNonemptySlot (slots : ℕ → Option ℕ) (count : ℕ) : Option ℕ :=
  (List.range count).find? fun i => (slots i).isSome

/-- The loop of `buddy_find_free_block` that splits `block` down to `level`.  Each split of the loop has
its own `realloc` outcome, given by the level of the block it splits; `none` means that the loop has not
ended after `fuel` rounds. -/
def splitDown (realloc : ℕ → Option Moved) (level : ℕ) :
    ℕ → Allocator → Option ℕ → Option (Option ℕ × Allocator)
  | 0, _, _ => none
  | _ + 1, a, none => some (none, a)
  | fuel + 1, a, some block =>
      if (a.allBlocks block).level > level then
        let (result, a') := buddySplit a (realloc (a.allBlocks block).level) block
        splitDown realloc level fuel a' result
      else some (some block, a)

/-- `buddy_find_free_block`. -/
def buddyFindFreeBlock (a : Allocator) (realloc : ℕ → Option Moved) (level : ℕ) :
    Option (Option ℕ × Allocator) :=
  match a.freeLists level with
  | some block => some (some block, a)
  | none =>
      match findNonemptySlot (fun i => a.freeLists (level + 1 + i)) (numBuddyLevels - (level + 1)) with
      -- the smallest block that is large enough
      | some foundIdx =>
          splitDown realloc level (numBuddyLevels + 1) a (a.freeLists (level + 1 + foundIdx))
      | none => some (none, a)

/-! ## Coalescing -/

/-- The search of `buddy_coalesce` for a free buddy of `block`. -/
def findBuddy (a : Allocator) (block : ℕ) : Option ℕ :=
  (List.range a.numBlocks).find? fun i =>
    (a.allBlocks i).offset == getBuddyOffset (a.allBlocks block).offset (a.allBlocks block).level &&
      (a.allBlocks i).level == (a.allBlocks block).level && (a.allBlocks i).isFree

/-- Merge the unlinked buddies `lower` and `upper`: the slot of `upper` goes on the stack of dead slots. -/
def merge (a : Allocator) (lower upper : ℕ) : Allocator :=
  let newLevel := (a.allBlocks lower).level + 1
  let a₁ := a.setBlock lower
    { a.allBlocks lower with level := newLevel, size := levelToSize newLevel }
  let a₂ := a₁.setBlock upper
    { a₁.allBlocks upper with isFree := false, next := a₁.deadBlocks, prev := none }
  { a₂ with deadBlocks := some upper }

/-- Merge the two and add the merged block to the list of the next level. -/
def absorb (a : Allocator) (lower upper : ℕ) : Allocator :=
  let a₁ := pushFree (merge a lower upper) lower
  { a₁ with numCoalesces := a₁.numCoalesces + 1 }

/-- One round of `buddy_coalesce`, with the slot of the merged block. -/
def mergeBuddies (a : Allocator) (block buddy : ℕ) : ℕ × Allocator :=
  let a₁ := unlink (unlink a block) buddy
  -- the lower one of the two keeps its slot
  if (a₁.allBlocks block).offset > (a₁.allBlocks buddy).offset then (buddy, absorb a₁ buddy block)
  else (block, absorb a₁ block buddy)

/-- `buddy_coalesce`, `none` meaning that the loop has not ended after `fuel` rounds. -/
def buddyCoalesce : ℕ → Allocator → ℕ → Option Allocator
  | 0, _, _ => none
  | fuel + 1, a, block =>
      if (a.allBlocks block).level ≥ numBuddyLevels - 1 then some a
      else
        match findBuddy a block with
        | none => some a
        | some buddy =>
            let (merged, a') := mergeBuddies a block buddy
            buddyCoalesce fuel a' merged

/-! ## Allocation and deallocation -/

/-- The loop of `buddy_alloc` that adjusts the level for the alignment. -/
def alignLevel (alignment level : ℕ) : ℕ :=
  if levelToSize level < alignment then alignLevel alignment (level + 1) else level
termination_by alignment - levelToSize level
decreasing_by
  have hpos : 0 < levelToSize level := by
    rw [levelToSize, Nat.shiftLeft_eq]
    exact Nat.mul_pos (by decide) (Nat.two_pow_pos level)
  have hnext : levelToSize (level + 1) = 2 * levelToSize level := by
    rw [levelToSize, Nat.shiftLeft_succ, levelToSize]
  omega

/-- The level that `buddy_alloc` looks for: the size is adjusted for the alignment first, then the
level. -/
def requestLevel (size alignment : ℕ) : ℕ :=
  let size := if size < alignment then alignment else size
  alignLevel alignment (sizeToLevel size)

/-- The tail of `buddy_alloc`, once `block` has been found. -/
def takeBlock (a : Allocator) (block : ℕ) : Allocator :=
  let a₁ := unlink a block
  let a₂ := a₁.setBlock block { a₁.allBlocks block with isFree := false, next := none, prev := none }
  let allocated := wrap64 (a₂.allocatedBytes + (a₂.allBlocks block).size)
  { a₂ with
    allocatedBytes := allocated
    peakAllocatedBytes := if allocated > a₂.peakAllocatedBytes then allocated
      else a₂.peakAllocatedBytes
    numAllocations := a₂.numAllocations + 1 }

/-- `buddy_alloc`: the slot of the block, if any. -/
def buddyAlloc (a : Allocator) (realloc : ℕ → Option Moved) (size alignment : ℕ) :
    Option (Option ℕ × Allocator) :=
  if size > maxBlockSize ∨ alignment > maxBlockSize then some (none, a)
  else
    match buddyFindFreeBlock a realloc (requestLevel size alignment) with
    | none => none
    -- blocks that were split on the way stay split
    | some (none, a') => some (none, a')
    | some (some block, a') => some (some block, takeBlock a' block)

/-- `buddy_free` of the block in slot `block`. -/
def buddyFree (a : Allocator) (block : ℕ) : Option Allocator :=
  -- a second free is ignored
  if (a.allBlocks block).isFree then some a
  else
    let a₁ := a.setBlock block { a.allBlocks block with isFree := true }
    let a₂ :=
      { a₁ with
        allocatedBytes := sub64 a₁.allocatedBytes (a₁.allBlocks block).size
        numFrees := a₁.numFrees + 1 }
    buddyCoalesce numBuddyLevels (pushFree a₂ block) block

end LgxRuntime.GpuPool
