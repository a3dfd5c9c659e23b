import LgxRuntime.Machine
import LgxRuntime.Lib.FitLevel
import Mathlib.Logic.Function.Basic
import Mathlib.Tactic.Simps.Basic

/-!
# The buddy allocator of the persistent heap

Large allocations of the persistent heap come from a 256 MB pool that is managed as one block of
64 MB, split and coalesced by powers of two.  Every block begins with a 24-byte header in the pool
itself: the link of its free list, its order and its free flag.  The pool is modelled by the headers
it holds, as a map from addresses; a header that a merge has left behind stays in the map, exactly as
it stays in memory.

The list walk of `buddy_coalesce` and its recursion are embedded with a bound on their steps, and
`none` for a walk that has not ended; on the lists the allocator builds the bound is never reached
(`Rep.buddyFree_spec` in `BuddyInvariant.lean`).
-/

namespace LgxRuntime.PersistentHeap

/-- `sizeof(buddy_block_t)`. -/
def buddyHeaderSize : ℕ := 24

/-- `BUDDY_NUM_ORDERS`: orders 0 (4 KB) to 14 (64 MB). -/
def buddyNumOrders : ℕ := 15

/-- `BUDDY_POOL_SIZE`: 256 MB. -/
def buddyPoolSize : ℕ := 2 ^ 28

/-- `buddy_block_t`, the header at the start of a block. -/
structure BuddyBlock where
  next : Option ℕ
  order : ℕ
  isFree : Bool
  deriving DecidableEq, Repr

/-- `buddy_allocator_t`, together with the headers stored in the pool. -/
structure Buddy where
  memory : ℕ
  totalSize : ℕ
  freeLists : ℕ → Option ℕ
  block : ℕ → BuddyBlock
  numAllocations : ℕ
  numFrees : ℕ
  numCoalesces : ℕ

namespace Buddy

/-- `free_lists[order] = head`. -/
@[simps]
def setFreeList (b : Buddy) (order : ℕ) (head : Option ℕ) : Buddy :=
  { b with freeLists := Function.update b.freeLists order head }

/-- Write the header at `addr`. -/
@[simps]
def setBlock (b : Buddy) (addr : ℕ) (header : BuddyBlock) : Buddy :=
  { b with block := Function.update b.block addr header }

/-- `block->next = free_lists[order]; free_lists[order] = block`. -/
def pushFree (b : Buddy) (order : ℕ) (addr : ℕ) : Buddy :=
  (b.setBlock addr { b.block addr with next := b.freeLists order }).setFreeList order (some addr)

end Buddy

/-- `size_to_order`. -/
def sizeToOrder (size : ℕ) : ℕ :=
  if size ≤ 2 ^ 12 then 0 else fitLevel (buddyNumOrders - 1) size (2 ^ 12) 0

/-- `order_to_size`. -/
def orderToSize (order : ℕ) : ℕ :=
  1 <<< (12 + order)

/-- `buddy_init` on a pool at `memory`, whose previous contents are arbitrary. -/
def buddyInit (memory : ℕ) (contents : ℕ → BuddyBlock) : Buddy :=
  let maxOrder := buddyNumOrders - 1
  { memory := memory
    totalSize := buddyPoolSize
    freeLists := Function.update (fun _ => none) maxOrder (some memory)
    block := Function.update contents memory { next := none, order := maxOrder, isFree := true }
    numAllocations := 0
    numFrees := 0
    numCoalesces := 0 }

/-! ## Allocation -/

/-- Initialise the two halves of `block` and put both on the list of `order`. -/
def addHalves (b : Buddy) (order : ℕ) (block : ℕ) : Buddy :=
  let buddy2 := block + orderToSize order
  let b₁ := b.setBlock block { next := some buddy2, order := order, isFree := true }
  let b₂ := b₁.setBlock buddy2 { next := b₁.freeLists order, order := order, isFree := true }
  b₂.setFreeList order (some block)

/-- The second half of `buddy_split`: take `block` off the list of `order + 1` and put its two halves
on the list of `order`. -/
def splitBlock (b : Buddy) (order : ℕ) (block : ℕ) : Option ℕ × Buddy :=
  let b₁ := b.setFreeList (order + 1) (b.block block).next
  let halfSize := orderToSize order
  let buddy2 := block + halfSize
  if buddy2 + halfSize > b₁.memory + b₁.totalSize then
    -- the block goes back on its list
    (none, b₁.pushFree (order + 1) block)
  else (some block, addHalves b₁ order block)

/-- `buddy_split`. -/
def buddySplit (b : Buddy) (order : ℕ) : Option ℕ × Buddy :=
  if order ≥ buddyNumOrders then (none, b)
  else if order ≥ buddyNumOrders - 1 then (none, b)
  else
    match b.freeLists (order + 1) with
    | some block => splitBlock b order block
    | none =>
        -- there is none: a larger one has to be split first
        match buddySplit b (order + 1) with
        | (none, b') => (none, b')
        | (some _, b') =>
            match b'.freeLists (order + 1) with
            | none => (none, b')
            | some block => splitBlock b' order block
termination_by buddyNumOrders - order

/-- The tail of `buddy_alloc`, once `block` has been found at the head of the list of `order`. -/
def takeBlock (b : Buddy) (order : ℕ) (block : ℕ) (size : ℕ) : Option ℕ × Buddy :=
  let b₁ := b.setFreeList order (b.block block).next
  let b₂ := b₁.setBlock block { b₁.block block with isFree := false, next := none }
  let result := block + buddyHeaderSize
  if result < b₂.memory ∨ wrap64 (result + size) > b₂.memory + b₂.totalSize then
    -- the block goes back on its list
    let b₃ := b₂.setBlock block { b₂.block block with isFree := true }
    (none, b₃.pushFree order block)
  else (some result, { b₂ with numAllocations := b₂.numAllocations + 1 })

/-- `buddy_alloc`. -/
def buddyAlloc (b : Buddy) (size : ℕ) : Option ℕ × Buddy :=
  if size = 0 then (none, b)
  else if size > sizeMax - buddyHeaderSize then (none, b)
  else
    let order := sizeToOrder (size + buddyHeaderSize)
    if order ≥ buddyNumOrders then (none, b)
    else
      match b.freeLists order with
      | some block => takeBlock b order block size
      | none =>
          match buddySplit b order with
          | (none, b') => (none, b')
          | (some block, b') => takeBlock b' order block size

/-! ## Deallocation -/

/-- `get_buddy_address`. -/
def getBuddyAddress (b : Buddy) (block : ℕ) : Option ℕ :=
  if block < b.memory ∨ block ≥ b.memory + b.totalSize then none
  else
    let blockSize := orderToSize (b.block block).order
    let buddyOffset := (block - b.memory) ^^^ blockSize
    if buddyOffset ≥ b.totalSize then none
    else if b.memory + buddyOffset + buddyHeaderSize > b.memory + b.totalSize then none
    else if b.memory + buddyOffset + blockSize > b.memory + b.totalSize then none
    else some (b.memory + buddyOffset)

/-- The pointer that the list walk stands on: the list head (`none`) or the link of a node. -/
def readLink (b : Buddy) (order : ℕ) : Option ℕ → Option ℕ
  | none => b.freeLists order
  | some node => (b.block node).next

/-- Write through the pointer that the list walk stands on. -/
def writeLink (b : Buddy) (order : ℕ) (value : Option ℕ) : Option ℕ → Buddy
  | none => b.setFreeList order value
  | some node => b.setBlock node { b.block node with next := value }

/-- The list walk of `buddy_coalesce`: unlink `target` from the list of `order`.  `some none` means
that the walk came to the end of the list, `none` that it has not ended after `fuel` links. -/
def unlinkFree (b : Buddy) (order : ℕ) (target : ℕ) : ℕ → Option ℕ → Option (Option Buddy)
  | 0, _ => none
  | fuel + 1, link =>
      match readLink b order link with
      | none => some none
      | some cur =>
          if cur = target then some (some (writeLink b order (b.block target).next link))
          else unlinkFree b order target fuel (some cur)

/-- The number of block headers the pool can hold, which bounds the length of every list walk. -/
def walkFuel (b : Buddy) : ℕ :=
  b.totalSize / 2 ^ 12 + 1

/-- `buddy_coalesce`, for a recursion of depth at most `fuel`. -/
def buddyCoalesce : ℕ → Buddy → ℕ → Option (ℕ × Buddy)
  | 0, _, _ => none
  | fuel + 1, b, block =>
      if (b.block block).order ≥ buddyNumOrders - 1 then some (block, b)
      else
        match getBuddyAddress b block with
        | none => some (block, b)
        | some buddyBlock =>
            if (b.block buddyBlock).isFree = false ∨
                (b.block buddyBlock).order ≠ (b.block block).order then some (block, b)
            else
              match unlinkFree b (b.block block).order buddyBlock (walkFuel b) none with
              | none => none
              -- the buddy is marked free and is on no list
              | some none => some (block, b)
              | some (some b₁) =>
                  let merged := if block < buddyBlock then block else buddyBlock
                  let b₂ := b₁.setBlock merged
                    { next := none, order := (b₁.block merged).order + 1, isFree := true }
                  let b₃ := { b₂ with numCoalesces := b₂.numCoalesces + 1 }
                  if (b₃.block merged).order ≥ buddyNumOrders - 1 then some (merged, b₃)
                  else buddyCoalesce fuel b₃ merged

/-- `buddy_free`. -/
def buddyFree (b : Buddy) (ptr : ℕ) : Option Buddy :=
  if ptr = 0 ∨ b.memory = 0 then some b
  else
    let block := ptr - buddyHeaderSize
    if block < b.memory ∨ block ≥ b.memory + b.totalSize then some b
    -- a second free is ignored
    else if (b.block block).isFree then some b
    else if (b.block block).order ≥ buddyNumOrders then some b
    else
      let b₁ := b.setBlock block { b.block block with isFree := true }
      let b₂ := { b₁ with numFrees := b₁.numFrees + 1 }
      match buddyCoalesce buddyNumOrders b₂ block with
      | none => none
      | some (merged, b₃) =>
          if (b₃.block merged).order ≥ buddyNumOrders then some b₃
          else some (b₃.pushFree (b₃.block merged).order merged)

end LgxRuntime.PersistentHeap
