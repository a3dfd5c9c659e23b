import LgxRuntime.PersistentHeap.Buddy

/-!
# The persistent heap

`lgx_heap_alloc` serves requests of up to 4 KB, its 24-byte header included, from slabs of one size
class each, and larger ones from the buddy allocator.  A slot of a slab leaves the bitmap of its slab
once; from then on it is in the hands of a client or on the free list of its class, which is linked
through the first word of the slot, where the header was.

The memory of the slabs and of the buddy payloads is modelled by the 24 bytes at each address, which
hold a header or a list node.  Mutexes, messages, time stamps, the fragmentation ratio and the
histogram of size classes are left out; whether a size class is hot is an input of the model, as are
the addresses that the system hands out for new slabs.
-/

namespace LgxRuntime.PersistentHeap

open Function (update)

/-- `NUM_SIZE_CLASSES`. -/
def numSizeClasses : ℕ := 16

/-- `MIN_SIZE_CLASS`. -/
def minSizeClass : ℕ := 16

/-- `MAX_SIZE_CLASS`. -/
def maxSizeClass : ℕ := 4096

/-- `SLAB_SIZE`: 2 MB. -/
def slabSize : ℕ := 2 * 1024 * 1024

/-- `MAX_HEAP_SIZE`: 16 GB. -/
def maxHeapSize : ℕ := 16 * 1024 * 1024 * 1024

/-- `MAX_ACTIVE_ALLOCATIONS`. -/
def maxActiveAllocations : ℕ := 1000 * 1000

/-- `ALLOC_MAGIC`. -/
def allocMagic : ℕ := 0xDEADBEEF

/-- `sizeof(allocation_header_t)`. -/
def headerSize : ℕ := 24

/-! ## Headers and list nodes -/

/-- The 24 bytes at an address, read as an `allocation_header_t` or as a `free_node_t`: the magic
number and the size share the first word with the link, the time stamp shares the second word with the
generation. -/
structure Cell where
  word0 : ℕ
  word1 : ℕ
  sizeClass : ℤ
  deriving DecidableEq

namespace Cell

/-- `header->magic`. -/
def magic (c : Cell) : ℕ :=
  c.word0 % 2 ^ 32

/-- `header->size`. -/
def size (c : Cell) : ℕ :=
  c.word0 / 2 ^ 32

/-- `node->next`. -/
def next (c : Cell) : Option ℕ :=
  if c.word0 = 0 then none else some c.word0

end Cell

/-- The header that `lgx_heap_alloc` writes; the size is stored in 32 bits. -/
def allocationHeader (size : ℕ) (sizeClass : ℤ) : Cell :=
  { word0 := allocMagic + 2 ^ 32 * (size % 2 ^ 32), word1 := 0, sizeClass := sizeClass }

/-! ## Size classes and slabs -/

/-- `size_to_class`. -/
def sizeToClass (size : ℕ) : ℕ :=
  if size ≤ minSizeClass then 0
  else if size > maxSizeClass then numSizeClasses
  else fitLevel (numSizeClasses - 1) size minSizeClass 0

/-- `class_to_size`. -/
def classToSize (sizeClass : ℕ) : ℕ :=
  minSizeClass <<< sizeClass

/-- `slab_t`, without its place in the list of slabs. -/
structure Slab where
  memory : ℕ
  objectSize : ℕ
  capacity : ℕ
  used : ℕ
  allocationBitmap : ℕ → BitVec 8

/-- `size_class_allocator_t`. -/
structure SizeClassAllocator where
  freeList : Option ℕ
  generation : ℕ
  slabs : List Slab
  objectSize : ℕ
  numAllocations : ℕ
  numFrees : ℕ
  numSlabs : ℕ

/-- `allocate_slab`, on the memory that the system hands out; `none` if it hands out none. -/
def allocateSlab (objectSize : ℕ) (memory : Option ℕ) : Option Slab :=
  if objectSize = 0 then none
  else if objectSize > slabSize then none
  else if objectSize &&& (objectSize - 1) ≠ 0 then none
  else
    match memory with
    | none => none
    | some memory =>
        let capacity := slabSize / objectSize
        if capacity = 0 ∨ capacity > slabSize then none
        else if (capacity + 7) / 8 > slabSize / 8 then none
        else
          some
            { memory := memory, objectSize := objectSize, capacity := capacity, used := 0,
              allocationBitmap := fun _ => 0 }

namespace Slab

/-- `allocation_bitmap[i / 8] & (1 << (i % 8))`. -/
def isSet (slab : Slab) (i : ℕ) : Bool :=
  slab.allocationBitmap (i / 8) &&& BitVec.twoPow 8 (i % 8) != 0

/-- `allocation_bitmap[i / 8] |= (1 << (i % 8))`. -/
def setBit (slab : Slab) (i : ℕ) : Slab :=
  { slab with
    allocationBitmap := update slab.allocationBitmap (i / 8)
      (slab.allocationBitmap (i / 8) ||| BitVec.twoPow 8 (i % 8)) }

/-- `allocation_bitmap[i / 8] &= ~(1 << (i % 8))`. -/
def clearBit (slab : Slab) (i : ℕ) : Slab :=
  { slab with
    allocationBitmap := update slab.allocationBitmap (i / 8)
      (slab.allocationBitmap (i / 8) &&& ~~~BitVec.twoPow 8 (i % 8)) }

/-- The scan of `slab_alloc` for a free slot, which stops at the end of the bitmap. -/
def findFree (slab : Slab) : Option ℕ :=
  ((List.range slab.capacity).takeWhile fun i => i / 8 < (slab.capacity + 7) / 8).find? fun i =>
    !slab.isSet i

end Slab

/-- `slab_alloc`. -/
def slabAlloc (slab : Slab) : Option ℕ × Slab :=
  if slab.used ≥ slab.capacity then (none, slab)
  else if slab.objectSize = 0 then (none, slab)
  else
    match slab.findFree with
    | none => (none, slab)
    | some i =>
        let slab₁ := { slab.setBit i with used := slab.used + 1 }
        let ptr := slab₁.memory + i * slab₁.objectSize
        if ptr < slab₁.memory ∨ ptr + slab₁.objectSize > slab₁.memory + slabSize then
          -- the slot does not fit into the slab, and the bit is taken back
          (none, { slab₁.clearBit i with used := slab₁.used - 1 })
        else (some ptr, slab₁)

/-- The walk of `lgx_heap_alloc` over the slabs of a class. -/
def slabsAlloc : List Slab → Option ℕ × List Slab
  | [] => (none, [])
  | slab :: slabs =>
      match slabAlloc slab with
      | (some ptr, slab') => (some ptr, slab' :: slabs)
      | (none, slab') =>
          let (result, slabs') := slabsAlloc slabs
          (result, slab' :: slabs')

/-! ## The free list of a class -/

/-- What the segregated-fit path works on: a size class, the memory that its slots are in, and the
count of failures. -/
structure ClassState where
  allocator : SizeClassAllocator
  cells : ℕ → Cell
  numOomErrors : ℕ

namespace ClassState

/-- Pop the head of the free list. -/
def popFree (s : ClassState) : Option ℕ × ClassState :=
  match s.allocator.freeList with
  | none => (none, s)
  | some node =>
      (some node, { s with allocator := { s.allocator with freeList := (s.cells node).next } })

/-- Push a slot on the free list. -/
def pushFree (s : ClassState) (node : ℕ) : ClassState :=
  { s with
    allocator :=
      { s.allocator with
        freeList := some node
        generation := wrap64 (s.allocator.generation + 1) }
    cells := update s.cells node
      { s.cells node with
        word0 := s.allocator.freeList.getD 0
        word1 := s.allocator.generation } }

/-- The batch refill: push up to `count` further slots of a new slab on the free list. -/
def refill (s : ClassState) (slab : Slab) : ℕ → Slab × ClassState
  | 0 => (slab, s)
  | count + 1 =>
      match slabAlloc slab with
      | (none, slab') => (slab', s)
      | (some ptr, slab') => refill (s.pushFree ptr) slab' count

/-- The batch size: 32, or 64 for a hot class, and at most half of the slab. -/
def batchSize (hot : Bool) (capacity : ℕ) : ℕ :=
  let batch := if hot then 64 else 32
  if batch > capacity / 2 then capacity / 2 else batch

/-- Put a slab in front of the list of slabs. -/
def addSlab (s : ClassState) (slab : Slab) : ClassState :=
  { s with
    allocator :=
      { s.allocator with
        slabs := slab :: s.allocator.slabs
        numSlabs := s.allocator.numSlabs + 1 } }

/-- A new slab is put in front of the list, serves the request and refills the free list. -/
def growAlloc (s : ClassState) (hot : Bool) (memory : Option ℕ) : Option ℕ × ClassState :=
  match allocateSlab s.allocator.objectSize memory with
  | none => (none, { s with numOomErrors := s.numOomErrors + 1 })
  | some newSlab =>
      -- the first slot serves the request, further ones go on the free list
      let (ptr, slab₁) := slabAlloc newSlab
      let (slab₂, s₁) := s.refill slab₁ (batchSize hot slab₁.capacity)
      (ptr, s₁.addSlab slab₂)

/-- The segregated-fit path of `lgx_heap_alloc`: the free list, then the slabs, then a new slab. -/
def alloc (s : ClassState) (hot : Bool) (memory : Option ℕ) : Option ℕ × ClassState :=
  match s.popFree with
  | (some node, s') => (some node, s')
  | (none, _) =>
      match slabsAlloc s.allocator.slabs with
      | (some ptr, slabs') => (some ptr, { s with allocator := { s.allocator with slabs := slabs' } })
      | (none, slabs') =>
          growAlloc { s with allocator := { s.allocator with slabs := slabs' } } hot memory

end ClassState

/-! ## The heap -/

/-- `persistent_heap_t`, once it has been initialized. -/
structure Heap where
  sizeClasses : ℕ → SizeClassAllocator
  buddy : Buddy
  cells : ℕ → Cell
  totalAllocations : ℕ
  totalFrees : ℕ
  totalBytesAllocated : ℕ
  peakBytesAllocated : ℕ
  currentBytesAllocated : ℕ
  numActiveAllocations : ℕ
  numOomErrors : ℕ
  numRateLimitErrors : ℕ
  numValidationErrors : ℕ

/-- `lgx_persistent_heap_init`, on a buddy pool at `memory`. -/
def persistentHeapInit (memory : ℕ) (contents : ℕ → BuddyBlock) (cells : ℕ → Cell) : Heap :=
  { sizeClasses := fun i =>
      { freeList := none, generation := 1, slabs := [], objectSize := classToSize i,
        numAllocations := 0, numFrees := 0, numSlabs := 0 }
    buddy := buddyInit memory contents
    cells := cells
    totalAllocations := 0
    totalFrees := 0
    totalBytesAllocated := 0
    peakBytesAllocated := 0
    currentBytesAllocated := 0
    numActiveAllocations := 0
    numOomErrors := 0
    numRateLimitErrors := 0
    numValidationErrors := 0 }

namespace Heap

/-- The state of a size class. -/
def classState (h : Heap) (c : ℕ) : ClassState :=
  { allocator := h.sizeClasses c, cells := h.cells, numOomErrors := h.numOomErrors }

/-- Write back the state of a size class. -/
def setClassState (h : Heap) (c : ℕ) (s : ClassState) : Heap :=
  { h with
    sizeClasses := update h.sizeClasses c s.allocator
    cells := s.cells
    numOomErrors := s.numOomErrors }

/-- The part of `lgx_heap_alloc` that finds memory for `totalSize` bytes, with the size class that it
records in the header. -/
def findMemory (h : Heap) (hot : Bool) (slabMemory : Option ℕ) (totalSize : ℕ) :
    Option ℕ × ℤ × Heap :=
  let sizeClass := sizeToClass totalSize
  if sizeClass < numSizeClasses then
    match (h.classState sizeClass).alloc hot slabMemory with
    | (none, s) => (none, sizeClass, h.setClassState sizeClass s)
    | (some ptr, s) =>
        (some ptr, sizeClass,
          h.setClassState sizeClass
            { s with
              allocator := { s.allocator with numAllocations := s.allocator.numAllocations + 1 } })
  else
    match buddyAlloc h.buddy totalSize with
    -- the class -1 stands for the buddy allocator
    | (none, b) => (none, -1, { h with buddy := b, numOomErrors := h.numOomErrors + 1 })
    | (some ptr, b) => (some ptr, -1, { h with buddy := b })

/-- The tail of `lgx_heap_alloc`: write the header and update the statistics. -/
def finishAlloc (h : Heap) (ptr size : ℕ) (sizeClass : ℤ) : ℕ × Heap :=
  let current := wrap64 (h.currentBytesAllocated + size)
  (ptr + headerSize,
    { h with
      cells := update h.cells ptr (allocationHeader size sizeClass)
      totalAllocations := h.totalAllocations + 1
      numActiveAllocations := h.numActiveAllocations + 1
      currentBytesAllocated := current
      totalBytesAllocated := wrap64 (h.totalBytesAllocated + size)
      peakBytesAllocated := if current > h.peakBytesAllocated then current
        else h.peakBytesAllocated })

end Heap

/-- `lgx_heap_alloc`. -/
def lgxHeapAlloc (h : Heap) (hot : Bool) (slabMemory : Option ℕ) (size : ℕ) : Option ℕ × Heap :=
  if size = 0 then (none, { h with numValidationErrors := h.numValidationErrors + 1 })
  else if size > maxHeapSize then (none, { h with numValidationErrors := h.numValidationErrors + 1 })
  else if h.numActiveAllocations ≥ maxActiveAllocations then
    (none, { h with numRateLimitErrors := h.numRateLimitErrors + 1 })
  else if wrap64 (h.currentBytesAllocated + size) > maxHeapSize then
    (none, { h with numOomErrors := h.numOomErrors + 1 })
  else
    match h.findMemory hot slabMemory (size + headerSize) with
    | (none, _, h₁) => (none, h₁)
    | (some ptr, sizeClass, h₁) =>
        let (result, h₂) := h₁.finishAlloc ptr size sizeClass
        (some result, h₂)

/-- `lgx_heap_free` in a release build. -/
def lgxHeapFree (h : Heap) (ptr : ℕ) : Option Heap :=
  if ptr = 0 then some h
  else
    let header := ptr - headerSize
    -- the header says where the memory came from
    if (h.cells header).magic ≠ allocMagic then
      some { h with numValidationErrors := h.numValidationErrors + 1 }
    else
      let sizeClass := (h.cells header).sizeClass
      let size := (h.cells header).size
      let freed : Option Heap :=
        if 0 ≤ sizeClass ∧ sizeClass < numSizeClasses then
          let c := sizeClass.toNat
          let s := (h.classState c).pushFree header
          some (h.setClassState c
            { s with allocator := { s.allocator with numFrees := s.allocator.numFrees + 1 } })
        else (buddyFree h.buddy header).map fun b => { h with buddy := b }
      freed.map fun h₁ =>
        { h₁ with
          totalFrees := h₁.totalFrees + 1
          numActiveAllocations := sub64 h₁.numActiveAllocations 1
          currentBytesAllocated := sub64 h₁.currentBytesAllocated size }

/-- `lgx_heap_is_heap_pointer`. -/
def lgxHeapIsHeapPointer (h : Heap) (ptr : ℕ) : Bool :=
  if ptr = 0 then false
  else if h.buddy.memory ≤ ptr ∧ ptr < h.buddy.memory + h.buddy.totalSize then
    (h.cells (ptr - headerSize)).magic == allocMagic
  else
    match ((List.range numSizeClasses).flatMap fun c => (h.sizeClasses c).slabs).find? fun slab =>
        slab.memory ≤ ptr ∧ ptr < slab.memory + slabSize with
    | some _ => (h.cells (ptr - headerSize)).magic == allocMagic
    | none => false

end LgxRuntime.PersistentHeap
