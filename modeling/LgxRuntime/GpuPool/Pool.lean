import LgxRuntime.GpuPool.BuddyRun

/-!
# The GPU memory pool

The pool manages one Vulkan memory block for each memory type through a buddy allocator.  The size of
the block, its budget, is the default of the type, capped to 80 % of the heap that the type lives in.
`heap_size * 0.8` is computed in floating point; its value is a parameter of the model.

Allocation goes through `lgx_gpu_alloc`, which makes a handle for the block, and `lgx_gpu_free`, which
finds the block by the slot that the handle records.  The fragmentation ratio is left out.
-/

namespace LgxRuntime.GpuPool

open Function (update)

/-- `lgx_gpu_memory_type_t`. -/
inductive MemoryType
  | deviceLocal
  | hostVisible
  | hostCached
  deriving DecidableEq, Repr

/-- `GPU_DEVICE_LOCAL_SIZE`, `GPU_HOST_VISIBLE_SIZE` and `GPU_HOST_CACHED_SIZE`. -/
def defaultBudget : MemoryType → ℕ
  | .deviceLocal => 256 * 1024 * 1024
  | .hostVisible => 64 * 1024 * 1024
  | .hostCached => 16 * 1024 * 1024

/-! ## Memory types and budgets -/

/-- `VkMemoryType`. -/
structure VkMemoryType where
  propertyFlags : ℕ
  heapIndex : ℕ

/-- `VkPhysicalDeviceMemoryProperties`: the memory types and the sizes of the heaps. -/
structure MemoryProperties where
  memoryTypes : List VkMemoryType
  heapSize : ℕ → ℕ

/-- `find_memory_type` with the filter that admits every type. -/
def findMemoryType (props : MemoryProperties) (properties : ℕ) : Option ℕ :=
  (List.range props.memoryTypes.length).find? fun i =>
    (props.memoryTypes.map VkMemoryType.propertyFlags).getD i 0 &&& properties == properties

/-- `detect_memory_types`: the Vulkan memory type for each type of the pool, `none` for a type that is
not available.  The flags are 1 for device-local, 2 for host-visible, 4 for host-coherent and 8 for
host-cached memory. -/
def detectMemoryTypes (props : MemoryProperties) : MemoryType → Option ℕ
  | .deviceLocal => findMemoryType props 1
  | .hostVisible => findMemoryType props (2 ||| 4)
  | .hostCached => (findMemoryType props (2 ||| 8 ||| 4)).or (findMemoryType props (2 ||| 4))

/-- `query_memory_budget`, where `eightyPercent h` is the value of `(VkDeviceSize)(h * 0.8)`. -/
def queryMemoryBudget (props : MemoryProperties) (eightyPercent : ℕ → ℕ) (type : MemoryType) : ℕ :=
  match detectMemoryTypes props type with
  | none => 0
  | some index =>
      let heapIndex := (props.memoryTypes.map VkMemoryType.heapIndex).getD index 0
      let maxBudget := eightyPercent (props.heapSize heapIndex)
      if defaultBudget type > maxBudget then maxBudget else defaultBudget type

/-! ## The pool -/

/-- `struct lgx_gpu_allocation`. -/
structure GpuAllocation extends Handle where
  memoryType : MemoryType
  memory : ℕ
  mappedPtr : Option ℕ
  deriving DecidableEq

/-- `struct lgx_gpu_pool`, once it has been initialized. -/
structure Pool where
  available : MemoryType → Bool
  totalBudget : MemoryType → ℕ
  usedBudget : MemoryType → ℕ
  allocators : MemoryType → Allocator
  allocationCount : ℕ
  deallocationCount : ℕ
  allocationFailures : ℕ

/-- `lgx_gpu_pool_init`, when all its Vulkan calls succeed: `memory` are the memory blocks that were
allocated, and `mapped` the addresses they were mapped to. -/
def gpuPoolInit (props : MemoryProperties) (eightyPercent : ℕ → ℕ) (memory : MemoryType → ℕ)
    (mapped : MemoryType → Option ℕ) : Pool :=
  { available := fun type => (detectMemoryTypes props type).isSome
    totalBudget := queryMemoryBudget props eightyPercent
    usedBudget := fun _ => 0
    allocators := fun type =>
      { buddyInit (queryMemoryBudget props eightyPercent type) with
        memory := memory type
        mappedPtr := if type = .deviceLocal then none else mapped type }
    allocationCount := 0
    deallocationCount := 0
    allocationFailures := 0 }

/-- The handle that `lgx_gpu_alloc` fills in for the block in slot `block`. -/
def fillAllocation (a : Allocator) (type : MemoryType) (block : ℕ) : GpuAllocation :=
  { makeHandle a block with
    memoryType := type
    memory := a.memory
    mappedPtr := a.mappedPtr.map (· + (a.allBlocks block).offset) }

/-- `lgx_gpu_alloc`.  `chaos` is whether a fault is injected, `mallocOk` whether the memory for the
handle can be allocated. -/
def gpuAlloc (p : Pool) (chaos mallocOk : Bool) (realloc : ℕ → Option Moved) (size alignment : ℕ)
    (type : MemoryType) : Option (Option GpuAllocation × Pool) :=
  if chaos then some (none, p)
  else if p.available type = false then some (none, p)
  else
    match buddyAlloc (p.allocators type) realloc size alignment with
    | none => none
    | some (none, a) =>
        some (none,
          { p with
            allocators := update p.allocators type a
            allocationFailures := p.allocationFailures + 1 })
    | some (some block, a) =>
        if mallocOk = false then
          match buddyFree a block with
          | none => none
          | some a' => some (none, { p with allocators := update p.allocators type a' })
        else
          some (some (fillAllocation a type block),
            { p with
              allocators := update p.allocators type a
              usedBudget := update p.usedBudget type
                (wrap64 (p.usedBudget type + (a.allBlocks block).size))
              allocationCount := p.allocationCount + 1 })

/-- `lgx_gpu_free`. -/
def gpuFree (p : Pool) (alloc : GpuAllocation) : Option Pool :=
  let type := alloc.memoryType
  let p₁ :=
    { p with
      usedBudget := update p.usedBudget type (sub64 (p.usedBudget type) alloc.size)
      deallocationCount := p.deallocationCount + 1 }
  if alloc.blockIndex < (p₁.allocators type).numBlocks then
    match buddyFree (p₁.allocators type) alloc.blockIndex with
    | none => none
    | some a => some { p₁ with allocators := update p₁.allocators type a }
  else some p₁

end LgxRuntime.GpuPool
