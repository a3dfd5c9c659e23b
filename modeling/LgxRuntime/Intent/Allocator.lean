import LgxRuntime.FrameArena.Arena
import LgxRuntime.PersistentHeap.Heap
import LgxRuntime.GpuPool.Pool
import LgxRuntime.MemoryManager.Manager

/-!
# The intent allocator and the unified free

`lgx_alloc_with_intent` picks an allocator by the fields of the intent: the GPU pool, the frame arenas,
which pass on what they cannot serve, or the persistent heap.  `lgx_free` gets an address only and has to
find the allocator again: by the chunks of the arenas, then by the memory of the heap and the magic
number before the address; everything else goes to the memory manager.

The GPU branch is there in builds with Vulkan.  What the system and chaos testing decide during a call is
the structure `Answers`.  Statistics are left out.
-/

namespace LgxRuntime.Intent

open Function (update)
open FrameArena (FrameState FrameResult lgxFrameAllocInternal lgxFrameIsFramePointer alignSize)
open PersistentHeap (Heap lgxHeapAlloc lgxHeapFree lgxHeapIsHeapPointer)
open GpuPool (Pool GpuAllocation Moved)

/-! ## Intents -/

/-- `lgx_access_pattern_t`. -/
inductive AccessPattern
  | sequential
  | random
  | writeOnce
  | unknown
  deriving DecidableEq, Repr

/-- `lgx_lifetime_t`. -/
inductive Lifetime
  | frame
  | level
  | session
  | unknown
  deriving DecidableEq, Repr

/-- `lgx_performance_hint_t`. -/
inductive PerformanceHint
  | criticalPath
  | background
  | bandwidthHungry
  | computeHeavy
  | gpuShared
  deriving DecidableEq, Repr

/-- `lgx_intent_validation_t`. -/
inductive IntentValidation
  | trust
  | validateWarn
  | validateAdapt
  deriving DecidableEq, Repr

/-- `lgx_allocation_intent_base_t`. -/
structure AllocationIntent where
  structSize : ℕ
  size : ℕ
  accessPattern : AccessPattern
  lifetime : Lifetime
  hint : PerformanceHint
  validationPolicy : IntentValidation
  deriving DecidableEq, Repr

/-- `sizeof(lgx_allocation_intent_base_t)`. -/
def intentSize : ℕ := 32

/-- `lgx_alloc_frame`. -/
def frameIntent (size : ℕ) : AllocationIntent :=
  ⟨intentSize, size, .sequential, .frame, .criticalPath, .trust⟩

/-- `lgx_alloc_level`. -/
def levelIntent (size : ℕ) : AllocationIntent :=
  ⟨intentSize, size, .random, .level, .background, .trust⟩

/-- `lgx_alloc_persistent`. -/
def persistentIntent (size : ℕ) : AllocationIntent :=
  ⟨intentSize, size, .random, .session, .background, .trust⟩

/-- `lgx_alloc_gpu_shared`. -/
def gpuSharedIntent (size : ℕ) : AllocationIntent :=
  ⟨intentSize, size, .writeOnce, .frame, .gpuShared, .trust⟩

/-! ## The runtime -/

/-- The allocators. -/
inductive Allocator
  | frameArena
  | persistentHeap
  | gpuPool
  | memoryManager
  deriving DecidableEq, Repr

/-- The allocators of a runtime, after `lgx_intent_allocator_init`.  The GPU pool is `none` until the
application initializes it; `handles` are the handles that `lgx_gpu_alloc` has made, by address. -/
structure Runtime (Thread : Type) where
  frame : FrameState
  heap : Heap
  gpuPool : Option Pool
  handles : ℕ → Option GpuAllocation
  memoryManager : MemoryManager.State Thread

/-- What is decided outside during a call of `lgx_alloc_with_intent`: the chunk that a frame arena grows
by and the memory for the node of the old one; whether a size class of the heap is hot, and the memory
for a new slab; a fault of the GPU, the memory for the handle, and where a table of blocks moves. -/
structure Answers where
  mapping : Option ℕ
  nodeOk : Bool
  hot : Bool
  slabMemory : Option ℕ
  chaos : Bool
  handle : Option ℕ
  realloc : ℕ → Option Moved

/-- A pointer that is returned, with the allocator that made it and the size that this allocator was
asked for. -/
structure Grant where
  producer : Allocator
  ptr : ℕ
  asked : ℕ

variable {Thread : Type}

namespace Runtime

/-- `lgx_heap_alloc`. -/
def heapAlloc (r : Runtime Thread) (e : Answers) (size : ℕ) : Option Grant × Runtime Thread :=
  let result := lgxHeapAlloc r.heap e.hot e.slabMemory size
  (result.1.map fun ptr => ⟨.persistentHeap, ptr, size⟩, { r with heap := result.2 })

/-- `lgx_frame_alloc`. -/
def frameAlloc (r : Runtime Thread) (e : Answers) (size : ℕ) : Option Grant × Runtime Thread :=
  match lgxFrameAllocInternal r.frame e.mapping e.nodeOk size with
  | (.served ptr, frame) => (some ⟨.frameArena, ptr, alignSize size⟩, { r with frame := frame })
  | (.overflow size, frame) => { r with frame := frame }.heapAlloc e size

/-- `lgx_gpu_alloc` of host-visible memory; `none` for a walk of the buddy allocator that does not
end. -/
def gpuAlloc (r : Runtime Thread) (e : Answers) (size : ℕ) : Option (Option Grant × Runtime Thread) :=
  match r.gpuPool with
  | none => some (none, r)
  | some pool =>
      match GpuPool.gpuAlloc pool e.chaos e.handle.isSome e.realloc size 16 .hostVisible with
      | none => none
      | some (result, pool') =>
          match result, e.handle with
          | some alloc, some handle =>
              some (some ⟨.gpuPool, handle, size⟩,
                { r with
                  gpuPool := some pool'
                  handles := update r.handles handle (some alloc) })
          | _, _ => some (none, { r with gpuPool := some pool' })

end Runtime

/-- `lgx_alloc_with_intent`, in a build with Vulkan or without. -/
def lgxAllocWithIntent (haveVulkan : Bool) (r : Runtime Thread) (e : Answers)
    (intent : AllocationIntent) : Option (Option Grant × Runtime Thread) :=
  if intent.structSize < intentSize then some (none, r)
  else if intent.size = 0 then some (none, r)
  else if haveVulkan ∧ intent.hint = .gpuShared then r.gpuAlloc e intent.size
  else if intent.lifetime = .frame then some (r.frameAlloc e intent.size)
  else if intent.lifetime = .level ∨ intent.lifetime = .session then some (r.heapAlloc e intent.size)
  else some (r.heapAlloc e intent.size)

/-- The allocator that `lgx_free` takes a pointer for. -/
def freeRoute (r : Runtime Thread) (ptr : ℕ) : Allocator :=
  if lgxFrameIsFramePointer r.frame ptr then .frameArena
  else if lgxHeapIsHeapPointer r.heap ptr then .persistentHeap
  else .memoryManager

/-- `lgx_free` on thread `t`. -/
def lgxFree [DecidableEq Thread] (r : Runtime Thread) (t : Thread)
    (outcome : MemoryManager.State.CacheOutcome) (ptr : ℕ) : Option (Runtime Thread) :=
  if ptr = 0 then some r
  else
    match freeRoute r ptr with
    | .frameArena => some r
    | .persistentHeap => (lgxHeapFree r.heap ptr).map fun heap => { r with heap := heap }
    | _ => some { r with memoryManager := r.memoryManager.free t ptr outcome }

end LgxRuntime.Intent
