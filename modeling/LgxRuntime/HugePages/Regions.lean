import LgxRuntime.Lib.RegionLog
import LgxRuntime.Machine

/-!
# Huge pages

`lgx_hugepages_alloc_selective` maps memory, with huge pages if there are any, and returns `NULL` where its
caller should use `malloc`.  Two callers do: `lgx_memory_manager_init`, for the pools of the threads, and
`allocate_slab`.  Memory that was mapped is to be given back by `lgx_hugepages_free`, and memory of `malloc`
and `calloc` by `free`; a log records what came from where and what went where.

What the system answers (`mmap`, `malloc`, `calloc`, the functions of `pthread`, and whether huge pages are
found) is an argument.  The file descriptor of hugetlbfs, the statistics, the functions that destroy mutexes
and keys, and what neither holds nor frees memory are left out.  `lgx_hugepages_init` always succeeds, and
`lgx_hugepages_free` unmaps what was mapped, because both round the same size up.
-/

namespace LgxRuntime.HugePages

open RegionLog (Event)

/-- `HUGEPAGE_SIZE`. -/
def hugepageSize : ℕ := 2 * 1024 * 1024

/-- `MAX_THREADS * pool_size_per_thread`. -/
def totalPoolSize : ℕ := 64 * (16 * 1024 * 1024)

/-- `SLAB_SIZE`. -/
def slabSize : ℕ := 2 * 1024 * 1024

/-- The families of functions that hand out memory. -/
inductive Family
  | malloc
  | hugePages
  deriving DecidableEq

/-- `hugepage_strategy_t`. -/
inductive Strategy
  | always
  | selective
  | never
  deriving DecidableEq

/-- `g_hugepage_state`. -/
structure HugepageState where
  initialized : Bool
  available : Bool
  strategy : Strategy

/-- The state of the huge pages, `thread_pools[0].base`, of which the other pools are slices, and the log. -/
structure Runtime where
  hugePages : HugepageState
  poolBase : Option ℕ
  log : List (Event Family ℕ)

namespace Runtime

/-- Memory comes from a family, unless its answer is `NULL`. -/
def acquire (rt : Runtime) (family : Family) : Option ℕ → Runtime
  | none => rt
  | some ptr => { rt with log := .acquired family ptr :: rt.log }

/-- Memory goes to a family, which ignores `NULL`. -/
def release (rt : Runtime) (family : Family) : Option ℕ → Runtime
  | none => rt
  | some ptr => { rt with log := .released family ptr :: rt.log }

/-! ## `lgx_hugepages.c` -/

/-- `lgx_hugepages_init`: `detected` is what `detect_hugepage_support` finds, and `adapter` what the hardware
adapter says, if there is one. -/
def lgxHugepagesInit (rt : Runtime) (detected : Bool) (adapter : Option Bool) : Runtime :=
  if rt.hugePages.initialized then rt
  else if adapter = some false then
    { rt with hugePages := { initialized := true, available := false, strategy := .never } }
  else
    { rt with hugePages := { rt.hugePages with initialized := true, available := detected } }

/-- `lgx_hugepages_shutdown`. -/
def lgxHugepagesShutdown (rt : Runtime) : Runtime :=
  { rt with hugePages := { rt.hugePages with initialized := false } }

/-- `lgx_hugepages_available`. -/
def lgxHugepagesAvailable (rt : Runtime) : Bool :=
  rt.hugePages.initialized && rt.hugePages.available

/-- `lgx_hugepages_alloc`, which tries `mmap` with huge pages and without. -/
def lgxHugepagesAlloc (rt : Runtime) (mmapHuge mmapPlain : Option ℕ) : Option ℕ × Runtime :=
  if !rt.hugePages.initialized || !rt.hugePages.available then (none, rt)
  else
    match mmapHuge with
    | some ptr => (some ptr, rt.acquire .hugePages (some ptr))
    | none => (mmapPlain, rt.acquire .hugePages mmapPlain)

/-- `lgx_hugepages_alloc_selective`. -/
def lgxHugepagesAllocSelective (rt : Runtime) (size : ℕ) (isLongLived isHotPath : Bool)
    (mmapHuge mmapPlain : Option ℕ) : Option ℕ × Runtime :=
  if !rt.hugePages.initialized || !rt.hugePages.available then (none, rt)
  else
    match rt.hugePages.strategy with
    | .selective =>
        if size ≥ hugepageSize ∨ (size ≥ 512 * 1024 ∧ (isLongLived || isHotPath)) ∨
            (isLongLived && isHotPath) then
          rt.lgxHugepagesAlloc mmapHuge mmapPlain
        else (none, rt)
    | .never => (none, rt)
    | .always => rt.lgxHugepagesAlloc mmapHuge mmapPlain

/-- `lgx_hugepages_free`. -/
def lgxHugepagesFree (rt : Runtime) (ptr : Option ℕ) : Runtime :=
  rt.release .hugePages ptr

end Runtime

/-! ## The memory manager -/

/-- What the system answers to `lgx_memory_manager_init`: `calloc` of the manager, whether the lock-free
pool could be initialized, the huge pages, `mmap`, `malloc` of the pools, the mutexes of the size classes,
the key, the mutexes of the cache list and of the intents, and `calloc` of the table. -/
structure Outcomes where
  manager : Option ℕ
  lockFreePool : Bool
  detected : Bool
  adapter : Option Bool
  mmapHuge : Option ℕ
  mmapPlain : Option ℕ
  pool : Option ℕ
  poolMutex : Fin 16 → Bool
  cacheKey : Bool
  cacheListMutex : Bool
  intentMutex : Bool
  tracked : Option ℕ

/-- What `lgx_memory_manager_t` says about memory. -/
structure Manager where
  ptr : ℕ
  useHugePages : Bool
  trackedAllocations : Option ℕ

namespace Runtime

/-- `free(global_pool)` and `free(mgr)`, where initialization fails. -/
def abandon (rt : Runtime) (globalPool mgr : ℕ) : Option Manager × Runtime :=
  (none, (rt.release .malloc (some globalPool)).release .malloc (some mgr))

/-- `lgx_memory_manager_init`, once the pools have memory. -/
def initPools (rt : Runtime) (o : Outcomes) (mgr globalPool : ℕ) (useHugePages : Bool) :
    Option Manager × Runtime :=
  let rt := { rt with poolBase := some globalPool }
  if ∃ i, o.poolMutex i = false then rt.abandon globalPool mgr
  else if !o.cacheKey then rt.abandon globalPool mgr
  else if !o.cacheListMutex then rt.abandon globalPool mgr
  else if !o.intentMutex then rt.abandon globalPool mgr
  else
    match o.tracked with
    | none => rt.abandon globalPool mgr
    | some tracked =>
        (some { ptr := mgr, useHugePages := useHugePages, trackedAllocations := some tracked },
          rt.acquire .malloc (some tracked))

/-- The memory of the pools, if there are huge pages. -/
def tryHugePages (rt : Runtime) (o : Outcomes) : Option ℕ × Runtime :=
  if rt.lgxHugepagesAvailable then
    rt.lgxHugepagesAllocSelective totalPoolSize true true o.mmapHuge o.mmapPlain
  else (none, rt)

/-- `lgx_memory_manager_init`, once huge pages have been tried: `malloc` is asked if they gave no memory. -/
def fallBack (o : Outcomes) (mgr : ℕ) (useHugePages : Bool) : Option ℕ × Runtime → Option Manager × Runtime
  | (some globalPool, rt) => rt.initPools o mgr globalPool useHugePages
  | (none, rt) =>
      match o.pool with
      | none => (none, rt.lgxHugepagesShutdown.release .malloc (some mgr))
      | some globalPool =>
          (rt.acquire .malloc (some globalPool)).initPools o mgr globalPool useHugePages

/-- `lgx_memory_manager_init`. -/
def lgxMemoryManagerInit (rt : Runtime) (o : Outcomes) : Option Manager × Runtime :=
  match o.manager with
  | none => (none, rt)
  | some mgr =>
      let rt := rt.acquire .malloc (some mgr)
      if !o.lockFreePool then (none, rt.release .malloc (some mgr))
      else
        let rt := rt.lgxHugepagesInit o.detected o.adapter
        fallBack o mgr rt.lgxHugepagesAvailable (rt.tryHugePages o)

/-- `lgx_memory_manager_shutdown` of a manager without caches and slabs. -/
def lgxMemoryManagerShutdown (rt : Runtime) (manager : Manager) : Runtime :=
  let rt :=
    if rt.poolBase.isSome then
      { (if manager.useHugePages then rt.lgxHugepagesFree rt.poolBase
          else rt.release .malloc rt.poolBase) with
        poolBase := none }
    else rt
  ((rt.lgxHugepagesShutdown).release .malloc manager.trackedAllocations).release .malloc
    (some manager.ptr)

/-- Shutdown after an initialization that has made a manager. -/
def finish : Option Manager × Runtime → Runtime
  | (none, rt) => rt
  | (some manager, rt) => rt.lgxMemoryManagerShutdown manager

/-- Initialization, and shutdown if there is a manager. -/
def initThenShutdown (rt : Runtime) (o : Outcomes) : Runtime :=
  finish (rt.lgxMemoryManagerInit o)

end Runtime

/-! ## Slabs -/

/-- What the system answers to `allocate_slab`: `malloc` of the slab, `mmap` and `malloc` of its memory, and
`calloc` of the bitmap. -/
structure SlabOutcomes where
  slab : Option ℕ
  mmapHuge : Option ℕ
  mmapPlain : Option ℕ
  memory : Option ℕ
  bitmap : Option ℕ

/-- `slab_t`. -/
structure Slab where
  ptr : ℕ
  memory : ℕ
  usesHugePages : Bool
  objectSize : ℕ
  capacity : ℕ
  bitmap : Option ℕ

namespace Runtime

/-- `allocate_slab`, once the slab has memory. -/
def initSlab (rt : Runtime) (objectSize : ℕ) (o : SlabOutcomes) (slab memory : ℕ) (usesHugePages : Bool) :
    Option Slab × Runtime :=
  let capacity := slabSize / objectSize
  let bitmapSize := (capacity + 7) / 8
  let failed := (rt.release .malloc (some memory)).release .malloc (some slab)
  if capacity = 0 ∨ capacity > slabSize then (none, failed)
  else if bitmapSize > slabSize / 8 then (none, failed)
  else
    match o.bitmap with
    | none => (none, failed)
    | some bitmap =>
        (some
          { ptr := slab
            memory := memory
            usesHugePages := usesHugePages
            objectSize := objectSize
            capacity := capacity
            bitmap := some bitmap },
          rt.acquire .malloc (some bitmap))

/-- `allocate_slab`, once huge pages have been tried: `malloc` is asked if they gave no memory. -/
def fallBackSlab (objectSize : ℕ) (o : SlabOutcomes) (slab : ℕ) :
    Option ℕ × Runtime → Option Slab × Runtime
  | (some memory, rt) => rt.initSlab objectSize o slab memory true
  | (none, rt) =>
      match o.memory with
      | none => (none, rt.release .malloc (some slab))
      | some memory => (rt.acquire .malloc (some memory)).initSlab objectSize o slab memory false

/-- `allocate_slab`. -/
def allocateSlab (rt : Runtime) (objectSize : ℕ) (o : SlabOutcomes) : Option Slab × Runtime :=
  if objectSize = 0 then (none, rt)
  else if objectSize > slabSize then (none, rt)
  else if objectSize &&& (objectSize - 1) ≠ 0 then (none, rt)
  else
    match o.slab with
    | none => (none, rt)
    | some slab =>
        let rt := rt.acquire .malloc (some slab)
        fallBackSlab objectSize o slab
          (rt.lgxHugepagesAllocSelective slabSize true true o.mmapHuge o.mmapPlain)

/-- `free_slab`. -/
def freeSlab : Option Slab × Runtime → Runtime
  | (none, rt) => rt
  | (some slab, rt) =>
      let rt := rt.release .malloc slab.bitmap
      let rt :=
        if slab.usesHugePages then rt.lgxHugepagesFree (some slab.memory)
        else rt.release .malloc (some slab.memory)
      rt.release .malloc (some slab.ptr)

/-- A slab is allocated, and freed if there is one. -/
def allocateThenFree (rt : Runtime) (objectSize : ℕ) (o : SlabOutcomes) : Runtime :=
  freeSlab (rt.allocateSlab objectSize o)

end Runtime

end LgxRuntime.HugePages
