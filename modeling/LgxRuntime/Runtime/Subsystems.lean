import LgxRuntime.HugePages.Regions
import LgxRuntime.Lib.ResourceLogic
import LgxRuntime.Runtime.Core

/-!
# Starting and stopping the subsystems

`lgx_runtime_init` starts one subsystem after the other, and `lgx_runtime_shutdown` stops them in the other order.
Here they are modelled with everything that they acquire: memory, mutexes, a key, files and mappings.  What the
system answers is an argument.

Nothing is done with the subsystems while they run, so that the caches, the slabs and the GPU pool are empty, the
arenas have not grown, and the monitoring thread is not there.  The namespaces and the memory monitor hold nothing
and are left out, as are the statistics and what is logged.
-/

namespace LgxRuntime.Runtime.Subsystems

open HugePages (HugepageState Strategy hugepageSize)
open ResourceLogic
open Function (update)

/-- What the subsystems acquire.  A mapping of an arena is plain, or it has huge pages; a plain one ends in a part of
its own if it has more pages than its size. -/
inductive Resource
  | heap
  | mutex
  | key
  | file
  | mapping
  | hugeMapping
  | tail
  deriving DecidableEq

/-! ## Objects with a mutex -/

/-- An object with a mutex of its own. -/
structure Guarded where
  block : ℕ
  mutex : ℕ

/-- What `calloc` and `pthread_mutex_init` answer. -/
structure GuardedAnswers where
  calloc : Bool
  mutexInit : Bool

/-- An object is made that needs nothing but a mutex. -/
def Guarded.create (answers : GuardedAnswers) : Program Resource (Except LgxResult Guarded) := do
  let block ← acquire .heap answers.calloc
  if block = 0 then return .error .outOfMemory
  let mutex ← acquire .mutex answers.mutexInit
  if mutex = 0 then
    release .heap block
    return .error .outOfMemory
  return .ok ⟨block, mutex⟩

/-- It is given back. -/
def Guarded.destroy (g : Guarded) : Program Resource Unit := do
  release .mutex g.mutex
  release .heap g.block

/-- `lgx_error_handler_init`. -/
def errorHandlerInit : GuardedAnswers → Program Resource (Except LgxResult Guarded) :=
  Guarded.create

/-- `lgx_error_handler_shutdown`. -/
def errorHandlerShutdown : Guarded → Program Resource Unit :=
  Guarded.destroy

/-- `lgx_health_monitor_init`. -/
def healthMonitorInit : GuardedAnswers → Program Resource (Except LgxResult Guarded) :=
  Guarded.create

/-- `lgx_health_monitor_shutdown`. -/
def healthMonitorShutdown : Guarded → Program Resource Unit :=
  Guarded.destroy

/-- `lgx_hardware_adapter_init` and `lgx_capability_detector_init`, which need memory only. -/
def plainInit (calloc : Bool) : Program Resource (Except LgxResult ℕ) := do
  let block ← acquire .heap calloc
  if block = 0 then return .error .outOfMemory
  return .ok block

/-- `lgx_hardware_adapter_shutdown` and `lgx_capability_detector_shutdown`. -/
def plainShutdown (block : ℕ) : Program Resource Unit :=
  release .heap block

/-- `struct lgx_platform_services`. -/
structure PlatformServices extends Guarded where
  logFile : ℕ

/-- `lgx_platform_services_init`, with whether there is a path for the log and the file can be opened. -/
def platformServicesInit (answers : GuardedAnswers) (logPath fopen : Bool) :
    Program Resource (Except LgxResult PlatformServices) := do
  match ← Guarded.create answers with
  | .error result => return .error result
  | .ok g =>
      let logFile ← acquire .file (logPath && fopen)
      return .ok { g with logFile }

/-- `lgx_platform_services_shutdown`. -/
def platformServicesShutdown (services : PlatformServices) : Program Resource Unit := do
  release .file services.logFile
  services.toGuarded.destroy

/-- `struct lgx_telemetry`. -/
structure Telemetry extends Guarded where
  ringBuffer : ℕ

/-- `lgx_telemetry_init`. -/
def telemetryInit (answers : GuardedAnswers) (ring : Bool) : Program Resource (Except LgxResult Telemetry) := do
  match ← Guarded.create answers with
  | .error result => return .error result
  | .ok g =>
      let ringBuffer ← acquire .heap ring
      if ringBuffer = 0 then
        g.destroy
        return .error .outOfMemory
      return .ok { g with ringBuffer }

/-- `lgx_telemetry_shutdown`. -/
def telemetryShutdown (telemetry : Telemetry) : Program Resource Unit := do
  release .heap telemetry.ringBuffer
  telemetry.toGuarded.destroy

/-! ## Signals -/

/-- The signals that the lifecycle manager handles. -/
inductive Signal
  | sigterm
  | sigsegv
  | sigabrt
  deriving DecidableEq

/-- What is done when a signal comes: what the client wants, or what the runtime does. -/
inductive Handler
  | client (handler : ℕ)
  | lgx
  deriving DecidableEq

/-- `lgx_signal_state_t`. -/
structure SignalState where
  oldSigterm : Handler
  oldSigsegv : Handler
  oldSigabrt : Handler

/-- `install_signal_handlers`, with the handlers that are there afterwards. -/
def installSignalHandlers (sigaction : Signal → Bool) (handlers : Signal → Handler) :
    Except LgxResult SignalState × (Signal → Handler) :=
  if !sigaction .sigterm then (.error .ioError, handlers)
  else
    let oldSigterm := handlers .sigterm
    let handlers := update handlers .sigterm .lgx
    if !sigaction .sigsegv then (.error .ioError, update handlers .sigterm oldSigterm)
    else
      let oldSigsegv := handlers .sigsegv
      let handlers := update handlers .sigsegv .lgx
      if !sigaction .sigabrt then
        (.error .ioError, update (update handlers .sigterm oldSigterm) .sigsegv oldSigsegv)
      else
        (.ok ⟨oldSigterm, oldSigsegv, handlers .sigabrt⟩, update handlers .sigabrt .lgx)

/-- `uninstall_signal_handlers`. -/
def uninstallSignalHandlers (old : SignalState) (handlers : Signal → Handler) : Signal → Handler :=
  update (update (update handlers .sigterm old.oldSigterm) .sigsegv old.oldSigsegv) .sigabrt old.oldSigabrt

/-- `struct lgx_lifecycle_manager`. -/
structure LifecycleManager extends Guarded where
  signalState : SignalState

/-- `lgx_lifecycle_manager_init`. -/
def lifecycleManagerInit (answers : GuardedAnswers) (sigaction : Signal → Bool) (handlers : Signal → Handler) :
    Program Resource (Except LgxResult LifecycleManager × (Signal → Handler)) := do
  match ← Guarded.create answers with
  | .error result => return (.error result, handlers)
  | .ok g =>
      match installSignalHandlers sigaction handlers with
      | (.error result, handlers) => do
          g.destroy
          return (.error result, handlers)
      | (.ok signalState, handlers) => return (.ok { g with signalState }, handlers)

/-- `lgx_lifecycle_manager_shutdown`; `uninstallSignalHandlers` says what becomes of the handlers. -/
def lifecycleManagerShutdown (manager : LifecycleManager) : Program Resource Unit :=
  manager.toGuarded.destroy

/-! ## Huge pages -/

/-- `g_hugepage_state`, with the file descriptor, which is there only while the huge pages are initialized. -/
structure HugePageFile extends HugepageState where
  hugetlbfsFd : ℕ
  closed : initialized = false → hugetlbfsFd = 0

/-- What is found out about the huge pages. -/
structure HugePageAnswers where
  detected : Bool
  adapter : Bool
  hugetlbfs : Bool

/-- What `lgx_hugepages_init` finds out, once. -/
def detectHugePages (state : HugepageState) (answers : HugePageAnswers) : HugepageState :=
  if state.initialized then state
  else if answers.adapter then { state with initialized := true, available := answers.detected }
  else ⟨true, false, .never⟩

theorem detectHugePages_initialized (state : HugepageState) (answers : HugePageAnswers) :
    (detectHugePages state answers).initialized = true := by
  unfold detectHugePages
  split_ifs with hinitialized
  · exact hinitialized
  · rfl
  · rfl

/-- `lgx_hugepages_init`, with the file of hugetlbfs. -/
def hugepagesInit (answers : HugePageAnswers) (pages : HugePageFile) : Program Resource HugePageFile := do
  if pages.initialized then return pages
  let state := detectHugePages pages.toHugepageState answers
  let hugetlbfsFd ← acquire .file (state.available && answers.hugetlbfs)
  return { state with
    hugetlbfsFd
    closed := fun h => Bool.noConfusion (h.symm.trans (detectHugePages_initialized ..)) }

/-- What `lgx_hugepages_shutdown` leaves. -/
def HugePageFile.shut (pages : HugePageFile) : HugePageFile :=
  if !pages.initialized then pages
  else { pages with initialized := false, hugetlbfsFd := 0, closed := fun _ => rfl }

/-- `lgx_hugepages_shutdown`. -/
def hugepagesShutdown (pages : HugePageFile) : Program Resource Unit :=
  if !pages.initialized then return ()
  else release .file pages.hugetlbfsFd

/-- `lgx_hugepages_alloc_selective` tries to map what it is asked for. -/
def triesHugePages (state : HugepageState) : Bool :=
  state.initialized && state.available && state.strategy ≠ .never

/-! ## The memory manager -/

/-- What the system answers to `lgx_memory_manager_init`. -/
structure ManagerAnswers where
  calloc : Bool
  pages : HugePageAnswers
  mmap : Bool
  malloc : Bool
  poolMutex : ℕ → Bool
  cacheKey : Bool
  cacheListMutex : Bool
  intentMutex : Bool
  tracked : Bool

/-- `lgx_memory_manager_t`. -/
structure Manager where
  block : ℕ
  useHugePages : Bool
  poolMutexes : List ℕ
  cacheKey : ℕ
  cacheListMutex : ℕ
  intentMutex : ℕ
  trackedAllocations : ℕ

/-- The mutexes of the size classes, up to the first that cannot be had. -/
def initPoolMutexes (answers : ℕ → Bool) : List ℕ → List ℕ → Program Resource (Bool × List ℕ)
  | [], mutexes => return (true, mutexes)
  | i :: is, mutexes => do
      let mutex ← acquire .mutex (answers i)
      if mutex = 0 then return (false, mutexes)
      initPoolMutexes answers is (mutexes ++ [mutex])

/-- What every exit of `lgx_memory_manager_init` does once the pools have memory. -/
def abandonPools (poolMutexes : List ℕ) (base block : ℕ) : Program Resource Unit := do
  poolMutexes.forM (release .mutex)
  release .heap base
  release .heap block

/-- `lgx_memory_manager_init`, once the pools have memory. -/
def initPools (answers : ManagerAnswers) (block base : ℕ) (useHugePages : Bool) :
    Program Resource (Except LgxResult Manager) := do
  let (complete, poolMutexes) ← initPoolMutexes answers.poolMutex (List.range 16) []
  if !complete then
    abandonPools poolMutexes base block
    return .error .outOfMemory
  let cacheKey ← acquire .key answers.cacheKey
  if cacheKey = 0 then
    abandonPools poolMutexes base block
    return .error .outOfMemory
  let cacheListMutex ← acquire .mutex answers.cacheListMutex
  if cacheListMutex = 0 then
    release .key cacheKey
    abandonPools poolMutexes base block
    return .error .outOfMemory
  let intentMutex ← acquire .mutex answers.intentMutex
  if intentMutex = 0 then
    release .mutex cacheListMutex
    release .key cacheKey
    abandonPools poolMutexes base block
    return .error .outOfMemory
  let trackedAllocations ← acquire .heap answers.tracked
  if trackedAllocations = 0 then
    -- the key and the mutex of the caches are not given back
    release .mutex intentMutex
    abandonPools poolMutexes base block
    return .error .outOfMemory
  return .ok { block, useHugePages, poolMutexes, cacheKey, cacheListMutex, intentMutex, trackedAllocations }

/-- `g_hugepage_state`, and `thread_pools[0].base`, with the family that it came from. -/
structure Pools where
  pages : HugePageFile
  base : Option (Resource × ℕ)

/-- `lgx_memory_manager_init`. -/
def memoryManagerInit (answers : ManagerAnswers) (pools : Pools) :
    Program Resource (Except LgxResult Manager × Pools) := do
  let block ← acquire .heap answers.calloc
  if block = 0 then return (.error .outOfMemory, pools)
  let pages ← hugepagesInit answers.pages pools.pages
  let useHugePages := pages.initialized && pages.available
  let mapped ← acquire .mapping (triesHugePages pages.toHugepageState && answers.mmap)
  if mapped = 0 then
    let base ← acquire .heap answers.malloc
    if base = 0 then
      hugepagesShutdown pages
      release .heap block
      return (.error .outOfMemory, { pools with pages := pages.shut })
    let manager ← initPools answers block base useHugePages
    return (manager, { pages, base := some (.heap, base) })
  let manager ← initPools answers block mapped useHugePages
  return (manager, { pages, base := some (.mapping, mapped) })

/-- The memory of the pools is given back as the flag says. -/
def freePools (useHugePages : Bool) : Option (Resource × ℕ) → Program Resource Unit
  | none => return ()
  | some (_, base) => if useHugePages then release .mapping base else release .heap base

/-- `lgx_memory_manager_shutdown`. -/
def memoryManagerShutdown (pools : Pools) (manager : Manager) : Program Resource Unit := do
  release .key manager.cacheKey
  freePools manager.useHugePages pools.base
  hugepagesShutdown pools.pages
  manager.poolMutexes.forM (release .mutex)
  release .mutex manager.cacheListMutex
  release .mutex manager.intentMutex
  release .heap manager.trackedAllocations
  release .heap manager.block

/-! ## The frame arenas and the persistent heap -/

/-- What `mmap` answers for an arena, with huge pages and without. -/
structure ArenaAnswers where
  huge : Bool
  plain : Bool

/-- The base of an arena; whether it was mapped with huge pages, and the part behind its size, are not kept in the
program. -/
structure ArenaMapping where
  huge : Bool
  base : ℕ
  tail : ℕ

/-- The number of pages of so many bytes. -/
def pagesOf (size : ℕ) : ℕ :=
  (size + 4095) / 4096

/-- A plain mapping has 64 bytes more than it is asked for, which may take a page more. -/
def hasTail (size : ℕ) : Bool :=
  pagesOf size < pagesOf (size + 64)

/-- `allocate_huge_page_arena`. -/
def allocateHugePageArena (size : ℕ) (answers : ArenaAnswers) : Program Resource (Option ArenaMapping) := do
  let huge ← acquire .hugeMapping answers.huge
  if huge = 0 then
    let plain ← acquire .mapping answers.plain
    if plain = 0 then return none
    let tail ← acquire .tail (hasTail size)
    return some ⟨false, plain, tail⟩
  return some ⟨true, huge, 0⟩

/-- `free_huge_page_arena`: `munmap` takes as many pages as the size has, and refuses huge pages unless the size is
made up of them. -/
def freeHugePageArena (size : ℕ) (arena : ArenaMapping) : Program Resource Unit :=
  if arena.huge then
    if size % hugepageSize = 0 then release .hugeMapping arena.base else return ()
  else release .mapping arena.base

/-- The arenas are mapped, or those before one that cannot be mapped are given back. -/
def mapArenas (size : ℕ) (answers : ℕ → ArenaAnswers) :
    List ℕ → List ArenaMapping → Program Resource (Option (List ArenaMapping))
  | [], arenas => return some arenas
  | i :: is, arenas => do
      match ← allocateHugePageArena size (answers i) with
      | none => do
          arenas.forM (freeHugePageArena size)
          return none
      | some arena => mapArenas size answers is (arenas ++ [arena])

/-- `g_frame_arena_state`. -/
structure FrameArenas where
  resetMutex : ℕ
  capacity : ℕ
  arenas : List ArenaMapping

/-- `lgx_frame_arena_init`. -/
def frameArenaInit (configuredArenaSize : ℕ) (resetMutex : Bool) (answers : ℕ → ArenaAnswers) :
    Program Resource (Except LgxResult FrameArenas) := do
  let size := FrameArena.arenaSize configuredArenaSize
  let mutex ← acquire .mutex resetMutex
  if mutex = 0 then return .error .invalidParam
  match ← mapArenas size answers (List.range FrameArena.frameArenaCount) [] with
  | none => do
      release .mutex mutex
      return .error .outOfMemory
  | some arenas => return .ok ⟨mutex, size, arenas⟩

/-- `lgx_frame_arena_shutdown`. -/
def frameArenaShutdown (frames : FrameArenas) : Program Resource Unit := do
  frames.arenas.forM (freeHugePageArena frames.capacity)
  release .mutex frames.resetMutex

/-- `g_heap`. -/
structure PersistentHeap where
  mutex : ℕ
  memory : ℕ
  usesHugePages : Bool

/-- What the system answers to `lgx_persistent_heap_init`. -/
structure HeapAnswers where
  mutexInit : Bool
  mmap : Bool
  malloc : Bool

/-- `lgx_persistent_heap_init`, with `buddy_init`. -/
def persistentHeapInit (answers : HeapAnswers) (state : HugepageState) :
    Program Resource (Except LgxResult PersistentHeap) := do
  let mutex ← acquire .mutex answers.mutexInit
  if mutex = 0 then return .error .invalidParam
  let mapped ← acquire .mapping (triesHugePages state && answers.mmap)
  if mapped = 0 then
    let memory ← acquire .heap answers.malloc
    if memory = 0 then
      release .mutex mutex
      return .error .invalidParam
    return .ok ⟨mutex, memory, false⟩
  return .ok ⟨mutex, mapped, true⟩

/-- `lgx_persistent_heap_shutdown`, with `buddy_shutdown`. -/
def persistentHeapShutdown (heap : PersistentHeap) : Program Resource Unit := do
  if heap.usesHugePages then release .mapping heap.memory else release .heap heap.memory
  release .mutex heap.mutex

/-- `lgx_intent_allocator_init`. -/
def intentAllocatorInit (configuredArenaSize : ℕ) (resetMutex : Bool) (arenas : ℕ → ArenaAnswers)
    (heap : HeapAnswers) (state : HugepageState) :
    Program Resource (Except LgxResult (FrameArenas × PersistentHeap)) := do
  match ← frameArenaInit configuredArenaSize resetMutex arenas with
  | .error result => return .error result
  | .ok frames => do
      match ← persistentHeapInit heap state with
      | .error result => do
          frameArenaShutdown frames
          return .error result
      | .ok heap => return .ok (frames, heap)

/-- `lgx_intent_allocator_shutdown`. -/
def intentAllocatorShutdown (allocators : FrameArenas × PersistentHeap) : Program Resource Unit := do
  persistentHeapShutdown allocators.2
  frameArenaShutdown allocators.1

/-! ## Counters and trace events -/

/-- `lgx_counters_init`, with the mutex if there is one already. -/
def countersInit (mutexInit : Bool) : Option ℕ → Program Resource (Except LgxResult ℕ)
  | some mutex => return .ok mutex
  | none => do
      let mutex ← acquire .mutex mutexInit
      if mutex = 0 then return .error .outOfMemory
      return .ok mutex

/-- `lgx_counters_shutdown`. -/
def countersShutdown (mutex : ℕ) : Program Resource Unit :=
  release .mutex mutex

/-- `g_trace_system`. -/
structure Trace where
  mutex : ℕ
  events : ℕ

/-- `lgx_trace_init`, with what there is already.  That it fails is only logged. -/
def traceInit (mutexInit calloc : Bool) : Option Trace → Program Resource (Option Trace)
  | some trace => return some trace
  | none => do
      let mutex ← acquire .mutex mutexInit
      if mutex = 0 then return none
      let events ← acquire .heap calloc
      if events = 0 then
        release .mutex mutex
        return none
      return some ⟨mutex, events⟩

/-- `lgx_trace_shutdown`. -/
def traceShutdown (trace : Trace) : Program Resource Unit := do
  release .heap trace.events
  release .mutex trace.mutex

/-! ## The runtime -/

/-- `struct lgx_runtime_config`: what the subsystems read. -/
structure RuntimeConfig extends Config where
  telemetry : Bool
  logPath : Bool

/-- `validate_config`. -/
def validate : Option RuntimeConfig → Except LgxResult RuntimeConfig
  | none => .error .invalidParam
  | some config => (validateConfig (some config.toConfig)).map fun _ => config

/-- What the system answers during a start. -/
structure StartAnswers where
  errorHandler : GuardedAnswers
  counters : Bool
  hardwareAdapter : Bool
  capabilityDetector : Bool
  manager : ManagerAnswers
  resetMutex : Bool
  arenas : ℕ → ArenaAnswers
  heap : HeapAnswers
  platform : GuardedAnswers
  fopen : Bool
  lifecycle : GuardedAnswers
  sigaction : Signal → Bool
  health : GuardedAnswers
  telemetry : GuardedAnswers
  ring : Bool
  traceMutex : Bool
  traceRing : Bool

/-- `g_runtime`, and what the subsystems keep in variables of their own.  The signals belong to the process. -/
structure RuntimeState where
  initialized : Bool
  configuredArenaSize : ℕ
  pools : Pools
  handlers : Signal → Handler
  counters : Option ℕ
  errorHandler : Option Guarded
  hardwareAdapter : Option ℕ
  capabilityDetector : Option ℕ
  memoryManager : Option Manager
  allocators : Option (FrameArenas × PersistentHeap)
  platformServices : Option PlatformServices
  lifecycleManager : Option LifecycleManager
  healthMonitor : Option Guarded
  telemetry : Option Telemetry
  trace : Option Trace

/-- The next subsystem is started, unless this one has failed. -/
def orReturn {Object : Type} (s : RuntimeState) (result : Except LgxResult Object)
    (next : Object → Program Resource (LgxResult × RuntimeState)) : Program Resource (LgxResult × RuntimeState) :=
  match result with
  | .error result => return (result, s)
  | .ok object => next object

/-- Telemetry is started if the configuration asks for it.  That it fails does not matter. -/
def telemetryIfAsked (config : RuntimeConfig) (answers : StartAnswers) : Program Resource (Option Telemetry) := do
  if config.telemetry then
    let telemetry ← telemetryInit answers.telemetry answers.ring
    return telemetry.toOption
  return none

namespace RuntimeState

/-- `initialized` is set. -/
def setInitialized (s : RuntimeState) (initialized : Bool) : RuntimeState :=
  { s with initialized }

/-- The error handler is there. -/
def withErrorHandler (s : RuntimeState) (errorHandler : Guarded) : RuntimeState :=
  { s with errorHandler := some errorHandler }

/-- The counters are there. -/
def withCounters (s : RuntimeState) (mutex : ℕ) : RuntimeState :=
  { s with counters := some mutex }

/-- The hardware adapter is there. -/
def withHardwareAdapter (s : RuntimeState) (block : ℕ) : RuntimeState :=
  { s with hardwareAdapter := some block }

/-- The capability detector is there. -/
def withCapabilityDetector (s : RuntimeState) (block : ℕ) : RuntimeState :=
  { s with capabilityDetector := some block }

/-- The state of the huge pages and the pools changes. -/
def withPools (s : RuntimeState) (pools : Pools) : RuntimeState :=
  { s with pools }

/-- The memory manager is there. -/
def withMemoryManager (s : RuntimeState) (manager : Manager) : RuntimeState :=
  { s with memoryManager := some manager }

/-- `lgx_frame_arena_set_config_size`, if the configuration has a size. -/
def configureArenas (s : RuntimeState) (config : RuntimeConfig) : RuntimeState :=
  { s with
    configuredArenaSize := if config.frameArenaSize > 0 then config.frameArenaSize else s.configuredArenaSize }

/-- The arenas and the heap are there. -/
def withAllocators (s : RuntimeState) (allocators : FrameArenas × PersistentHeap) : RuntimeState :=
  { s with allocators := some allocators }

/-- The platform services are there. -/
def withPlatformServices (s : RuntimeState) (services : PlatformServices) : RuntimeState :=
  { s with platformServices := some services }

/-- Something else is done when a signal comes. -/
def withHandlers (s : RuntimeState) (handlers : Signal → Handler) : RuntimeState :=
  { s with handlers }

/-- The lifecycle manager is there. -/
def withLifecycleManager (s : RuntimeState) (manager : LifecycleManager) : RuntimeState :=
  { s with lifecycleManager := some manager }

/-- The health monitor is there. -/
def withHealthMonitor (s : RuntimeState) (monitor : Guarded) : RuntimeState :=
  { s with healthMonitor := some monitor }

/-- Telemetry and the trace events are there, or not. -/
def withTelemetryAndTrace (s : RuntimeState) (telemetry : Option Telemetry) (trace : Option Trace) : RuntimeState :=
  { s with telemetry, trace }

end RuntimeState

/-- `initialize_subsystems`, once the memory manager has been started and the arenas have been configured. -/
def startAfterManager (config : RuntimeConfig) (answers : StartAnswers) (s : RuntimeState) :
    Program Resource (LgxResult × RuntimeState) := do
  let allocators ← intentAllocatorInit s.configuredArenaSize answers.resetMutex answers.arenas answers.heap
    s.pools.pages.toHugepageState
  orReturn s allocators fun allocators => do
  let s := s.withAllocators allocators
  let platformServices ← platformServicesInit answers.platform config.logPath answers.fopen
  orReturn s platformServices fun platformServices => do
  let s := s.withPlatformServices platformServices
  let (lifecycleManager, handlers) ← lifecycleManagerInit answers.lifecycle answers.sigaction s.handlers
  let s := s.withHandlers handlers
  orReturn s lifecycleManager fun lifecycleManager => do
  let s := s.withLifecycleManager lifecycleManager
  let healthMonitor ← healthMonitorInit answers.health
  orReturn s healthMonitor fun healthMonitor => do
  let s := s.withHealthMonitor healthMonitor
  let telemetry ← telemetryIfAsked config answers
  let trace ← traceInit answers.traceMutex answers.traceRing s.trace
  return (.success, s.withTelemetryAndTrace telemetry trace)

/-- `initialize_subsystems`. -/
def initializeSubsystems (config : RuntimeConfig) (answers : StartAnswers) (s : RuntimeState) :
    Program Resource (LgxResult × RuntimeState) := do
  let counters ← countersInit answers.counters s.counters
  orReturn s counters fun counters => do
  let s := s.withCounters counters
  let hardwareAdapter ← plainInit answers.hardwareAdapter
  orReturn s hardwareAdapter fun hardwareAdapter => do
  let s := s.withHardwareAdapter hardwareAdapter
  let capabilityDetector ← plainInit answers.capabilityDetector
  orReturn s capabilityDetector fun capabilityDetector => do
  let s := s.withCapabilityDetector capabilityDetector
  let (manager, pools) ← memoryManagerInit answers.manager s.pools
  let s := s.withPools pools
  orReturn s manager fun manager =>
    startAfterManager config answers ((s.withMemoryManager manager).configureArenas config)

/-- A subsystem is stopped if it is there. -/
def ifThere {Object : Type} (shutdown : Object → Program Resource Unit) : Option Object → Program Resource Unit
  | none => return ()
  | some object => shutdown object

/-- What `shutdown_subsystems` leaves. -/
def RuntimeState.shut (s : RuntimeState) : RuntimeState :=
  { s with
    pools := s.memoryManager.elim s.pools fun _ => ⟨s.pools.pages.shut, none⟩
    handlers := s.lifecycleManager.elim s.handlers fun manager =>
      uninstallSignalHandlers manager.signalState s.handlers
    counters := none
    errorHandler := none
    hardwareAdapter := none
    capabilityDetector := none
    memoryManager := none
    allocators := none
    platformServices := none
    lifecycleManager := none
    healthMonitor := none
    telemetry := none
    trace := none }

/-- `shutdown_subsystems`. -/
def shutdownSubsystems (s : RuntimeState) : Program Resource RuntimeState := do
  ifThere traceShutdown s.trace
  ifThere telemetryShutdown s.telemetry
  ifThere healthMonitorShutdown s.healthMonitor
  ifThere lifecycleManagerShutdown s.lifecycleManager
  ifThere platformServicesShutdown s.platformServices
  ifThere intentAllocatorShutdown s.allocators
  ifThere (memoryManagerShutdown s.pools) s.memoryManager
  ifThere plainShutdown s.capabilityDetector
  ifThere plainShutdown s.hardwareAdapter
  ifThere errorHandlerShutdown s.errorHandler
  ifThere countersShutdown s.counters
  return s.shut

/-- `lgx_runtime_init`. -/
def runtimeInit (config : Option RuntimeConfig) (answers : StartAnswers) (s : RuntimeState) :
    Program Resource (LgxResult × RuntimeState) := do
  if s.initialized then return (.alreadyInitialized, s)
  let errorHandler ← errorHandlerInit answers.errorHandler
  orReturn s errorHandler fun errorHandler => do
  match validate config with
  | .error result => do
      errorHandlerShutdown errorHandler
      return (result, s)
  | .ok config => do
      let (result, s) ← initializeSubsystems config answers (s.withErrorHandler errorHandler)
      if result ≠ .success then
        let s ← shutdownSubsystems s
        return (result, s)
      return (.success, s.setInitialized true)

/-- `lgx_runtime_shutdown`. -/
def runtimeShutdown (s : RuntimeState) : Program Resource (LgxResult × RuntimeState) := do
  if !s.initialized then return (.notInitialized, s)
  let s ← shutdownSubsystems s
  return (.success, s.setInitialized false)

/-! ## Lives of a process -/

/-- The state of a process that has just been started. -/
def RuntimeState.new : RuntimeState where
  initialized := false
  configuredArenaSize := 0
  pools := ⟨⟨⟨false, false, .selective⟩, 0, fun _ => rfl⟩, none⟩
  handlers := fun _ => .client 0
  counters := none
  errorHandler := none
  hardwareAdapter := none
  capabilityDetector := none
  memoryManager := none
  allocators := none
  platformServices := none
  lifecycleManager := none
  healthMonitor := none
  telemetry := none
  trace := none

/-- The runtime is started or stopped, or the client wants something else to be done when a signal comes. -/
inductive Op
  | init (config : Option RuntimeConfig) (answers : StartAnswers)
  | shutdown
  | sigaction (signal : Signal) (handler : ℕ)

/-- The runtime, and what the client has asked for while it was not initialized. -/
structure Life where
  runtime : RuntimeState
  wanted : Signal → Handler

/-- One step in the life of a process. -/
def Life.step (life : Life) : Op → Program Resource Life
  | .init config answers => do
      let r ← runtimeInit config answers life.runtime
      return { life with runtime := r.2 }
  | .shutdown => do
      let r ← runtimeShutdown life.runtime
      return { life with runtime := r.2 }
  | .sigaction signal handler =>
      return {
        runtime := life.runtime.withHandlers (update life.runtime.handlers signal (.client handler))
        wanted := if life.runtime.initialized then life.wanted else update life.wanted signal (.client handler) }

/-- The process after some steps, and what has been acquired and released. -/
def live (ops : List Op) : Life × Ledger Resource :=
  (ops.foldlM Life.step ⟨.new, fun _ => .client 0⟩).run .new

end LgxRuntime.Runtime.Subsystems
