import LgxRuntime.Runtime.Subsystems

/-!
# What is left of the subsystems

What has been acquired and not released is what the runtime owns, and what no variable points to any more.  The
latter can be told from what the system has answered: arenas whose mappings are not of their size, and the key and a
mutex of a memory manager that gets no table.  If the pools of the memory manager are not given back as they were
acquired, something is released that is not held.
-/

namespace LgxRuntime.Runtime.Subsystems

open HugePages (HugepageState hugepageSize)
open ResourceLogic
open Function (update)

/-! ## What is owned -/

/-- What an object with a mutex owns. -/
def Guarded.objects (g : Guarded) : Multiset (Resource × ℕ) :=
  owned .mutex g.mutex + owned .heap g.block

/-- What the platform services own. -/
def PlatformServices.objects (services : PlatformServices) : Multiset (Resource × ℕ) :=
  owned .file services.logFile + services.toGuarded.objects

/-- What telemetry owns. -/
def Telemetry.objects (telemetry : Telemetry) : Multiset (Resource × ℕ) :=
  owned .heap telemetry.ringBuffer + telemetry.toGuarded.objects

/-- What the trace events own. -/
def Trace.objects (trace : Trace) : Multiset (Resource × ℕ) :=
  owned .heap trace.events + owned .mutex trace.mutex

/-- What a memory manager owns besides the memory of the pools, without its key. -/
def Manager.parts (manager : Manager) : Multiset (Resource × ℕ) :=
  (manager.poolMutexes.map (owned .mutex)).sum + (owned .mutex manager.cacheListMutex +
    (owned .mutex manager.intentMutex + (owned .heap manager.trackedAllocations + owned .heap manager.block)))

/-- The memory of the pools. -/
def Pools.memory (pools : Pools) : Multiset (Resource × ℕ) :=
  pools.base.elim 0 fun base => owned base.1 base.2

/-- What a memory manager owns. -/
def Manager.objects (pools : Pools) (manager : Manager) : Multiset (Resource × ℕ) :=
  owned .key manager.cacheKey + (pools.memory + manager.parts)

/-- What the file of the huge pages is. -/
def HugePageFile.objects (pages : HugePageFile) : Multiset (Resource × ℕ) :=
  owned .file pages.hugetlbfsFd

/-- What is mapped for an arena. -/
def ArenaMapping.objects (arena : ArenaMapping) : Multiset (Resource × ℕ) :=
  owned (if arena.huge then .hugeMapping else .mapping) arena.base + owned .tail arena.tail

/-- What is left of it when it has been given back. -/
def ArenaMapping.left (size : ℕ) (arena : ArenaMapping) : Multiset (Resource × ℕ) :=
  (if arena.huge && size % hugepageSize ≠ 0 then owned .hugeMapping arena.base else 0) + owned .tail arena.tail

/-- What the arenas own. -/
def FrameArenas.objects (frames : FrameArenas) : Multiset (Resource × ℕ) :=
  (frames.arenas.map ArenaMapping.objects).sum + owned .mutex frames.resetMutex

/-- What is left of the arenas. -/
def FrameArenas.left (frames : FrameArenas) : Multiset (Resource × ℕ) :=
  (frames.arenas.map (ArenaMapping.left frames.capacity)).sum

/-- What the persistent heap owns. -/
def PersistentHeap.objects (heap : PersistentHeap) : Multiset (Resource × ℕ) :=
  owned (if heap.usesHugePages then .mapping else .heap) heap.memory + owned .mutex heap.mutex

/-- What the arenas and the heap own. -/
def allocatorObjects (allocators : FrameArenas × PersistentHeap) : Multiset (Resource × ℕ) :=
  allocators.2.objects + allocators.1.objects

/-- What a subsystem owns, if it is there. -/
def objectsOf {Object : Type} (objects : Object → Multiset (Resource × ℕ)) (object : Option Object) :
    Multiset (Resource × ℕ) :=
  object.elim 0 objects

namespace RuntimeState

/-- What the subsystems own that are stopped before the memory manager. -/
def upper (s : RuntimeState) : Multiset (Resource × ℕ) :=
  objectsOf Trace.objects s.trace + (objectsOf Telemetry.objects s.telemetry +
    (objectsOf Guarded.objects s.healthMonitor +
      (objectsOf (·.toGuarded.objects) s.lifecycleManager + (objectsOf PlatformServices.objects s.platformServices +
        objectsOf allocatorObjects s.allocators))))

/-- What the subsystems own that are stopped after it. -/
def lower (s : RuntimeState) : Multiset (Resource × ℕ) :=
  objectsOf (owned .heap) s.capabilityDetector + (objectsOf (owned .heap) s.hardwareAdapter +
    (objectsOf Guarded.objects s.errorHandler + objectsOf (owned .mutex) s.counters))

/-- What the runtime owns. -/
def objects (s : RuntimeState) : Multiset (Resource × ℕ) :=
  s.upper + (objectsOf (Manager.objects s.pools) s.memoryManager + (s.pools.pages.objects + s.lower))

/-- What will be left of the arenas when they are given back. -/
def left (s : RuntimeState) : Multiset (Resource × ℕ) :=
  objectsOf (·.1.left) s.allocators

end RuntimeState

/-! ## Stopping -/

variable {s : RuntimeState} {rest : Multiset (Resource × ℕ)}

theorem Guarded.destroy_triple (g : Guarded) : Triple g.objects g.destroy fun _ => 0 := by
  unfold Guarded.destroy Guarded.objects
  exact .release_bind rfl (Triple.release _ _)

theorem platformServicesShutdown_triple (services : PlatformServices) :
    Triple services.objects (platformServicesShutdown services) fun _ => 0 := by
  unfold platformServicesShutdown PlatformServices.objects
  exact .release_bind rfl services.toGuarded.destroy_triple

theorem telemetryShutdown_triple (telemetry : Telemetry) :
    Triple telemetry.objects (telemetryShutdown telemetry) fun _ => 0 := by
  unfold telemetryShutdown Telemetry.objects
  exact .release_bind rfl telemetry.toGuarded.destroy_triple

theorem traceShutdown_triple (trace : Trace) : Triple trace.objects (traceShutdown trace) fun _ => 0 := by
  unfold traceShutdown Trace.objects
  exact .release_bind rfl (Triple.release _ _)

theorem freeHugePageArena_triple (size : ℕ) (arena : ArenaMapping) :
    Triple arena.objects (freeHugePageArena size arena) fun _ => arena.left size := by
  unfold freeHugePageArena ArenaMapping.objects ArenaMapping.left
  refine .ite (fun hhuge => .ite (fun hsize => ?_) fun hsize => ?_) fun hplain => ?_
  · rw [if_pos hhuge, if_neg (by simp [hsize])]
    exact (Triple.release _ _).frame _
  · rw [if_pos hhuge, if_pos (by simp [hhuge, hsize])]
    exact .pure rfl
  · rw [if_neg hplain, if_neg (by simp [hplain])]
    exact (Triple.release _ _).frame _

theorem frameArenaShutdown_triple (frames : FrameArenas) :
    Triple frames.objects (frameArenaShutdown frames) fun _ => frames.left := by
  unfold frameArenaShutdown FrameArenas.objects FrameArenas.left
  refine (Triple.forM_leaving (freeHugePageArena_triple frames.capacity) frames.arenas).call rfl fun _ => ?_
  exact ((Triple.release Resource.mutex frames.resetMutex).frame _).congr (add_comm ..) fun _ => zero_add _

theorem persistentHeapShutdown_triple (heap : PersistentHeap) :
    Triple heap.objects (persistentHeapShutdown heap) fun _ => 0 := by
  unfold persistentHeapShutdown PersistentHeap.objects
  refine .ite (fun hmapped => ?_) fun hmalloc => ?_
  · rw [if_pos hmapped]
    exact .release_bind rfl (Triple.release _ _)
  · rw [if_neg hmalloc]
    exact .release_bind rfl (Triple.release _ _)

theorem intentAllocatorShutdown_triple (allocators : FrameArenas × PersistentHeap) :
    Triple (allocatorObjects allocators) (intentAllocatorShutdown allocators) fun _ => allocators.1.left := by
  unfold intentAllocatorShutdown allocatorObjects
  refine (persistentHeapShutdown_triple allocators.2).call rfl fun _ => ?_
  rw [zero_add]
  exact frameArenaShutdown_triple allocators.1

theorem hugepagesShutdown_triple (pages : HugePageFile) :
    Triple pages.objects (hugepagesShutdown pages) fun _ => pages.shut.objects := by
  unfold hugepagesShutdown HugePageFile.shut
  refine .ite (fun hclosed => ?_) fun hopen => ?_
  · rw [if_pos hclosed]
    exact .pure rfl
  · rw [if_neg hopen]
    exact Triple.release _ _

/-- What a subsystem owns is given back, if it is there. -/
theorem ifThere_leaving {Object : Type} {objects leaves : Object → Multiset (Resource × ℕ)}
    {shutdown : Object → Program Resource Unit}
    (h : ∀ object, Triple (objects object) (shutdown object) fun _ => leaves object) (object : Option Object) :
    Triple (objectsOf objects object) (ifThere shutdown object) fun _ => objectsOf leaves object := by
  cases object with
  | none => exact .pure rfl
  | some object => exact h object

theorem ifThere_triple {Object : Type} {objects : Object → Multiset (Resource × ℕ)}
    {shutdown : Object → Program Resource Unit} (h : ∀ object, Triple (objects object) (shutdown object) fun _ => 0)
    (object : Option Object) : Triple (objectsOf objects object) (ifThere shutdown object) fun _ => 0 := by
  cases object with
  | none => exact .pure rfl
  | some object => exact h object

/-- The flag of a memory manager says where the memory of the pools came from. -/
def Matches (useHugePages : Bool) (base : Option (Resource × ℕ)) : Prop :=
  ∀ kind name, base = some (kind, name) → kind = if useHugePages then .mapping else .heap

theorem freePools_triple {useHugePages : Bool} {pools : Pools} (h : Matches useHugePages pools.base) :
    Triple pools.memory (freePools useHugePages pools.base) fun _ => 0 := by
  unfold Pools.memory
  cases hbase : pools.base with
  | none => exact .pure rfl
  | some base =>
      obtain ⟨kind, name⟩ := base
      obtain rfl := h kind name hbase
      refine .ite (fun hmapped => ?_) fun hmalloc => ?_
      · rw [if_pos hmapped]
        exact Triple.release _ _
      · rw [if_neg hmalloc]
        exact Triple.release _ _

theorem releaseAll_triple (kind : Resource) (names : List ℕ) :
    Triple (names.map (owned kind)).sum (names.forM (release kind)) fun _ => 0 :=
  Triple.forM (Triple.release kind) names

theorem memoryManagerShutdown_triple {pools : Pools} {manager : Manager}
    (h : Matches manager.useHugePages pools.base) :
    Triple (manager.objects pools + pools.pages.objects) (memoryManagerShutdown pools manager) fun _ =>
      pools.pages.shut.objects := by
  unfold memoryManagerShutdown Manager.objects Manager.parts
  rw [add_assoc, add_assoc]
  refine .release_bind rfl (.spend (freePools_triple h) fun _ => ?_)
  refine (hugepagesShutdown_triple pools.pages).call (add_comm ..) fun _ => ?_
  have hparts : Triple manager.parts (do
      manager.poolMutexes.forM (release .mutex)
      release .mutex manager.cacheListMutex
      release .mutex manager.intentMutex
      release .heap manager.trackedAllocations
      release .heap manager.block) fun _ => 0 := by
    refine .spend (releaseAll_triple .mutex manager.poolMutexes) fun _ => ?_
    exact .release_bind rfl (.release_bind rfl (.release_bind rfl (Triple.release _ _)))
  exact (hparts.frame pools.pages.shut.objects).congr (add_comm ..) fun _ => zero_add _

/-- The runtime can give back the pools as it has acquired them. -/
def RuntimeState.PoolsMatch (s : RuntimeState) : Prop :=
  ∀ manager, s.memoryManager = some manager → Matches manager.useHugePages s.pools.base

/-- The manager is stopped, if there is one. -/
theorem managerShutdown_triple (h : s.PoolsMatch) :
    Triple (objectsOf (Manager.objects s.pools) s.memoryManager + s.pools.pages.objects)
      (ifThere (memoryManagerShutdown s.pools) s.memoryManager) fun _ => s.shut.pools.pages.objects := by
  unfold RuntimeState.shut
  cases hmanager : s.memoryManager with
  | none => exact .pure (zero_add _)
  | some manager => exact memoryManagerShutdown_triple (h manager hmanager)

/-- A runtime that has been stopped owns nothing but the file of the huge pages. -/
theorem objects_shut (s : RuntimeState) : s.shut.objects = s.shut.pools.pages.objects := by
  simp [RuntimeState.objects, RuntimeState.upper, RuntimeState.lower, RuntimeState.shut, objectsOf]

/-- The subsystems that are stopped after the memory manager. -/
theorem lower_triple (s : RuntimeState) : Triple s.lower (do
    ifThere plainShutdown s.capabilityDetector
    ifThere plainShutdown s.hardwareAdapter
    ifThere errorHandlerShutdown s.errorHandler
    ifThere countersShutdown s.counters
    return s.shut) fun _ => 0 := by
  unfold RuntimeState.lower
  refine .spend (ifThere_triple (Triple.release Resource.heap) s.capabilityDetector) fun _ => ?_
  refine .spend (ifThere_triple (Triple.release Resource.heap) s.hardwareAdapter) fun _ => ?_
  refine .spend (ifThere_triple Guarded.destroy_triple s.errorHandler) fun _ => ?_
  exact (ifThere_triple (Triple.release Resource.mutex) s.counters).bind fun _ => .pure rfl

/-- The subsystems that are stopped before the memory manager. -/
theorem upper_triple (s : RuntimeState) {next : Program Resource RuntimeState}
    {after : RuntimeState → Multiset (Resource × ℕ)} (hnext : Triple (s.left + rest) next after) :
    Triple (s.upper + rest) (do
      ifThere traceShutdown s.trace
      ifThere telemetryShutdown s.telemetry
      ifThere healthMonitorShutdown s.healthMonitor
      ifThere lifecycleManagerShutdown s.lifecycleManager
      ifThere platformServicesShutdown s.platformServices
      ifThere intentAllocatorShutdown s.allocators
      next) after := by
  unfold RuntimeState.upper
  simp only [add_assoc]
  refine .spend (ifThere_triple traceShutdown_triple s.trace) fun _ => ?_
  refine .spend (ifThere_triple telemetryShutdown_triple s.telemetry) fun _ => ?_
  refine .spend (ifThere_triple Guarded.destroy_triple s.healthMonitor) fun _ => ?_
  refine .spend (ifThere_triple (fun manager => manager.toGuarded.destroy_triple) s.lifecycleManager) fun _ => ?_
  refine .spend (ifThere_triple platformServicesShutdown_triple s.platformServices) fun _ => ?_
  exact (ifThere_leaving intentAllocatorShutdown_triple s.allocators).call rfl fun _ => hnext

theorem shutdownSubsystems_triple (h : s.PoolsMatch) :
    Triple s.objects (shutdownSubsystems s) fun _ => s.shut.objects + s.left := by
  rw [objects_shut, RuntimeState.objects]
  unfold shutdownSubsystems
  apply upper_triple
  refine .of_eq (show _ = (objectsOf (Manager.objects s.pools) s.memoryManager + s.pools.pages.objects) +
    (s.lower + s.left) by abel) ?_
  refine (managerShutdown_triple h).call rfl fun _ => ?_
  exact ((lower_triple s).frame (s.shut.pools.pages.objects + s.left)).congr (by abel) fun _ => zero_add _

theorem shutdownSubsystems_returns (s : RuntimeState) : Returns (shutdownSubsystems s) (· = s.shut) := by
  unfold shutdownSubsystems
  iterate 11 refine .after fun _ => ?_
  exact .pure rfl

/-! ## Logs and names -/

theorem Guarded.create_tame (answers : GuardedAnswers) : Tame (Guarded.create answers) := by
  unfold Guarded.create
  refine .bind (.acquire _ _) fun block => .ite (.pure _) (.bind (.acquire _ _) fun mutex => ?_)
  exact .ite (.bind (.release _ _) fun _ => .pure _) (.pure _)

theorem Guarded.destroy_tame (g : Guarded) : Tame g.destroy :=
  .bind (.release _ _) fun _ => .release _ _

theorem plainInit_tame (calloc : Bool) : Tame (plainInit calloc) :=
  .bind (.acquire _ _) fun _ => .ite (.pure _) (.pure _)

theorem platformServicesInit_tame (answers : GuardedAnswers) (logPath fopen : Bool) :
    Tame (platformServicesInit answers logPath fopen) := by
  refine .bind (Guarded.create_tame answers) fun r => ?_
  cases r with
  | error result => exact .pure _
  | ok g => exact .bind (.acquire _ _) fun _ => .pure _

theorem telemetryInit_tame (answers : GuardedAnswers) (ring : Bool) : Tame (telemetryInit answers ring) := by
  refine .bind (Guarded.create_tame answers) fun r => ?_
  cases r with
  | error result => exact .pure _
  | ok g =>
      refine .bind (.acquire _ _) fun ringBuffer => .ite ?_ (.pure _)
      exact .bind g.destroy_tame fun _ => .pure _

theorem lifecycleManagerInit_tame (answers : GuardedAnswers) (sigaction : Signal → Bool)
    (handlers : Signal → Handler) : Tame (lifecycleManagerInit answers sigaction handlers) := by
  refine .bind (Guarded.create_tame answers) fun r => ?_
  cases r with
  | error result => exact .pure _
  | ok g =>
      dsimp only
      obtain ⟨result, handlers'⟩ := installSignalHandlers sigaction handlers
      cases result with
      | error result => exact .bind g.destroy_tame fun _ => .pure _
      | ok signalState => exact .pure _

theorem releaseAll_tame (kind : Resource) (names : List ℕ) : Tame (names.forM (release kind)) :=
  .forM (fun name => .release kind name) names

theorem hugepagesInit_tame (answers : HugePageAnswers) (pages : HugePageFile) : Tame (hugepagesInit answers pages) :=
  .ite (.pure _) (.bind (.acquire _ _) fun _ => .pure _)

theorem hugepagesShutdown_tame (pages : HugePageFile) : Tame (hugepagesShutdown pages) :=
  .ite (.pure _) (.release _ _)

theorem initPoolMutexes_tame (answers : ℕ → Bool) (is mutexes : List ℕ) :
    Tame (initPoolMutexes answers is mutexes) := by
  induction is generalizing mutexes with
  | nil => exact .pure _
  | cons i is ih => exact .bind (.acquire _ _) fun mutex => .ite (.pure _) (ih _)

theorem abandonPools_tame (poolMutexes : List ℕ) (base block : ℕ) : Tame (abandonPools poolMutexes base block) :=
  .bind (releaseAll_tame _ _) fun _ => .bind (.release _ _) fun _ => .release _ _

theorem initPools_tame (answers : ManagerAnswers) (block base : ℕ) (useHugePages : Bool) :
    Tame (initPools answers block base useHugePages) := by
  unfold initPools
  refine .bind (initPoolMutexes_tame _ _ _) fun r => ?_
  obtain ⟨complete, poolMutexes⟩ := r
  have habandon : ∀ {Result : Type} (result : Result), Tame (do
      abandonPools poolMutexes base block
      return result) := fun _ => .bind (abandonPools_tame _ _ _) fun _ => .pure _
  refine .ite (habandon _) (.bind (.acquire _ _) fun cacheKey => .ite (habandon _) ?_)
  refine .bind (.acquire _ _) fun cacheListMutex => .ite (.bind (.release _ _) fun _ => habandon _) ?_
  refine .bind (.acquire _ _) fun intentMutex => .ite ?_ ?_
  · exact .bind (.release _ _) fun _ => .bind (.release _ _) fun _ => habandon _
  · exact .bind (.acquire _ _) fun tracked => .ite (.bind (.release _ _) fun _ => habandon _) (.pure _)

theorem memoryManagerInit_tame (answers : ManagerAnswers) (pools : Pools) :
    Tame (memoryManagerInit answers pools) := by
  unfold memoryManagerInit
  refine .bind (.acquire _ _) fun block => .ite (.pure _) (.bind (hugepagesInit_tame _ _) fun pages => ?_)
  refine .bind (.acquire _ _) fun mapped => .ite ?_ (.bind (initPools_tame _ _ _ _) fun _ => .pure _)
  refine .bind (.acquire _ _) fun base => .ite ?_ (.bind (initPools_tame _ _ _ _) fun _ => .pure _)
  exact .bind (hugepagesShutdown_tame _) fun _ => .bind (.release _ _) fun _ => .pure _

theorem freePools_tame (useHugePages : Bool) (base : Option (Resource × ℕ)) : Tame (freePools useHugePages base) := by
  cases base with
  | none => exact .pure _
  | some base => exact .ite (.release _ _) (.release _ _)

/-- What `lgx_memory_manager_shutdown` does after the pools. -/
theorem managerParts_tame (pools : Pools) (manager : Manager) : Tame (do
    hugepagesShutdown pools.pages
    manager.poolMutexes.forM (release .mutex)
    release .mutex manager.cacheListMutex
    release .mutex manager.intentMutex
    release .heap manager.trackedAllocations
    release .heap manager.block) := by
  refine .bind (hugepagesShutdown_tame _) fun _ => .bind (releaseAll_tame _ _) fun _ => ?_
  exact .bind (.release _ _) fun _ => .bind (.release _ _) fun _ => .bind (.release _ _) fun _ => .release _ _

theorem memoryManagerShutdown_tame (pools : Pools) (manager : Manager) :
    Tame (memoryManagerShutdown pools manager) :=
  .bind (.release _ _) fun _ => .bind (freePools_tame _ _) fun _ => managerParts_tame pools manager

theorem freeHugePageArena_tame (size : ℕ) (arena : ArenaMapping) : Tame (freeHugePageArena size arena) :=
  .ite (.ite (.release _ _) (.pure _)) (.release _ _)

theorem allocateHugePageArena_tame (size : ℕ) (answers : ArenaAnswers) :
    Tame (allocateHugePageArena size answers) := by
  refine .bind (.acquire _ _) fun huge => .ite (.bind (.acquire _ _) fun plain => .ite (.pure _) ?_) (.pure _)
  exact .bind (.acquire _ _) fun _ => .pure _

theorem mapArenas_tame (size : ℕ) (answers : ℕ → ArenaAnswers) (is : List ℕ) (arenas : List ArenaMapping) :
    Tame (mapArenas size answers is arenas) := by
  induction is generalizing arenas with
  | nil => exact .pure _
  | cons i is ih =>
      refine .bind (allocateHugePageArena_tame size (answers i)) fun arena => ?_
      cases arena with
      | none => exact .bind (.forM (freeHugePageArena_tame size) _) fun _ => .pure _
      | some arena => exact ih _

theorem frameArenaInit_tame (configuredArenaSize : ℕ) (resetMutex : Bool) (answers : ℕ → ArenaAnswers) :
    Tame (frameArenaInit configuredArenaSize resetMutex answers) := by
  refine .bind (.acquire _ _) fun mutex => .ite (.pure _) (.bind (mapArenas_tame _ _ _ _) fun arenas => ?_)
  cases arenas with
  | none => exact .bind (.release _ _) fun _ => .pure _
  | some arenas => exact .pure _

theorem frameArenaShutdown_tame (frames : FrameArenas) : Tame (frameArenaShutdown frames) :=
  .bind (.forM (freeHugePageArena_tame _) _) fun _ => .release _ _

theorem persistentHeapInit_tame (answers : HeapAnswers) (state : HugepageState) :
    Tame (persistentHeapInit answers state) := by
  refine .bind (.acquire _ _) fun mutex => .ite (.pure _) (.bind (.acquire _ _) fun mapped => .ite ?_ (.pure _))
  refine .bind (.acquire _ _) fun memory => .ite ?_ (.pure _)
  exact .bind (.release _ _) fun _ => .pure _

theorem persistentHeapShutdown_tame (heap : PersistentHeap) : Tame (persistentHeapShutdown heap) :=
  .ite (.bind (.release _ _) fun _ => .release _ _) (.bind (.release _ _) fun _ => .release _ _)

theorem intentAllocatorInit_tame (configuredArenaSize : ℕ) (resetMutex : Bool) (arenas : ℕ → ArenaAnswers)
    (heap : HeapAnswers) (state : HugepageState) :
    Tame (intentAllocatorInit configuredArenaSize resetMutex arenas heap state) := by
  refine .bind (frameArenaInit_tame _ _ _) fun frames => ?_
  cases frames with
  | error result => exact .pure _
  | ok frames =>
      refine .bind (persistentHeapInit_tame _ _) fun heap => ?_
      cases heap with
      | error result => exact .bind (frameArenaShutdown_tame frames) fun _ => .pure _
      | ok heap => exact .pure _

theorem intentAllocatorShutdown_tame (allocators : FrameArenas × PersistentHeap) :
    Tame (intentAllocatorShutdown allocators) :=
  .bind (persistentHeapShutdown_tame _) fun _ => frameArenaShutdown_tame _

theorem countersInit_tame (mutexInit : Bool) (counters : Option ℕ) : Tame (countersInit mutexInit counters) := by
  cases counters with
  | none => exact .bind (.acquire _ _) fun _ => .ite (.pure _) (.pure _)
  | some mutex => exact .pure _

theorem traceInit_tame (mutexInit calloc : Bool) (trace : Option Trace) : Tame (traceInit mutexInit calloc trace) := by
  cases trace with
  | none =>
      refine .bind (.acquire _ _) fun mutex => .ite (.pure _) (.bind (.acquire _ _) fun events => .ite ?_ (.pure _))
      exact .bind (.release _ _) fun _ => .pure _
  | some trace => exact .pure _

theorem telemetryIfAsked_tame (config : RuntimeConfig) (answers : StartAnswers) :
    Tame (telemetryIfAsked config answers) :=
  .ite (.bind (telemetryInit_tame _ _) fun _ => .pure _) (.pure _)

theorem orReturn_tame {Object : Type} {s : RuntimeState} {next : Object → Program Resource (LgxResult × RuntimeState)}
    (hnext : ∀ object, Tame (next object)) (result : Except LgxResult Object) : Tame (orReturn s result next) := by
  cases result with
  | error result => exact .pure _
  | ok object => exact hnext object

theorem startAfterManager_tame (config : RuntimeConfig) (answers : StartAnswers) (s : RuntimeState) :
    Tame (startAfterManager config answers s) := by
  unfold startAfterManager
  refine .bind (intentAllocatorInit_tame _ _ _ _ _) (orReturn_tame fun allocators => ?_)
  refine .bind (platformServicesInit_tame _ _ _) (orReturn_tame fun platformServices => ?_)
  refine .bind (lifecycleManagerInit_tame _ _ _) fun r => orReturn_tame (fun lifecycleManager => ?_) r.1
  refine .bind (Guarded.create_tame _) (orReturn_tame fun healthMonitor => ?_)
  exact .bind (telemetryIfAsked_tame _ _) fun _ => .bind (traceInit_tame _ _ _) fun _ => .pure _

theorem initializeSubsystems_tame (config : RuntimeConfig) (answers : StartAnswers) (s : RuntimeState) :
    Tame (initializeSubsystems config answers s) := by
  unfold initializeSubsystems
  refine .bind (countersInit_tame _ _) (orReturn_tame fun counters => ?_)
  refine .bind (plainInit_tame _) (orReturn_tame fun hardwareAdapter => ?_)
  refine .bind (plainInit_tame _) (orReturn_tame fun capabilityDetector => ?_)
  exact .bind (memoryManagerInit_tame _ _) fun r => orReturn_tame (fun manager => startAfterManager_tame _ _ _) r.1

theorem ifThere_tame {Object : Type} {shutdown : Object → Program Resource Unit} (h : ∀ object, Tame (shutdown object))
    (object : Option Object) : Tame (ifThere shutdown object) := by
  cases object with
  | none => exact .pure _
  | some object => exact h object

/-- What `shutdown_subsystems` does after the memory manager. -/
theorem lower_tame (s : RuntimeState) : Tame (do
    ifThere plainShutdown s.capabilityDetector
    ifThere plainShutdown s.hardwareAdapter
    ifThere errorHandlerShutdown s.errorHandler
    ifThere countersShutdown s.counters
    return s.shut) := by
  refine .bind (ifThere_tame (fun _ => .release _ _) _) fun _ => .bind (ifThere_tame (fun _ => .release _ _) _) fun _ => ?_
  refine .bind (ifThere_tame (fun g => g.destroy_tame) _) fun _ => ?_
  exact .bind (ifThere_tame (fun _ => .release _ _) _) fun _ => .pure _

theorem traceShutdown_tame (trace : Trace) : Tame (traceShutdown trace) :=
  .bind (.release _ _) fun _ => .release _ _

theorem telemetryShutdown_tame (telemetry : Telemetry) : Tame (telemetryShutdown telemetry) :=
  .bind (.release _ _) fun _ => telemetry.toGuarded.destroy_tame

theorem platformServicesShutdown_tame (services : PlatformServices) : Tame (platformServicesShutdown services) :=
  .bind (.release _ _) fun _ => services.toGuarded.destroy_tame

theorem shutdownSubsystems_tame (s : RuntimeState) : Tame (shutdownSubsystems s) := by
  unfold shutdownSubsystems
  refine .bind (ifThere_tame traceShutdown_tame _) fun _ => .bind (ifThere_tame telemetryShutdown_tame _) fun _ => ?_
  refine .bind (ifThere_tame (fun g => g.destroy_tame) _) fun _ => ?_
  refine .bind (ifThere_tame (fun manager => manager.toGuarded.destroy_tame) _) fun _ => ?_
  refine .bind (ifThere_tame platformServicesShutdown_tame _) fun _ => ?_
  refine .bind (ifThere_tame intentAllocatorShutdown_tame _) fun _ => ?_
  exact .bind (ifThere_tame (memoryManagerShutdown_tame _) _) fun _ => lower_tame s

theorem runtimeInit_tame (config : Option RuntimeConfig) (answers : StartAnswers) (s : RuntimeState) :
    Tame (runtimeInit config answers s) := by
  unfold runtimeInit
  refine .ite (.pure _) (.bind (Guarded.create_tame _) (orReturn_tame fun errorHandler => ?_))
  cases validate config with
  | error result => exact .bind errorHandler.destroy_tame fun _ => .pure _
  | ok config =>
      refine .bind (initializeSubsystems_tame _ _ _) fun r => .ite ?_ (.pure _)
      exact .bind (shutdownSubsystems_tame _) fun _ => .pure _

theorem Life.step_tame (life : Life) (op : Op) : Tame (life.step op) := by
  cases op with
  | init config answers => exact .bind (runtimeInit_tame _ _ _) fun _ => .pure _
  | shutdown => exact .bind (.ite (.pure _) (.bind (shutdownSubsystems_tame _) fun _ => .pure _)) fun _ => .pure _
  | sigaction signal handler => exact .pure _

/-! ## Stopping with pools that do not match -/

/-- What is lost is neither memory of the heap nor a plain mapping. -/
def Stray (rest : Multiset (Resource × ℕ)) : Prop :=
  Without .heap rest ∧ Without .mapping rest

/-- The memory of the pools is a mapping only if the flag says so. -/
def RuntimeState.PoolsFit (s : RuntimeState) : Prop :=
  ∀ manager kind base, s.memoryManager = some manager → s.pools.base = some (kind, base) →
    base ≠ 0 ∧ (kind = .heap ∨ kind = .mapping ∧ manager.useHugePages = true)

/-- If the pools do not match, memory of the heap is taken for a mapping. -/
theorem RuntimeState.PoolsFit.cases (hfit : s.PoolsFit) (hmismatch : ¬s.PoolsMatch) : ∃ manager base,
    s.memoryManager = some manager ∧ s.pools.base = some (.heap, base) ∧ base ≠ 0 ∧ manager.useHugePages = true := by
  unfold RuntimeState.PoolsMatch Matches at hmismatch
  push Not at hmismatch
  obtain ⟨manager, hmanager, kind, base, hbase, hkind⟩ := hmismatch
  obtain ⟨hname, rfl | ⟨rfl, huses⟩⟩ := hfit manager kind base hmanager hbase
  · refine ⟨manager, base, hmanager, hbase, hname, ?_⟩
    by_contra huses
    exact hkind (if_neg huses).symm
  · exact absurd (if_pos huses).symm hkind

theorem objectsOf_without {Object : Type} {objects : Object → Multiset (Resource × ℕ)} {kind : Resource}
    (h : ∀ object, Without kind (objects object)) (object : Option Object) :
    Without kind (objectsOf objects object) := by
  cases object with
  | none => exact .zero
  | some object => exact h object

theorem Guarded.objects_without (g : Guarded) : Without .mapping g.objects :=
  (Without.owned (by decide)).add (.owned (by decide))

theorem Manager.parts_without (manager : Manager) : Without .mapping manager.parts := by
  refine (Without.sum (fun _ => .owned (by decide)) _).add ?_
  exact (Without.owned (by decide)).add ((Without.owned (by decide)).add
    ((Without.owned (by decide)).add (.owned (by decide))))

theorem lower_without (s : RuntimeState) : Without .mapping s.lower := by
  refine (objectsOf_without (fun _ => .owned (by decide)) _).add ?_
  refine (objectsOf_without (fun _ => .owned (by decide)) _).add ?_
  exact (objectsOf_without Guarded.objects_without _).add (objectsOf_without (fun _ => .owned (by decide)) _)

/-- What is left of the arenas are huge pages, and parts behind plain ones. -/
theorem FrameArenas.left_stray (frames : FrameArenas) : Stray frames.left := by
  constructor
  · refine Without.sum (fun arena => Without.add ?_ (.owned (by decide))) _
    split_ifs
    · exact .owned (by decide)
    · exact .zero
  · refine Without.sum (fun arena => Without.add ?_ (.owned (by decide))) _
    split_ifs
    · exact .owned (by decide)
    · exact .zero

theorem left_stray (s : RuntimeState) : Stray s.left :=
  ⟨objectsOf_without (fun allocators => allocators.1.left_stray.1) _,
    objectsOf_without (fun allocators => allocators.1.left_stray.2) _⟩

/-- Memory of the heap is taken for a mapping. -/
theorem memoryManagerShutdown_breaks {pools : Pools} {manager : Manager} {base : ℕ}
    (hbase : pools.base = some (.heap, base)) (hname : base ≠ 0) (huses : manager.useHugePages = true)
    (hrest : Without .mapping rest) :
    Outcome (owned .key manager.cacheKey + rest) (memoryManagerShutdown pools manager) fun _ left => left = none := by
  unfold memoryManagerShutdown
  refine .release_bind rfl ?_
  rw [hbase, huses]
  exact .breaks hname (hrest base) (managerParts_tame pools manager).extending fun _ => rfl

theorem shutdownSubsystems_breaks (hfit : s.PoolsFit) (hmismatch : ¬s.PoolsMatch) (hrest : Stray rest) :
    Outcome (s.objects + rest) (shutdownSubsystems s) fun s' left => s' = s.shut ∧ left = none := by
  obtain ⟨manager, base, hmanager, hbase, hname, huses⟩ := hfit.cases hmismatch
  unfold shutdownSubsystems RuntimeState.objects RuntimeState.upper
  simp only [add_assoc]
  refine .spend (ifThere_triple traceShutdown_triple s.trace) (ifThere_tame traceShutdown_tame _).names fun _ => ?_
  refine .spend (ifThere_triple telemetryShutdown_triple s.telemetry) (ifThere_tame telemetryShutdown_tame _).names
    fun _ => ?_
  refine .spend (ifThere_triple Guarded.destroy_triple s.healthMonitor)
    (ifThere_tame (fun g => g.destroy_tame) _).names fun _ => ?_
  refine .spend (ifThere_triple (fun manager => manager.toGuarded.destroy_triple) s.lifecycleManager)
    (ifThere_tame (fun manager => manager.toGuarded.destroy_tame) _).names fun _ => ?_
  refine .spend (ifThere_triple platformServicesShutdown_triple s.platformServices)
    (ifThere_tame platformServicesShutdown_tame _).names fun _ => ?_
  refine .call (ifThere_leaving intentAllocatorShutdown_triple s.allocators)
    (ifThere_tame intentAllocatorShutdown_tame _).names rfl fun _ => ?_
  rw [hmanager]
  have hothers : Without .mapping
      (s.pools.memory + (manager.parts + (s.pools.pages.objects + (s.lower + (s.left + rest))))) := by
    refine Without.add ?_ (manager.parts_without.add (Without.add (.owned (by decide))
      ((lower_without s).add ((left_stray s).2.add hrest.2))))
    rw [Pools.memory, hbase]
    exact .owned (by simp)
  have hbefore : objectsOf (·.1.left) s.allocators + (objectsOf (Manager.objects s.pools) (some manager) +
      (s.pools.pages.objects + (s.lower + rest))) = owned .key manager.cacheKey +
        (s.pools.memory + (manager.parts + (s.pools.pages.objects + (s.lower + (s.left + rest))))) := by
    change s.left + (manager.objects s.pools + _) = _
    unfold Manager.objects
    abel
  rw [hbefore]
  refine (memoryManagerShutdown_breaks hbase hname huses hothers).bind (fun _ _ h => by cases h) fun _ _ => ?_
  refine ⟨(lower_tame s).extending, ?_⟩
  iterate 4 refine .after fun _ => ?_
  exact .pure ⟨rfl, rfl⟩

/-- What a stop of the subsystems comes to. -/
theorem shutdownSubsystems_outcome (hfit : s.PoolsFit) (hrest : Stray rest) :
    Outcome (s.objects + rest) (shutdownSubsystems s) fun s' left => s' = s.shut ∧
      ((¬s.PoolsMatch ∧ left = none) ∨ (s.PoolsMatch ∧ left = some (s.shut.objects + (s.left + rest)))) := by
  by_cases hmatch : s.PoolsMatch
  · refine (Outcome.of_triple (shutdownSubsystems_triple hmatch) (shutdownSubsystems_tame s).names
      (shutdownSubsystems_returns s) rfl).mono fun s' left h => ⟨h.1, .inr ⟨hmatch, ?_⟩⟩
    rw [h.2, add_assoc]
  · exact (shutdownSubsystems_breaks hfit hmatch hrest).mono fun s' left h => ⟨h.1, .inl ⟨hmatch, h.2⟩⟩

end LgxRuntime.Runtime.Subsystems
