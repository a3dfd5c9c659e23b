import LgxRuntime.Machine
import LgxRuntime.Lib.BlockLog

/-!
# The memory manager

`lgx_memory_manager_alloc` serves requests of up to 8 KB from caches of the calling thread: a table of
blocks that is filled when the cache is created (the hot path), and, behind it, stacks of blocks by size
class.  Behind these is a pool for each size class that all threads share, a lock-free stack, and behind
it `malloc`.  `lgx_memory_manager_free` sends a block back by the size that `malloc_usable_size`
reports for it.

A thread is at a program counter, and its steps interleave with those of other threads.  What a thread
does to its own cache is one step; on the shared pools every load and every compare-and-swap is a step
of its own, so that a thread can be overtaken between reading the link of the top block and swapping the
head.  What the environment decides (`malloc`'s answers, failures that the chaos mode injects, weak
compare-and-swaps that fail for no reason) is part of the action.  The log of `BlockLog` records what
happens to each block.

Statistics and the adaptive strategies that nothing calls are left out; so is the memory of the thread
caches themselves.  The table of allocations with an intent is in `IntentTracking`.
-/

namespace LgxRuntime.MemoryManager

open Function (update)
open BlockLog (Event)

/-! ## Size classes -/

/-- `size_classes`. -/
def sizeClasses : List ℕ :=
  [16, 32, 48, 64, 96, 128, 192, 256, 384, 512, 768, 1024, 1536, 2048, 3072, 4096]

/-- `NUM_SIZE_CLASSES`. -/
def numSizeClasses : ℕ := 16

/-- `MAX_SMALL_SIZE`. -/
def maxSmallSize : ℕ := 4096

/-- The largest request that the hot path serves. -/
def maxHotSize : ℕ := 8192

/-- `hot_path_sizes`. -/
def hotPathSizes : List ℕ :=
  [64, 128, 256, 512, 1024, 2048, 4096, 8192]

/-- `HOT_PATH_SIZE_CLASSES`. -/
def hotPathSizeClasses : ℕ := 8

/-- `HOT_PATH_CACHE_SIZE`. -/
def hotPathCacheSize : ℕ := 512

/-- `cache->capacity`, which nothing changes once the cache is created. -/
def cacheCapacity : ℕ := 32

/-- `size_classes[c]`. -/
def classSize (c : ℕ) : ℕ :=
  sizeClasses.getD c 0

/-- `hot_path_sizes[hotClass]`. -/
def hotPathSize (hotClass : ℕ) : ℕ :=
  hotPathSizes.getD hotClass 0

/-- `get_size_class_index`; `none` is the result `-1`. -/
def getSizeClassIndex (size : ℕ) : Option ℕ :=
  sizeClasses.findIdx? fun classSize => size ≤ classSize

/-- `get_hot_path_size_class`; `none` is the result `-1`. -/
def getHotPathSizeClass (size : ℕ) : Option ℕ :=
  if size ≤ 64 then some 0
  else if size ≤ 128 then some 1
  else if size ≤ 256 then some 2
  else if size ≤ 512 then some 3
  else if size ≤ 1024 then some 4
  else if size ≤ 2048 then some 5
  else if size ≤ 4096 then some 6
  else if size ≤ 8192 then some 7
  else none

/-- `MAX_THREADS`. -/
def maxThreads : ℕ := 64

/-- The bytes of the pool of one thread: 16 MB. -/
def poolSizePerThread : ℕ := 16 * 1024 * 1024

/-- Whether `lgx_memory_manager_free` takes a pointer for one into the thread pools at `base`. -/
def inThreadPools (base ptr : ℕ) : Bool :=
  base ≠ 0 ∧ base ≤ ptr ∧ ptr < base + maxThreads * poolSizePerThread

/-- Whether `cache_destructor` takes a pointer for one into a thread pool. -/
def fromPool (base ptr : ℕ) : Bool :=
  (List.range maxThreads).any fun j =>
    base ≠ 0 ∧ base + j * poolSizePerThread ≤ ptr ∧
      ptr < base + j * poolSizePerThread + poolSizePerThread

/-! ## The state -/

/-- `free_block_t`, as it lies in the first words of a block; `0` is `NULL`. -/
structure FreeBlock where
  next : ℕ
  generation : ℕ

/-- `hot_path_cache_t`.  `preallocatedBlocks hotClass` lists the blocks up to the watermark; the rest of
the table is `NULL`. -/
structure HotPathCache where
  preallocatedBlocks : ℕ → List ℕ
  nextFree : ℕ → ℕ

/-- `thread_cache_t`.  `slots c` lists `slots[c][0 .. count[c])`, the last one first. -/
structure ThreadCache where
  slots : ℕ → List ℕ
  hotPath : HotPathCache

/-- Where a thread is. -/
inductive Pc
  /-- Outside the memory manager. -/
  | idle
  /-- At the call of `allocate_small`; `again` if the hot path has returned `NULL` before. -/
  | small (size : ℕ) (again : Bool)
  /-- After a call of `allocate_small` or `allocate_medium` that returned `NULL`. -/
  | refused (size : ℕ) (again : Bool)
  /-- In `lgx_lockfree_pop`, before the load of the head. -/
  | popLoad (size c : ℕ) (again : Bool)
  /-- In `lgx_lockfree_pop`, with a head, before the load of its link. -/
  | popNext (size c : ℕ) (again : Bool) (head : ℕ)
  /-- In `lgx_lockfree_pop`, before the compare-and-swap. -/
  | popCas (size c : ℕ) (again : Bool) (head next : ℕ)
  /-- In `lgx_lockfree_pop`, after the compare-and-swap. -/
  | popClear (size ptr : ℕ)
  /-- In `lgx_lockfree_push`, before the load of the head. -/
  | pushLoad (c ptr : ℕ)
  /-- In `lgx_lockfree_push`, before the compare-and-swap. -/
  | pushCas (c ptr head : ℕ)

/-- The block that a thread carries from one place to another. -/
def Pc.carries : Pc → Option ℕ
  | popClear _ ptr => some ptr
  | pushLoad _ ptr => some ptr
  | pushCas _ ptr _ => some ptr
  | _ => none

/-- The memory manager, the lock-free pools and the threads. -/
structure State (Thread : Type) where
  cache : Thread → Option ThreadCache
  pc : Thread → Pc
  poolHead : ℕ → ℕ
  poolGeneration : ℕ → ℕ
  block : ℕ → FreeBlock
  threadPools : ℕ
  log : List (Event Thread ℕ)

/-- The state after `lgx_memory_manager_init`. -/
def init {Thread : Type} (threadPools : ℕ) (contents : ℕ → FreeBlock) : State Thread :=
  { cache := fun _ => none
    pc := fun _ => .idle
    poolHead := fun _ => 0
    poolGeneration := fun _ => 1
    block := contents
    threadPools := threadPools
    log := [] }

variable {Thread : Type} [DecidableEq Thread]

namespace State

/-- Record an event. -/
def emit (s : State Thread) (e : Event Thread ℕ) : State Thread :=
  { s with log := e :: s.log }

/-- Move thread `t` to `pc`. -/
def goto (s : State Thread) (t : Thread) (pc : Pc) : State Thread :=
  { s with pc := update s.pc t pc }

/-- Write the cache of thread `t`. -/
def setCache (s : State Thread) (t : Thread) (cache : Option ThreadCache) : State Thread :=
  { s with cache := update s.cache t cache }

/-! ## Creating a thread cache -/

/-- What `prewarm_hot_path_cache` gets from `malloc`. -/
structure Prewarm where
  blocks : ℕ → List ℕ
  usable : ℕ → ℕ

/-- All blocks of a hot path table, class by class. -/
def allBlocks (blocks : ℕ → List ℕ) : List ℕ :=
  (List.range hotPathSizeClasses).flatMap blocks

/-- How the creation of a thread cache ends: without memory for it, without a place in the list of
caches, or with a cache. -/
inductive CacheOutcome
  | unavailable
  | unregistered (w : Prewarm)
  | created (w : Prewarm)

/-- The mallocs of `prewarm_hot_path_cache`. -/
def prewarm (s : State Thread) (t : Thread) (w : Prewarm) : State Thread :=
  { s with log := BlockLog.acquireAll t w.usable (allBlocks w.blocks) s.log }

/-- `get_thread_cache`. -/
def getThreadCache (s : State Thread) (t : Thread) (outcome : CacheOutcome) :
    Option ThreadCache × State Thread :=
  match s.cache t with
  | some cache => (some cache, s)
  | none =>
      match outcome with
      | .unavailable => (none, s)
      -- the blocks of the table are not given back
      | .unregistered w => (none, s.prewarm t w)
      | .created w =>
          let cache : ThreadCache := ⟨fun _ => [], ⟨w.blocks, fun _ => 0⟩⟩
          (some cache, (s.prewarm t w).setCache t (some cache))

/-! ## Allocation -/

/-- Return `ptr` to the client. -/
def grant (s : State Thread) (t : Thread) (ptr size : ℕ) : State Thread :=
  (s.emit (.granted t ptr size)).goto t .idle

/-- Return what `malloc` answers, an address and its usable size, or go on to `otherwise`. -/
def grantMalloc (s : State Thread) (t : Thread) (size : ℕ) (answer : Option (ℕ × ℕ)) (otherwise : Pc) :
    State Thread :=
  match answer with
  | none => s.goto t otherwise
  | some (ptr, usable) => (s.emit (.acquired t ptr usable)).grant t ptr size

/-- `allocate_ultra_fast`, up to a call of `allocate_small`.  The counter is read into 32 bits. -/
def allocateUltraFast (s : State Thread) (t : Thread) (size : ℕ) (outcome : CacheOutcome) :
    State Thread :=
  match getHotPathSizeClass size with
  | none => s.goto t (.small size false)
  | some hotClass =>
      match s.getThreadCache t outcome with
      | (none, s₁) => s₁.goto t (.small size false)
      | (some cache, s₁) =>
          -- the counter goes up even if the table is used up
          let slotIdx := cache.hotPath.nextFree hotClass % 2 ^ 32
          let s₂ := s₁.setCache t (some { cache with
            hotPath := { cache.hotPath with
              nextFree := update cache.hotPath.nextFree hotClass
                (cache.hotPath.nextFree hotClass + 1) } })
          if slotIdx ≥ hotPathCacheSize then s₂.goto t (.small size false)
          else
            match (cache.hotPath.preallocatedBlocks hotClass)[slotIdx]? with
            | some ptr => s₂.grant t ptr size
            | none => s₂.goto t (.small size false)

/-- `lgx_memory_manager_alloc`, up to a call of `allocate_small`. -/
def alloc (s : State Thread) (t : Thread) (size : ℕ) (outcome : CacheOutcome)
    (answer : Option (ℕ × ℕ)) : State Thread :=
  if size = 0 then s
  else if size ≤ maxHotSize then s.allocateUltraFast t size outcome
  else s.grantMalloc t size answer .idle

/-- `lgx_memory_manager_alloc_aligned`. -/
def allocAligned (s : State Thread) (t : Thread) (size alignment : ℕ) (answer : Option (ℕ × ℕ)) :
    State Thread :=
  if size = 0 ∨ alignment = 0 then s else s.grantMalloc t size answer .idle

/-- `allocate_small`, up to a call of `lgx_lockfree_pop`. -/
def allocateSmall (s : State Thread) (t : Thread) (size : ℕ) (again : Bool) (chaos : Bool)
    (outcome : CacheOutcome) (answer : Option (ℕ × ℕ)) : State Thread :=
  if chaos then s.goto t (.refused size again)
  else
    match getSizeClassIndex size with
    | none => s.grantMalloc t size answer (.refused size again)
    | some c =>
        match s.getThreadCache t outcome with
        | (none, s₁) => s₁.grantMalloc t size answer (.refused size again)
        | (some cache, s₁) =>
            match cache.slots c with
            | ptr :: rest =>
                (s₁.setCache t (some { cache with slots := update cache.slots c rest })).grant t ptr size
            | [] => s₁.goto t (.popLoad size c again)

/-- What `lgx_memory_manager_alloc` does after a `NULL`: nothing, if the hot path was already behind it,
else `allocate_small` or `allocate_medium`. -/
def retry (s : State Thread) (t : Thread) (size : ℕ) (again : Bool) (answer : Option (ℕ × ℕ)) :
    State Thread :=
  if again then s.goto t .idle
  else if size ≤ maxSmallSize then s.goto t (.small size true)
  else s.grantMalloc t size answer .idle

/-! ## The lock-free pools -/

/-- `lgx_lockfree_pop` with the head it has loaded; an empty pool sends `allocate_small` to `malloc`. -/
def popWith (s : State Thread) (t : Thread) (size c : ℕ) (again : Bool) (head : ℕ)
    (answer : Option (ℕ × ℕ)) : State Thread :=
  if head = 0 then s.grantMalloc t size answer (.refused size again)
  else s.goto t (.popNext size c again head)

/-- The compare-and-swap of `lgx_lockfree_pop`; a weak one may fail for no reason. -/
def popCas (s : State Thread) (t : Thread) (size c : ℕ) (again : Bool) (head next : ℕ)
    (spurious : Bool) (answer : Option (ℕ × ℕ)) : State Thread :=
  if s.poolHead c = head ∧ ¬ spurious then
    -- the head alone is compared
    { s with poolHead := update s.poolHead c next }.goto t (.popClear size head)
  else s.popWith t size c again (s.poolHead c) answer

/-- The end of `lgx_lockfree_pop`. -/
def popClear (s : State Thread) (t : Thread) (size ptr : ℕ) : State Thread :=
  { s with block := update s.block ptr { s.block ptr with next := 0 } }.grant t ptr size

/-- `lgx_lockfree_push` up to the load of the head. -/
def push (s : State Thread) (t : Thread) (c ptr : ℕ) : State Thread :=
  { s with
    poolGeneration := update s.poolGeneration c (s.poolGeneration c + 1)
    block := update s.block ptr { s.block ptr with generation := s.poolGeneration c } }.goto t
    (.pushLoad c ptr)

/-- Write the link of a block that is about to be pushed. -/
def link (s : State Thread) (t : Thread) (c ptr : ℕ) : State Thread :=
  { s with block := update s.block ptr { s.block ptr with next := s.poolHead c } }.goto t
    (.pushCas c ptr (s.poolHead c))

/-- The compare-and-swap of `lgx_lockfree_push`. -/
def pushCas (s : State Thread) (t : Thread) (c ptr head : ℕ) (spurious : Bool) : State Thread :=
  if s.poolHead c = head ∧ ¬ spurious then
    { s with poolHead := update s.poolHead c ptr }.goto t .idle
  else s.link t c ptr

/-! ## Deallocation -/

/-- `lgx_memory_manager_free`, up to a call of `lgx_lockfree_push`. -/
def free (s : State Thread) (t : Thread) (ptr : ℕ) (outcome : CacheOutcome) : State Thread :=
  let s₀ := s.emit (.returned t ptr)
  if inThreadPools s.threadPools ptr then s₀
  else
    match s₀.getThreadCache t outcome with
    | (none, s₁) => s₁.emit (.released ptr)
    | (some cache, s₁) =>
        -- a block of the hot path table stays in the table
        if ptr ∈ allBlocks cache.hotPath.preallocatedBlocks then s₁
        else
          -- the class is the one of the usable size, not of the size that was asked for
          match getSizeClassIndex (BlockLog.usable s.log ptr) with
          | none => s₁.emit (.released ptr)
          | some c =>
              if (cache.slots c).length < cacheCapacity then
                s₁.setCache t (some { cache with
                  slots := update cache.slots c (ptr :: cache.slots c) })
              else s₁.push t c ptr

/-- The blocks of the slots that `cache_destructor` passes to `free`. -/
def slotFrees (threadPools : ℕ) (cache : ThreadCache) : List ℕ :=
  ((List.range numSizeClasses).flatMap fun c => (cache.slots c).reverse).filter fun ptr =>
    ptr ≠ 0 ∧ ¬ fromPool threadPools ptr

/-- The blocks of the hot path table that `cache_destructor` passes to `free` after that. -/
def hotFrees (threadPools : ℕ) (cache : ThreadCache) : List ℕ :=
  (allBlocks fun hotClass => (cache.hotPath.preallocatedBlocks hotClass).take hotPathCacheSize).filter
    fun ptr => ptr ≠ 0 ∧ ptr ∉ slotFrees threadPools cache ∧ ¬ fromPool threadPools ptr

/-- The exit of a thread: `cache_destructor`. -/
def exitThread (s : State Thread) (t : Thread) : State Thread :=
  match s.cache t with
  | none => s
  | some cache =>
      { s with
        cache := update s.cache t none
        log := BlockLog.releaseAll
          (slotFrees s.threadPools cache ++ hotFrees s.threadPools cache) s.log }

end State

/-! ## Steps -/

open State (CacheOutcome)

/-- A step of a thread or of a client, with what the environment answers. -/
inductive Action (Thread : Type)
  | alloc (t : Thread) (size : ℕ) (outcome : CacheOutcome) (answer : Option (ℕ × ℕ))
  | allocAligned (t : Thread) (size alignment : ℕ) (answer : Option (ℕ × ℕ))
  | small (t : Thread) (chaos : Bool) (outcome : CacheOutcome) (answer : Option (ℕ × ℕ))
  | retry (t : Thread) (answer : Option (ℕ × ℕ))
  | popLoad (t : Thread) (answer : Option (ℕ × ℕ))
  | popNext (t : Thread)
  | popCas (t : Thread) (spurious : Bool) (answer : Option (ℕ × ℕ))
  | popClear (t : Thread)
  | free (t : Thread) (ptr : ℕ) (outcome : CacheOutcome)
  | pushLoad (t : Thread)
  | pushCas (t : Thread) (spurious : Bool)
  | exit (t : Thread)
  | write (ptr : ℕ) (contents : FreeBlock)

/-- One step; `none` if the thread is not where the action starts. -/
def step (s : State Thread) : Action Thread → Option (State Thread)
  | .alloc t size outcome answer =>
      match s.pc t with
      | .idle => some (s.alloc t size outcome answer)
      | _ => none
  | .allocAligned t size alignment answer =>
      match s.pc t with
      | .idle => some (s.allocAligned t size alignment answer)
      | _ => none
  | .small t chaos outcome answer =>
      match s.pc t with
      | .small size again => some (s.allocateSmall t size again chaos outcome answer)
      | _ => none
  | .retry t answer =>
      match s.pc t with
      | .refused size again => some (s.retry t size again answer)
      | _ => none
  | .popLoad t answer =>
      match s.pc t with
      | .popLoad size c again => some (s.popWith t size c again (s.poolHead c) answer)
      | _ => none
  | .popNext t =>
      match s.pc t with
      | .popNext size c again head =>
          some (s.goto t (.popCas size c again head (s.block head).next))
      | _ => none
  | .popCas t spurious answer =>
      match s.pc t with
      | .popCas size c again head next => some (s.popCas t size c again head next spurious answer)
      | _ => none
  | .popClear t =>
      match s.pc t with
      | .popClear size ptr => some (s.popClear t size ptr)
      | _ => none
  | .free t ptr outcome =>
      match s.pc t with
      | .idle => some (s.free t ptr outcome)
      | _ => none
  | .pushLoad t =>
      match s.pc t with
      | .pushLoad c ptr => some (s.link t c ptr)
      | _ => none
  | .pushCas t spurious =>
      match s.pc t with
      | .pushCas c ptr head => some (s.pushCas t c ptr head spurious)
      | _ => none
  | .exit t =>
      match s.pc t with
      | .idle => some (s.exitThread t)
      | _ => none
  | .write ptr contents => some { s with block := update s.block ptr contents }

/-- The steps with what they start from. -/
inductive Transition (s : State Thread) : Action Thread → State Thread → Prop
  | alloc {t : Thread} (size : ℕ) (outcome : CacheOutcome) (answer : Option (ℕ × ℕ))
      (hpc : s.pc t = .idle) :
      Transition s (.alloc t size outcome answer) (s.alloc t size outcome answer)
  | allocAligned {t : Thread} (size alignment : ℕ) (answer : Option (ℕ × ℕ)) (hpc : s.pc t = .idle) :
      Transition s (.allocAligned t size alignment answer) (s.allocAligned t size alignment answer)
  | small {t : Thread} {size : ℕ} {again : Bool} (chaos : Bool) (outcome : CacheOutcome)
      (answer : Option (ℕ × ℕ)) (hpc : s.pc t = .small size again) :
      Transition s (.small t chaos outcome answer) (s.allocateSmall t size again chaos outcome answer)
  | retry {t : Thread} {size : ℕ} {again : Bool} (answer : Option (ℕ × ℕ))
      (hpc : s.pc t = .refused size again) :
      Transition s (.retry t answer) (s.retry t size again answer)
  | popLoad {t : Thread} {size c : ℕ} {again : Bool} (answer : Option (ℕ × ℕ))
      (hpc : s.pc t = .popLoad size c again) :
      Transition s (.popLoad t answer) (s.popWith t size c again (s.poolHead c) answer)
  | popNext {t : Thread} {size c head : ℕ} {again : Bool} (hpc : s.pc t = .popNext size c again head) :
      Transition s (.popNext t) (s.goto t (.popCas size c again head (s.block head).next))
  | popCas {t : Thread} {size c head next : ℕ} {again : Bool} (spurious : Bool)
      (answer : Option (ℕ × ℕ)) (hpc : s.pc t = .popCas size c again head next) :
      Transition s (.popCas t spurious answer) (s.popCas t size c again head next spurious answer)
  | popClear {t : Thread} {size ptr : ℕ} (hpc : s.pc t = .popClear size ptr) :
      Transition s (.popClear t) (s.popClear t size ptr)
  | free {t : Thread} (ptr : ℕ) (outcome : CacheOutcome) (hpc : s.pc t = .idle) :
      Transition s (.free t ptr outcome) (s.free t ptr outcome)
  | pushLoad {t : Thread} {c ptr : ℕ} (hpc : s.pc t = .pushLoad c ptr) :
      Transition s (.pushLoad t) (s.link t c ptr)
  | pushCas {t : Thread} {c ptr head : ℕ} (spurious : Bool) (hpc : s.pc t = .pushCas c ptr head) :
      Transition s (.pushCas t spurious) (s.pushCas t c ptr head spurious)
  | exit {t : Thread} (hpc : s.pc t = .idle) : Transition s (.exit t) (s.exitThread t)
  | write (ptr : ℕ) (contents : FreeBlock) :
      Transition s (.write ptr contents) { s with block := update s.block ptr contents }

theorem transition_of_step {s s' : State Thread} {a : Action Thread} (h : step s a = some s') :
    Transition s a s' := by
  cases a <;> simp only [step] at h
  case write ptr contents =>
    obtain rfl := Option.some.inj h
    exact .write ptr contents
  all_goals
    split at h
    · obtain rfl := Option.some.inj h
      constructor
      assumption
    · simp at h

end LgxRuntime.MemoryManager
