import LgxRuntime.Intent.Allocator
import LgxRuntime.MemoryManager.OwnershipRun
import LgxRuntime.Lib.KeyTable

/-!
# The table of allocations with an intent

`lgx_memory_manager_alloc` and `lgx_memory_manager_free` as one thread runs them, from the call to the
return, with the table that remembers the size and the intent of an allocation.  An entry is made where
the pointer is found: in `lgx_memory_manager_alloc` itself for a block of the hot path and for a large
one, in `allocate_small` or `allocate_medium` otherwise.  `allocate_ultra_fast` calls `allocate_small`
without the intent, and its caller makes the entry.

What is decided outside is part of the call: failures that the chaos mode injects, the answers of
`malloc`, how the creation of a thread cache ends, how often a weak compare-and-swap fails for no reason,
whether the table can grow, and the time.
-/

namespace LgxRuntime.MemoryManager

open Function (update)
open State (CacheOutcome)
open Intent (AllocationIntent)

/-- `MAX_MEDIUM_SIZE`. -/
def maxMediumSize : ℕ := 65536

/-! ## The table -/

/-- `allocation_header_t`. -/
structure AllocationHeader where
  generation : ℕ
  size : ℕ
  sizeClass : ℕ
  magic : ℕ
  intent : AllocationIntent
  allocationTime : ℕ
  userPtr : ℕ

/-- What is decided outside when an entry is made: whether `realloc` succeeds, and the time. -/
structure Tracking where
  grows : Bool
  now : ℕ

/-- The fields of `lgx_memory_manager` that track allocations; `trackedAllocations` lists the entries
below `tracked_count`. -/
structure IntentTable where
  trackedAllocations : List AllocationHeader
  trackedCapacity : ℕ
  generationCounter : ℕ

namespace IntentTable

/-- The table has no room for another entry. -/
def Full (table : IntentTable) : Prop :=
  table.trackedCapacity ≤ table.trackedAllocations.length

instance (table : IntentTable) : Decidable table.Full :=
  inferInstanceAs (Decidable (_ ≤ _))

/-- `track_allocation`.  The class `-1` of a large size becomes the largest `uint32_t`. -/
def trackAllocation (table : IntentTable) (ptr size : ℕ) (intent : Option AllocationIntent)
    (k : Tracking) : IntentTable :=
  match intent with
  | none => table
  | some intent =>
      -- the allocation is not tracked if the table cannot grow
      if table.Full ∧ ¬ k.grows then table
      else
        { trackedAllocations := table.trackedAllocations ++
            [{  generation := table.generationCounter
                size := size
                sizeClass := (getSizeClassIndex size).getD (2 ^ 32 - 1)
                magic := 0xDEADBEEF
                intent := intent
                allocationTime := k.now
                userPtr := ptr }]
          trackedCapacity :=
            if table.Full then table.trackedCapacity * 2 else table.trackedCapacity
          generationCounter := wrap64 (table.generationCounter + 1) }

/-- `untrack_allocation`. -/
def untrackAllocation (table : IntentTable) (ptr : ℕ) : IntentTable :=
  { table with
    trackedAllocations := KeyTable.removeKey AllocationHeader.userPtr ptr table.trackedAllocations }

/-- The table has exactly one entry for each pointer of `requests`, with its size and intent, and no
other entry. -/
def Tracks (table : IntentTable) (requests : ℕ → Option (ℕ × AllocationIntent)) : Prop :=
  KeyTable.Holds AllocationHeader.userPtr (fun entry => (entry.size, entry.intent))
    table.trackedAllocations requests

variable {table : IntentTable} {requests : ℕ → Option (ℕ × AllocationIntent)} {ptr size : ℕ}

/-- An allocation is tracked if it has an intent and the table can grow. -/
theorem Tracks.trackAllocation (h : table.Tracks requests) (intent : Option AllocationIntent)
    {k : Tracking} (hgrows : table.Full → k.grows = true) (hnew : requests ptr = none) :
    (table.trackAllocation ptr size intent k).Tracks
      (update requests ptr (intent.map fun intent => (size, intent))) := by
  cases intent with
  | none =>
      rw [Option.map_none, ← hnew, Function.update_eq_self]
      exact h
  | some intent =>
      have hroom : ¬ (table.Full ∧ ¬ k.grows = true) := fun hfull => hfull.2 (hgrows hfull.1)
      unfold IntentTable.trackAllocation
      simp only [if_neg hroom]
      exact KeyTable.Holds.append h hnew

theorem Tracks.untrackAllocation (h : table.Tracks requests) (ptr : ℕ) :
    (table.untrackAllocation ptr).Tracks (update requests ptr none) :=
  KeyTable.Holds.removeKey h ptr

end IntentTable

/-! ## The manager -/

/-- The memory manager with the table. -/
structure Manager (Thread : Type) where
  state : State Thread
  intents : IntentTable

/-- `lgx_memory_manager_init`. -/
def Manager.init {Thread : Type} (threadPools : ℕ) (contents : ℕ → FreeBlock) : Manager Thread where
  state := MemoryManager.init threadPools contents
  intents := ⟨[], 10000, 1⟩

/-- What is decided outside during a call of `allocate_small`. -/
structure SmallAnswers where
  chaos : Bool
  mediumChaos : Bool
  outcome : CacheOutcome
  malloc : ℕ → Option (ℕ × ℕ)
  spurious : ℕ

/-- What is decided outside during a call of `lgx_memory_manager_alloc`: for the hot path and the
`allocate_small` behind it, for a second `allocate_small` or an `allocate_medium`, and for the `malloc`
of a large request. -/
structure AllocAnswers where
  hot : CacheOutcome
  inner : SmallAnswers
  outer : SmallAnswers
  malloc : ℕ → Option (ℕ × ℕ)
  tracking : Tracking

variable {Thread : Type} [DecidableEq Thread]

namespace State

/-- What `allocate_ultra_fast` takes from the hot path table; `none` if it calls `allocate_small`. -/
def takeHot (s : State Thread) (t : Thread) (size : ℕ) (outcome : CacheOutcome) :
    Option ℕ × State Thread :=
  match getHotPathSizeClass size with
  | none => (none, s)
  | some hotClass =>
      match s.getThreadCache t outcome with
      | (none, s₁) => (none, s₁)
      | (some cache, s₁) =>
          let slotIdx := cache.hotPath.nextFree hotClass % 2 ^ 32
          let s₂ := s₁.setCache t (some { cache with
            hotPath := { cache.hotPath with
              nextFree := update cache.hotPath.nextFree hotClass
                (cache.hotPath.nextFree hotClass + 1) } })
          if slotIdx ≥ hotPathCacheSize then (none, s₂)
          else ((cache.hotPath.preallocatedBlocks hotClass)[slotIdx]?, s₂)

/-- `lgx_lockfree_pop`, with nobody else at the pool: a compare-and-swap that fails has failed for no
reason, and is tried again with the same head. -/
def lockfreePop (s : State Thread) (c : ℕ) : ℕ → Option ℕ × State Thread
  | 0 =>
      if s.poolHead c = 0 then (none, s)
      else
        (some (s.poolHead c),
          { s with
            poolHead := update s.poolHead c (s.block (s.poolHead c)).next
            block := update s.block (s.poolHead c) { s.block (s.poolHead c) with next := 0 } })
  | spurious + 1 => if s.poolHead c = 0 then (none, s) else s.lockfreePop c spurious

/-- The loop of `lgx_lockfree_push`, with nobody else at the pool. -/
def pushLoop (s : State Thread) (t : Thread) (c ptr : ℕ) : ℕ → State Thread
  | 0 => s.pushCas t c ptr (s.poolHead c) false
  | spurious + 1 => (s.pushCas t c ptr (s.poolHead c) true).pushLoop t c ptr spurious

/-- `lgx_lockfree_push`, if thread `t` has called it. -/
def lockfreePush (s : State Thread) (t : Thread) (spurious : ℕ) : State Thread :=
  match s.pc t with
  | .pushLoad c ptr => (s.link t c ptr).pushLoop t c ptr spurious
  | _ => s

end State

namespace Manager

/-- `malloc`. -/
def malloc (m : Manager Thread) (t : Thread) (answer : Option (ℕ × ℕ)) : Option ℕ × Manager Thread :=
  match answer with
  | none => (none, m)
  | some (ptr, usable) => (some ptr, { m with state := m.state.emit (.acquired t ptr usable) })

/-- Make an entry for the pointer that is returned, if there is one. -/
def track (result : Option ℕ × Manager Thread) (size : ℕ) (intent : Option AllocationIntent)
    (k : Tracking) : Option ℕ × Manager Thread :=
  match result with
  | (none, m) => (none, m)
  | (some ptr, m) => (some ptr, { m with intents := m.intents.trackAllocation ptr size intent k })

/-- Pass a request on to `malloc`, unless the chaos mode injects a failure. -/
def allocateDirect (m : Manager Thread) (t : Thread) (size : ℕ) (intent : Option AllocationIntent)
    (chaos : Bool) (answer : Option (ℕ × ℕ)) (k : Tracking) : Option ℕ × Manager Thread :=
  if chaos then (none, m) else track (m.malloc t answer) size intent k

/-- `allocate_medium`. -/
def allocateMedium (m : Manager Thread) (t : Thread) (size : ℕ) (intent : Option AllocationIntent)
    (a : SmallAnswers) (k : Tracking) : Option ℕ × Manager Thread :=
  m.allocateDirect t size intent a.mediumChaos (a.malloc size) k

/-- `allocate_large`. -/
def allocateLarge (m : Manager Thread) (t : Thread) (size : ℕ) (intent : Option AllocationIntent)
    (a : SmallAnswers) (k : Tracking) : Option ℕ × Manager Thread :=
  m.allocateDirect t size intent a.mediumChaos (a.malloc size) k

/-- `allocate_small`. -/
def allocateSmall (m : Manager Thread) (t : Thread) (size : ℕ) (intent : Option AllocationIntent)
    (a : SmallAnswers) (k : Tracking) : Option ℕ × Manager Thread :=
  if a.chaos then (none, m)
  else
    match getSizeClassIndex size with
    | none => m.allocateMedium t size intent a k
    | some c =>
        match m.state.getThreadCache t a.outcome with
        | (none, s₁) => track ({ m with state := s₁ }.malloc t (a.malloc size)) size intent k
        | (some cache, s₁) =>
            match cache.slots c with
            | ptr :: rest =>
                track (some ptr, { m with
                  state := s₁.setCache t (some { cache with slots := update cache.slots c rest }) })
                  size intent k
            | [] =>
                match s₁.lockfreePop c a.spurious with
                | (some ptr, s₂) => track (some ptr, { m with state := s₂ }) size intent k
                | (none, s₂) =>
                    track ({ m with state := s₂ }.malloc t (a.malloc (classSize c))) size intent k

/-- `allocate_ultra_fast`. -/
def allocateUltraFast (m : Manager Thread) (t : Thread) (size : ℕ) (a : AllocAnswers) :
    Option ℕ × Manager Thread :=
  match m.state.takeHot t size a.hot with
  | (some ptr, s₁) => (some ptr, { m with state := s₁ })
  -- without the intent
  | (none, s₁) => { m with state := s₁ }.allocateSmall t size none a.inner a.tracking

/-- `lgx_memory_manager_alloc`. -/
def alloc (m : Manager Thread) (t : Thread) (size : ℕ) (intent : Option AllocationIntent)
    (a : AllocAnswers) : Option ℕ × Manager Thread :=
  if size = 0 then (none, m)
  else if size ≤ maxHotSize then
    match m.allocateUltraFast t size a with
    | (some ptr, m₁) => track (some ptr, m₁) size intent a.tracking
    | (none, m₁) =>
        if size ≤ maxSmallSize then m₁.allocateSmall t size intent a.outer a.tracking
        else if size ≤ maxMediumSize then m₁.allocateMedium t size intent a.outer a.tracking
        else m₁.allocateLarge t size intent a.outer a.tracking
  else track (m.malloc t (a.malloc size)) size intent a.tracking

/-- `lgx_memory_manager_free`. -/
def free (m : Manager Thread) (t : Thread) (ptr : ℕ) (outcome : CacheOutcome) (spurious : ℕ) :
    Manager Thread where
  state := (m.state.free t ptr outcome).lockfreePush t spurious
  intents := m.intents.untrackAllocation ptr

/-! ## What a call does to the table -/

/-- The table of `m` after a call that returned `ptr` for a request of `size` bytes. -/
def trackedFor (m : Manager Thread) (ptr : Option ℕ) (size : ℕ) (intent : Option AllocationIntent)
    (k : Tracking) : IntentTable :=
  ptr.elim m.intents fun ptr => m.intents.trackAllocation ptr size intent k

section

variable (m : Manager Thread) (result : Option ℕ × Manager Thread) (t : Thread) (size : ℕ)
variable (intent : Option AllocationIntent) (k : Tracking) (answer : Option (ℕ × ℕ))

omit [DecidableEq Thread] in
@[simp]
theorem track_fst : (track result size intent k).1 = result.1 := by
  obtain ⟨found, m₁⟩ := result
  cases found <;> rfl

omit [DecidableEq Thread] in
@[simp]
theorem track_state : (track result size intent k).2.state = result.2.state := by
  obtain ⟨found, m₁⟩ := result
  cases found <;> rfl

omit [DecidableEq Thread] in
theorem track_intents :
    (track result size intent k).2.intents = result.2.trackedFor result.1 size intent k := by
  obtain ⟨found, m₁⟩ := result
  cases found <;> rfl

omit [DecidableEq Thread] in
theorem track_malloc_intents : (track (m.malloc t answer) size intent k).2.intents =
    m.trackedFor (m.malloc t answer).1 size intent k := by
  rw [track_intents]
  cases answer <;> rfl

omit [DecidableEq Thread] in
theorem trackedFor_none (ptr : Option ℕ) : m.trackedFor ptr size none k = m.intents := by
  cases ptr <;> rfl

omit [DecidableEq Thread] in
theorem allocateDirect_intents (chaos : Bool) :
    (m.allocateDirect t size intent chaos answer k).2.intents =
      m.trackedFor (m.allocateDirect t size intent chaos answer k).1 size intent k := by
  unfold allocateDirect
  split
  · rfl
  · rw [track_malloc_intents, track_fst]

theorem allocateSmall_intents (a : SmallAnswers) :
    (m.allocateSmall t size intent a k).2.intents =
      m.trackedFor (m.allocateSmall t size intent a k).1 size intent k := by
  unfold allocateSmall
  split
  · rfl
  split
  · exact m.allocateDirect_intents t size intent k _ _
  split
  · rw [track_malloc_intents, track_fst]
    rfl
  split
  · rfl
  split
  · rfl
  · rw [track_malloc_intents, track_fst]
    rfl

/-- The hot path makes no entry. -/
theorem allocateUltraFast_intents (a : AllocAnswers) :
    (m.allocateUltraFast t size a).2.intents = m.intents := by
  unfold allocateUltraFast
  split
  · rfl
  · rw [allocateSmall_intents, trackedFor_none]

/-- Whichever path serves a request, an entry is made once, with the intent of the call. -/
theorem alloc_intents (a : AllocAnswers) : (m.alloc t size intent a).2.intents =
    m.trackedFor (m.alloc t size intent a).1 size intent a.tracking := by
  have hultra := m.allocateUltraFast_intents t size a
  unfold alloc
  split
  · rfl
  split
  · generalize m.allocateUltraFast t size a = result at hultra ⊢
    obtain ⟨found, m₁⟩ := result
    cases found with
    | some ptr =>
        rw [track_intents, track_fst, trackedFor, hultra]
        rfl
    | none =>
        simp only
        split
        · rw [allocateSmall_intents, trackedFor, hultra]
          rfl
        split
        · rw [allocateMedium, allocateDirect_intents, trackedFor, hultra]
          rfl
        · rw [allocateLarge, allocateDirect_intents, trackedFor, hultra]
          rfl
  · rw [track_malloc_intents, track_fst]

end

end Manager

end LgxRuntime.MemoryManager
