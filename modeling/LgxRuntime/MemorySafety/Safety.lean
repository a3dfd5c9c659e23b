import LgxRuntime.Machine
import Mathlib.Logic.Function.Basic

/-!
# The safety allocator

`lgx_memory_safety_alloc` puts metadata in front of the bytes of the client and, depending on the
configuration, a canary and a guard area behind them; `lgx_memory_safety_free` checks the canaries, takes
the block off the list of active allocations, and passes it to `free` or puts it into the queue of delayed
frees, which `lgx_memory_safety_advance_frame` works off.  The configuration can change at any time, and
nothing records the one that a block was allocated under.

Both lists are linked through memory.  A load from memory that is not allocated is a fault (`none`), and so
is a store outside the block that `malloc` returned.  The loops are embedded with a bound on their
iterations; a loop that is still running is `none` too.  `malloc`'s answers are arguments.

Log messages, the mutex, the bytes of the client and `mprotect`, which takes no address that is not
page-aligned, are left out.
-/

namespace LgxRuntime.MemorySafety

open Function (update)

/-! ## The state -/

/-- `LGX_CANARY_PREFIX`. -/
def canaryPrefix : ℕ := 0xDEADBEEFCAFEBABE

/-- `LGX_CANARY_SUFFIX`. -/
def canarySuffix : ℕ := 0xFEEDFACEDEADC0DE

/-- `LGX_DELAYED_FRAMES`. -/
def delayedFrames : ℕ := 3

/-- `LGX_MAX_DELAYED_ALLOCS`. -/
def maxDelayedAllocs : ℕ := 10000

/-- `sizeof(lgx_alloc_metadata_t)`. -/
def metadataSize : ℕ := 48

/-- `count--` of a `size_t`. -/
def decrement (count : ℕ) : ℕ :=
  if count = 0 then sizeMax else count - 1

/-- `lgx_memory_safety_config_t`. -/
structure Config where
  guardPagesEnabled : Bool
  canariesEnabled : Bool
  delayedReclamationEnabled : Bool
  trackingEnabled : Bool
  secureWipingEnabled : Bool
  deriving DecidableEq

/-- `lgx_alloc_metadata_t`. -/
structure Metadata where
  canaryPrefix : ℕ
  size : ℕ
  frameAllocated : ℕ
  frameFreed : ℕ
  userPtr : ℕ
  next : Option ℕ
  canarySuffix : ℕ

/-- A block of `malloc` that `lgx_memory_safety_alloc` has laid out, with the canary behind the bytes of
the client if there is one. -/
structure Block where
  metadata : Metadata
  trailing : Option ℕ

/-- `lgx_delayed_free_t`. -/
structure DelayedFree where
  ptr : ℕ
  frameFreed : ℕ
  next : Option ℕ

/-- What happens to a block: `lgx_memory_safety_free` queues it or passes it to `free`, or
`lgx_memory_safety_advance_frame` passes it to `free`; and the frames. -/
inductive Event
  | queued (raw : ℕ)
  | freed (raw : ℕ)
  | reclaimed (raw : ℕ)
  | frame

/-- `lgx_memory_safety_state_t`, the memory behind it, and a log with the latest event first. -/
structure State where
  activeAllocations : Option ℕ
  activeCount : ℕ
  delayedQueue : Option ℕ
  delayedCount : ℕ
  currentFrame : ℕ
  totalAllocations : ℕ
  totalFrees : ℕ
  canaryViolations : ℕ
  doubleFreeAttempts : ℕ
  config : Config
  block : ℕ → Option Block
  node : ℕ → Option DelayedFree
  log : List Event

namespace State

/-- Write the metadata of a block. -/
def setMetadata (s : State) (raw : ℕ) (f : Metadata → Metadata) : State :=
  { s with
    block := update s.block raw ((s.block raw).map fun b => { b with metadata := f b.metadata }) }

end State

/-! ## Allocation -/

/-- `canary_size`. -/
def canarySize (config : Config) : ℕ :=
  if config.canariesEnabled then 8 else 0

/-- `guard_page_size`; `pageSize` is what `sysconf` returns. -/
def guardPageSize (pageSize : ℕ) (config : Config) : ℕ :=
  if config.guardPagesEnabled then pageSize else 0

/-- `total_size`, a sum of machine words. -/
def totalSize (pageSize : ℕ) (config : Config) (size : ℕ) : ℕ :=
  wrap64 (metadataSize + size + canarySize config + guardPageSize pageSize config)

/-- Offset and length of the fields of the metadata. -/
def metadataFields : List (ℕ × ℕ) :=
  [(0, 8), (8, 8), (16, 4), (20, 4), (24, 8), (32, 8), (40, 8)]

/-- Offset and length of what `lgx_memory_safety_alloc` writes: the metadata, the canary behind the bytes
of the client, and the link of `track_allocation`. -/
def allocWrites (config : Config) (size : ℕ) : List (ℕ × ℕ) :=
  metadataFields ++ (if config.canariesEnabled then [(wrap64 (metadataSize + size), 8)] else []) ++
    (if config.trackingEnabled then [(32, 8)] else [])

namespace State

/-- `track_allocation`. -/
def trackAllocation (s : State) (raw : ℕ) : State :=
  if !s.config.trackingEnabled then s
  else
    { s.setMetadata raw fun metadata => { metadata with next := s.activeAllocations } with
      activeAllocations := some raw
      activeCount := wrap64 (s.activeCount + 1)
      totalAllocations := wrap64 (s.totalAllocations + 1) }

/-- `lgx_memory_safety_alloc`, which asks `malloc` for `totalSize` bytes. -/
def alloc (pageSize : ℕ) (s : State) (size : ℕ) (answer : Option ℕ) : Option (Option ℕ × State) :=
  if size = 0 then some (none, s)
  else
    match answer with
    | none => some (none, s)
    | some raw =>
        if ∀ write ∈ allocWrites s.config size,
            write.1 + write.2 ≤ totalSize pageSize s.config size then
          let block : Block :=
            { metadata :=
                { canaryPrefix := canaryPrefix
                  size := size
                  frameAllocated := s.currentFrame
                  frameFreed := 0
                  userPtr := raw + metadataSize
                  next := none
                  canarySuffix := canarySuffix }
              trailing := if s.config.canariesEnabled then some canarySuffix else none }
          some (some (raw + metadataSize),
            { s with block := update s.block raw (some block) }.trackAllocation raw)
        else none

/-! ## Deallocation -/

/-- `check_canaries`.  Behind the bytes of a client whose block has no canary there lies `behind`. -/
def checkCanaries (s : State) (b : Block) (behind : ℕ) : Bool × State :=
  if !s.config.canariesEnabled then (true, s)
  else if b.metadata.canaryPrefix ≠ canaryPrefix then
    (false, { s with canaryViolations := wrap64 (s.canaryViolations + 1) })
  else if b.metadata.canarySuffix ≠ canarySuffix then
    (false, { s with canaryViolations := wrap64 (s.canaryViolations + 1) })
  else if b.trailing.getD behind ≠ canarySuffix then
    (false, { s with canaryViolations := wrap64 (s.canaryViolations + 1) })
  else (true, s)

/-- A load of `*current`: the head of the active allocations, or the link of one of them. -/
def loadActive (s : State) : Option ℕ → Option (Option ℕ)
  | none => some s.activeAllocations
  | some raw => (s.block raw).map fun b => b.metadata.next

/-- A store of `*current`. -/
def storeActive (s : State) : Option ℕ → Option ℕ → State
  | none, link => { s with activeAllocations := link }
  | some raw, link => s.setMetadata raw fun metadata => { metadata with next := link }

/-- The loop of `untrack_allocation`: whether it has found the pointer. -/
def untrackLoop (userPtr : ℕ) : ℕ → Option ℕ → State → Option (Bool × State)
  | 0, _, _ => none
  | fuel + 1, current, s => do
      match ← s.loadActive current with
      | none => some (false, { s with doubleFreeAttempts := wrap64 (s.doubleFreeAttempts + 1) })
      | some raw =>
          let b ← s.block raw
          if b.metadata.userPtr = userPtr then
            let s := s.storeActive current b.metadata.next
            some (true, { s with
              activeCount := decrement s.activeCount
              totalFrees := wrap64 (s.totalFrees + 1) })
          else untrackLoop userPtr fuel (some raw) s

/-- `untrack_allocation`. -/
def untrackAllocation (fuel : ℕ) (s : State) (userPtr : ℕ) : Option (Bool × State) :=
  if !s.config.trackingEnabled then some (true, s) else untrackLoop userPtr fuel none s

/-- `free` of a block. -/
def libcFree (s : State) (raw : ℕ) : State :=
  { s with block := update s.block raw none }

/-- `free` of a node of the queue. -/
def freeNode (s : State) (node : ℕ) : State :=
  { s with node := update s.node node none }

/-- Record an event. -/
def emit (s : State) (e : Event) : State :=
  { s with log := e :: s.log }

/-- Put a block into the queue. -/
def enqueue (s : State) (raw node : ℕ) : State :=
  { s with
    node := update s.node node (some ⟨raw, s.currentFrame, s.delayedQueue⟩)
    delayedQueue := some node
    delayedCount := wrap64 (s.delayedCount + 1) }.emit (.queued raw)

/-- The end of `lgx_memory_safety_free`: `answer` is the node that `malloc` returns. -/
def release (s : State) (raw : ℕ) (answer : Option ℕ) : State :=
  if s.config.delayedReclamationEnabled ∧ s.delayedCount < maxDelayedAllocs then
    match answer with
    | some node => s.enqueue raw node
    | none => (s.libcFree raw).emit (.freed raw)
  else (s.libcFree raw).emit (.freed raw)

/-- `lgx_memory_safety_free`. -/
def free (fuel : ℕ) (s : State) (userPtr behind : ℕ) (answer : Option ℕ) : Option State :=
  if userPtr = 0 then some s
  else do
    let raw := userPtr - metadataSize
    let b ← s.block raw
    match s.checkCanaries b behind with
    | (false, s) => some s
    | (true, s) =>
        match ← s.untrackAllocation fuel userPtr with
        | (false, s) => some s
        | (true, s) =>
            some ((s.setMetadata raw fun metadata =>
              { metadata with frameFreed := s.currentFrame }).release raw answer)

/-! ## Frames -/

/-- A load of `*current`: the head of the queue, or the link of one of its nodes. -/
def loadDelayed (s : State) : Option ℕ → Option (Option ℕ)
  | none => some s.delayedQueue
  | some node => (s.node node).map fun d => d.next

/-- A store of `*current`. -/
def storeDelayed (s : State) : Option ℕ → Option ℕ → State
  | none, link => { s with delayedQueue := link }
  | some node, link =>
      { s with node := update s.node node ((s.node node).map fun d => { d with next := link }) }

/-- Whether enough frames have passed; the difference is one of 32-bit words. -/
def expired (s : State) (d : DelayedFree) : Bool :=
  (s.currentFrame + (2 ^ 32 - d.frameFreed % 2 ^ 32)) % 2 ^ 32 ≥ delayedFrames

/-- The loop of `lgx_memory_safety_advance_frame`. -/
def sweepLoop : ℕ → Option ℕ → State → Option State
  | 0, _, _ => none
  | fuel + 1, current, s => do
      match ← s.loadDelayed current with
      | none => some s
      | some node =>
          let d ← s.node node
          if s.expired d then
            let s := (((s.storeDelayed current d.next).libcFree d.ptr).emit (.reclaimed d.ptr)).freeNode
              node
            sweepLoop fuel current { s with delayedCount := decrement s.delayedCount }
          else sweepLoop fuel (some node) s

/-- `lgx_memory_safety_advance_frame`. -/
def advanceFrame (fuel : ℕ) (s : State) : Option State :=
  let s := { s with currentFrame := (s.currentFrame + 1) % 2 ^ 32 }.emit .frame
  if s.config.delayedReclamationEnabled then sweepLoop fuel none s else some s

/-! ## Configuration, initialization and shutdown -/

/-- `lgx_memory_safety_set_config`. -/
def setConfig (s : State) (config : Config) : State :=
  { s with config := config }

/-- `lgx_memory_safety_init`, which writes log messages only. -/
def init (s : State) : State :=
  s

/-- The loop of `lgx_memory_safety_shutdown`, which frees the nodes of the queue. -/
def shutdownLoop : ℕ → Option ℕ → State → Option State
  | 0, _, _ => none
  | _ + 1, none, s => some s
  | fuel + 1, some node, s => do
      let d ← s.node node
      shutdownLoop fuel d.next (s.freeNode node)

/-- `lgx_memory_safety_shutdown`; the queue and its count stay as they are. -/
def shutdown (fuel : ℕ) (s : State) : Option State :=
  shutdownLoop fuel s.delayedQueue s

end State

end LgxRuntime.MemorySafety
