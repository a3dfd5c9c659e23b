import LgxRuntime.Machine
import Mathlib.Logic.Function.Basic

/-!
# The frame arenas

Memory that lives for a frame comes from one of three arenas, which the frames use in turn.  An arena is
a chunk of memory with a bump offset; when it is full it is grown by a fresh chunk of twice the size, and
the old chunk is retired: its pointers stay valid until the arena is reset.  What no arena can serve goes
on to the persistent heap.

Whether the system maps a new chunk, and where, is an input of the model.  Call sites, tags, histograms,
warnings, profiler events and the statistics over all arenas are left out.  So are the magic numbers of
debug builds, which are valid whenever an arena is used.
-/

namespace LgxRuntime.FrameArena

open Function (update)

/-- `FRAME_ARENA_DEFAULT_SIZE`: 64 MB. -/
def frameArenaDefaultSize : ℕ := 64 * 1024 * 1024

/-- `FRAME_ARENA_MIN_SIZE`: 16 MB. -/
def frameArenaMinSize : ℕ := 16 * 1024 * 1024

/-- `FRAME_ARENA_MAX_SIZE`: 256 MB. -/
def frameArenaMaxSize : ℕ := 256 * 1024 * 1024

/-- `FRAME_ARENA_COUNT`. -/
def frameArenaCount : ℕ := 3

/-- `FRAME_ARENA_ALIGNMENT`. -/
def frameArenaAlignment : ℕ := 16

/-- `ROLLING_AVERAGE_WINDOW`. -/
def rollingAverageWindow : ℕ := 60

/-! ## The state -/

/-- `arena_chunk_t`. -/
structure ArenaChunk where
  base : ℕ
  capacity : ℕ
  deriving DecidableEq, Repr

/-- `lgx_frame_arena_t`. -/
structure Arena where
  base : ℕ
  capacity : ℕ
  maxCapacity : ℕ
  offset : ℕ
  frameIndex : ℕ
  allocations : ℕ
  peakUsage : ℕ
  overflowOccurred : Bool
  retiredChunks : List ArenaChunk
  retiredBytes : ℕ
  usageHistory : ℕ → ℕ
  historyIndex : ℕ
  rollingAverage : ℕ
  usageSum : ℕ

/-- `g_frame_arena_state`, once it has been initialized. -/
structure FrameState where
  arenas : ℕ → Arena
  currentFrame : ℕ

/-- The current frame as a `uint32_t`. -/
def FrameState.frameIndex (f : FrameState) : ℕ :=
  f.currentFrame % 2 ^ 32

/-- The arena of the current frame. -/
def FrameState.current (f : FrameState) : ℕ :=
  f.frameIndex % frameArenaCount

/-- The size that `lgx_frame_arena_init` gives the arenas. -/
def arenaSize (configuredArenaSize : ℕ) : ℕ :=
  let size := if configuredArenaSize = 0 then frameArenaDefaultSize else configuredArenaSize
  let size := if size < frameArenaMinSize then frameArenaMinSize else size
  if size > frameArenaMaxSize then frameArenaMaxSize else size

/-- The size that `lgx_frame_arena_init` lets the arenas grow to. -/
def maxSize (configuredArenaSize configuredMaxSize : ℕ) : ℕ :=
  let size := if configuredMaxSize = 0 then frameArenaMaxSize else configuredMaxSize
  let size := if size < arenaSize configuredArenaSize then arenaSize configuredArenaSize else size
  if size > frameArenaMaxSize then frameArenaMaxSize else size

/-- An arena on a chunk at `base`. -/
def newArena (base capacity maxCapacity : ℕ) : Arena :=
  { base := base
    capacity := capacity
    maxCapacity := maxCapacity
    offset := 0
    frameIndex := 0
    allocations := 0
    peakUsage := 0
    overflowOccurred := false
    retiredChunks := []
    retiredBytes := 0
    usageHistory := fun _ => 0
    historyIndex := 0
    rollingAverage := 0
    usageSum := 0 }

/-- `lgx_frame_arena_init`, with the chunks that the system maps; `none` if it does not map all of
them. -/
def lgxFrameArenaInit (configuredArenaSize configuredMaxSize : ℕ) (mappings : ℕ → Option ℕ) :
    Option FrameState :=
  if (List.range frameArenaCount).all fun i => (mappings i).isSome then
    some
      { arenas := fun i => newArena ((mappings i).getD 0) (arenaSize configuredArenaSize)
          (maxSize configuredArenaSize configuredMaxSize)
        currentFrame := 0 }
  else none

/-! ## Allocation -/

/-- A size, rounded up to the alignment in a `size_t`. -/
def alignSize (size : ℕ) : ℕ :=
  wrap64 (size + (frameArenaAlignment - 1)) / frameArenaAlignment * frameArenaAlignment

namespace Arena

/-- Retire the chunk and go on in a new one. -/
def retire (a : Arena) (newBase newCapacity : ℕ) : Arena :=
  { a with
    base := newBase
    capacity := newCapacity
    offset := 0
    retiredChunks := ⟨a.base, a.capacity⟩ :: a.retiredChunks
    retiredBytes := a.retiredBytes + a.offset }

/-- `grow_arena`.  `mapping` is the chunk that the system maps, `nodeOk` whether `malloc` has memory for
the node of the retired chunk. -/
def grow (a : Arena) (newCapacity : ℕ) (mapping : Option ℕ) (nodeOk : Bool) : Bool × Arena :=
  if newCapacity ≤ a.capacity then (false, a)
  else
    let newCapacity := if newCapacity > a.maxCapacity then a.maxCapacity else newCapacity
    if a.capacity ≥ a.maxCapacity then (false, a)
    else
      match mapping with
      | none => (false, a)
      | some newBase =>
          -- an arena without memory has nothing to retire
          if a.base = 0 then
            (true, { a with base := newBase, capacity := newCapacity, offset := 0 })
          else if nodeOk then (true, a.retire newBase newCapacity)
          -- the new chunk is unmapped again
          else (false, a)

/-- The success path of `lgx_frame_alloc_internal`. -/
def serve (a : Arena) (newOffset : ℕ) : Arena :=
  { a with
    offset := newOffset
    allocations := a.allocations + 1
    peakUsage := if a.retiredBytes + newOffset > a.peakUsage then a.retiredBytes + newOffset
      else a.peakUsage }

/-- Record that an allocation did not fit. -/
def markOverflow (a : Arena) : Arena :=
  { a with overflowOccurred := true }

/-- The capacity that `lgx_frame_alloc_internal` asks `grow_arena` for. -/
def grownCapacity (a : Arena) : ℕ :=
  if a.capacity * 2 > a.maxCapacity then a.maxCapacity else a.capacity * 2

end Arena

/-- A pointer into an arena, or a size that is passed on to `lgx_heap_alloc`. -/
inductive FrameResult
  | served (ptr : ℕ)
  | overflow (size : ℕ)

/-- `lgx_frame_alloc_internal` on the arena of the current frame, once the size is aligned. -/
def Arena.alloc (a : Arena) (mapping : Option ℕ) (nodeOk : Bool) (size : ℕ) : FrameResult × Arena :=
  let newOffset := wrap64 (a.offset + size)
  if newOffset > a.capacity then
    let newCapacity := a.grownCapacity
    if newCapacity > a.capacity then
      match a.grow newCapacity mapping nodeOk with
      | (true, a₁) =>
          -- the new chunk is empty, so that the pointer is its base
          if size ≤ a₁.capacity then (.served a₁.base, a₁.serve size)
          else (.overflow size, a₁.markOverflow)
      | (false, a₁) => (.overflow size, a₁.markOverflow)
    else (.overflow size, a.markOverflow)
  else (.served (a.base + a.offset), a.serve newOffset)

/-- `lgx_frame_alloc_internal`, up to the call of `lgx_heap_alloc`. -/
def lgxFrameAllocInternal (f : FrameState) (mapping : Option ℕ) (nodeOk : Bool) (size : ℕ) :
    FrameResult × FrameState :=
  let result := (f.arenas f.current).alloc mapping nodeOk (alignSize size)
  (result.1, { f with arenas := update f.arenas f.current result.2 })

/-! ## Frames -/

/-- `update_rolling_average`. -/
def updateRollingAverage (a : Arena) : Arena :=
  -- the sum loses the entry that is overwritten
  let leaving := a.usageHistory a.historyIndex
  let entering := a.retiredBytes + a.offset
  let usageSum := wrap64 (sub64 a.usageSum leaving + entering)
  { a with
    usageHistory := update a.usageHistory a.historyIndex entering
    historyIndex := (a.historyIndex + 1) % rollingAverageWindow
    usageSum := usageSum
    rollingAverage := usageSum / rollingAverageWindow }

/-- The new frame that `lgx_frame_reset` computes, as a `uint32_t`. -/
def FrameState.nextFrame (f : FrameState) : ℕ :=
  (f.frameIndex + 1) % 2 ^ 32

/-- Free the retired chunks of an arena and start over for a frame. -/
def Arena.reset (a : Arena) (frame : ℕ) : Arena :=
  { a with
    retiredChunks := []
    retiredBytes := 0
    offset := 0
    allocations := 0
    frameIndex := frame
    overflowOccurred := false }

/-- `lgx_frame_reset`. -/
def lgxFrameReset (f : FrameState) : FrameState :=
  -- the arena of the frame that starts, which was in use three frames ago
  let i := f.nextFrame % frameArenaCount
  { arenas := update f.arenas i ((updateRollingAverage (f.arenas i)).reset f.nextFrame)
    currentFrame := wrap64 (f.currentFrame + 1) }

/-- `lgx_frame_get_current_usage`. -/
def lgxFrameGetCurrentUsage (f : FrameState) : ℕ :=
  (f.arenas f.current).offset

/-- The current usage that `lgx_frame_arena_dump_stats` prints for an arena. -/
def Arena.dumpedUsage (a : Arena) : ℕ :=
  wrap64 (a.retiredBytes + a.offset)

/-- Whether an address lies in a chunk. -/
def ArenaChunk.contains (c : ArenaChunk) (ptr : ℕ) : Bool :=
  c.base ≤ ptr ∧ ptr < c.base + c.capacity

/-- `lgx_frame_is_frame_pointer`. -/
def lgxFrameIsFramePointer (f : FrameState) (ptr : ℕ) : Bool :=
  ptr ≠ 0 ∧ (List.range frameArenaCount).any fun i =>
    (f.arenas i).base ≠ 0 ∧
      (ArenaChunk.contains ⟨(f.arenas i).base, (f.arenas i).capacity⟩ ptr ∨
        (f.arenas i).retiredChunks.any fun chunk => chunk.contains ptr)

end LgxRuntime.FrameArena
