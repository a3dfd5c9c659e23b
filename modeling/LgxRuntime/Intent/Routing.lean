import LgxRuntime.Intent.Allocator
import LgxRuntime.FrameArena.ArenaInvariant
import LgxRuntime.PersistentHeap.HeapPointers

/-!
# The way in and the way out

A run of the runtime allocates with intents, frees, resets frames and writes.  What an allocation returns
has room for the request, and `lgx_free` finds the allocator again, with two exceptions: the GPU pool
returns a handle, which `lgx_free` takes for a pointer of the memory manager; and a request of nearly
`2 ^ 64` bytes with the lifetime of a frame wraps around.
-/

namespace LgxRuntime.Intent

open Function (update update_self update_of_ne)
open FrameArena (FrameState FrameResult FrameRep ArenaChunk Separate NoWrap MappingOk frameArenaCount
  lgxFrameAllocInternal lgxFrameIsFramePointer lgxFrameReset lgxFrameArenaInit alignSize arenaSize)
open PersistentHeap (Heap HeapReachable HeapStep HeapRun Cell BuddyBlock FreshMemory InsideMemory
  SameMemory lgxHeapAlloc lgxHeapFree lgxHeapIsHeapPointer numSizeClasses slabSize buddyPoolSize
  userSpace payloadCells persistentHeapInit grant)

variable {Thread : Type}

/-! ## Memory outside of the heap -/

/-- The range `[lo, lo + n)` meets neither the buddy pool nor a slab. -/
structure OutsideHeap (h : Heap) (lo n : ℕ) : Prop where
  pool : Separate lo n h.buddy.memory buddyPoolSize
  slabs : ∀ c < numSizeClasses, ∀ slab ∈ (h.sizeClasses c).slabs, Separate lo n slab.memory slabSize

theorem OutsideHeap.separate {h : Heap} {lo n p m : ℕ} (hout : OutsideHeap h lo n)
    (hin : InsideMemory h p m) : Separate lo n p m := by
  rcases hin with ⟨hlow, hhigh⟩ | ⟨c, hc, slab, hslab, hlow, hhigh⟩
  · exact (hout.pool.symm.mono hlow hhigh).symm
  · exact ((hout.slabs c hc slab hslab).symm.mono hlow hhigh).symm

theorem OutsideHeap.sameMemory {h h' : Heap} {slabMemory : Option ℕ} {lo n : ℕ}
    (hout : OutsideHeap h lo n) (hsame : SameMemory h h' slabMemory)
    (hslab : ∀ m, slabMemory = some m → Separate lo n m slabSize) : OutsideHeap h' lo n := by
  refine ⟨hsame.pool ▸ hout.pool, fun c hc slab hmem => ?_⟩
  rcases hsame.slabs c hc slab hmem with ⟨old, hold, heq⟩ | heq
  · exact heq ▸ hout.slabs c hc old hold
  · exact hslab _ heq.symm

/-- `lgx_heap_is_heap_pointer` does not take an address outside of the heap for one of its own. -/
theorem OutsideHeap.isHeapPointer {h : Heap} {p n : ℕ} (hout : OutsideHeap h p n) (hn : 0 < n)
    (htotal : h.buddy.totalSize = buddyPoolSize) : lgxHeapIsHeapPointer h p = false := by
  unfold lgxHeapIsHeapPointer
  split
  · rfl
  have hpool := hout.pool
  rw [if_neg (by rw [htotal]; unfold Separate at hpool; omega)]
  have hnone : ((List.range numSizeClasses).flatMap fun c => (h.sizeClasses c).slabs).find?
      (fun slab => decide (slab.memory ≤ p ∧ p < slab.memory + slabSize)) = none := by
    refine List.find?_eq_none.mpr fun slab hslab => ?_
    obtain ⟨c, hc, hmem⟩ := List.mem_flatMap.mp hslab
    have hapart := hout.slabs c (List.mem_range.mp hc) slab hmem
    unfold Separate at hapart
    simp only [decide_eq_true_eq]
    omega
  rw [hnone]

/-! ## Runs -/

/-- `sizeof(lgx_gpu_allocation_t)`. -/
def gpuAllocationSize : ℕ := 48

/-- An allocation that a client has: what it asked for, and what the allocator was asked for.  One of a
frame arena is valid until the arena is reset. -/
structure Allocation where
  producer : Allocator
  ptr : ℕ
  size : ℕ
  asked : ℕ
  arena : ℕ
  deriving DecidableEq

/-- The runtime together with the live allocations, and those of the heap with the sizes it was asked
for. -/
structure Run (Thread : Type) where
  runtime : Runtime Thread
  live : List Allocation
  heapLive : List (ℕ × ℕ)

namespace Run

/-- The allocation that a call returns. -/
def allocation (r : Run Thread) (intent : AllocationIntent) (g : Grant) : Allocation :=
  ⟨g.producer, g.ptr, intent.size, g.asked, r.runtime.frame.current⟩

/-- The run after a call of `lgx_alloc_with_intent`. -/
def allocated (r : Run Thread) (intent : AllocationIntent) (result : Option Grant)
    (runtime : Runtime Thread) : Run Thread :=
  match result with
  | none => ⟨runtime, r.live, r.heapLive⟩
  | some g =>
      { runtime := runtime
        live := r.allocation intent g :: r.live
        heapLive := if g.producer = .persistentHeap then (g.ptr, g.asked) :: r.heapLive else r.heapLive }

/-- The run after a call of `lgx_free`. -/
def freed (r : Run Thread) (x : Allocation) (runtime : Runtime Thread) : Run Thread :=
  { runtime := runtime
    live := r.live.erase x
    heapLive := if x.producer = .persistentHeap then r.heapLive.erase (x.ptr, x.asked) else r.heapLive }

/-- The run after a call of `lgx_frame_reset`. -/
def reset (r : Run Thread) : Run Thread :=
  { runtime := { r.runtime with frame := lgxFrameReset r.runtime.frame }
    live := r.live.filter fun x =>
      ¬ (x.producer = .frameArena ∧ x.arena = r.runtime.frame.nextFrame % frameArenaCount)
    heapLive := r.heapLive }

/-- The chunks of the frame arenas. -/
def IsChunk (r : Run Thread) (c : ArenaChunk) : Prop :=
  ∃ i < frameArenaCount, c ∈ (r.runtime.frame.arenas i).chunks

end Run

/-- The system hands out memory that nobody has. -/
structure AnswersOk (r : Run Thread) (e : Answers) : Prop where
  chunk : MappingOk r.runtime.frame e.mapping
  chunk_apart : ∀ base, e.mapping = some base →
    OutsideHeap r.runtime.heap base (r.runtime.frame.arenas r.runtime.frame.current).grownCapacity ∧
      ∀ x ∈ r.live, x.producer = .gpuPool →
        Separate base (r.runtime.frame.arenas r.runtime.frame.current).grownCapacity
          x.ptr gpuAllocationSize
  slab : ∀ m, e.slabMemory = some m → FreshMemory r.runtime.heap m
  slab_apart : ∀ m, e.slabMemory = some m →
    (∀ c, r.IsChunk c → Separate c.base c.capacity m slabSize) ∧
      (∀ x ∈ r.live, x.producer = .gpuPool → Separate x.ptr gpuAllocationSize m slabSize) ∧
      ∀ base, e.mapping = some base →
        Separate base (r.runtime.frame.arenas r.runtime.frame.current).grownCapacity m slabSize
  handle : ∀ p, e.handle = some p → p ≠ 0 ∧ OutsideHeap r.runtime.heap p gpuAllocationSize ∧
    ∀ c, r.IsChunk c → Separate c.base c.capacity p gpuAllocationSize

/-- The arithmetic of a request for a frame arena does not wrap. -/
def Narrow (haveVulkan : Bool) (r : Runtime Thread) (intent : AllocationIntent) : Prop :=
  ¬ (haveVulkan ∧ intent.hint = .gpuShared) → intent.lifetime = .frame → NoWrap r.frame intent.size

/-- One step of a run. -/
inductive Step [DecidableEq Thread] (haveVulkan : Bool) (r : Run Thread) : Run Thread → Prop
  | alloc (intent : AllocationIntent) (e : Answers) (result : Option Grant) (runtime : Runtime Thread)
      (hsize : intent.size < 2 ^ 64) (hanswers : AnswersOk r e)
      (hnarrow : Narrow haveVulkan r.runtime intent)
      (hcall : lgxAllocWithIntent haveVulkan r.runtime e intent = some (result, runtime)) :
      Step haveVulkan r (r.allocated intent result runtime)
  | free (t : Thread) (outcome : MemoryManager.State.CacheOutcome) (x : Allocation) (hx : x ∈ r.live)
      (runtime : Runtime Thread) (hcall : lgxFree r.runtime t outcome x.ptr = some runtime) :
      Step haveVulkan r (r.freed x runtime)
  | reset : Step haveVulkan r r.reset
  | write (x : Allocation) (hx : x ∈ r.live) (hheap : x.producer = .persistentHeap)
      (cells : ℕ → Cell) (contents : ℕ → BuddyBlock)
      (hcells : ∀ a ∉ payloadCells x.ptr x.asked, cells a = r.runtime.heap.cells a)
      (hcontents : ∀ a ∉ payloadCells x.ptr x.asked, contents a = r.runtime.heap.buddy.block a) :
      Step haveVulkan r
        { r with
          runtime :=
            { r.runtime with
              heap :=
                { r.runtime.heap with
                  cells := cells
                  buddy := { r.runtime.heap.buddy with block := contents } } } }

/-! ## The invariant -/

/-- The allocators have their memory apart, and each of them knows the live allocations it made. -/
structure RunRep (r : Run Thread) : Prop where
  frame : FrameRep r.runtime.frame
  heap : HeapReachable ⟨r.runtime.heap, r.heapLive⟩
  outside : ∀ c, r.IsChunk c → OutsideHeap r.runtime.heap c.base c.capacity
  frames : ∀ x ∈ r.live, x.producer = .frameArena →
    x.arena < frameArenaCount ∧ (r.runtime.frame.arenas x.arena).Holds x.ptr x.asked
  heaps : ∀ x ∈ r.live, x.producer = .persistentHeap → (x.ptr, x.asked) ∈ r.heapLive
  handles : ∀ x ∈ r.live, x.producer = .gpuPool → x.ptr ≠ 0 ∧
    OutsideHeap r.runtime.heap x.ptr gpuAllocationSize ∧
      ∀ c, r.IsChunk c → Separate c.base c.capacity x.ptr gpuAllocationSize
  sizes : ∀ x ∈ r.live, 0 < x.size ∧ x.size ≤ x.asked ∧ x.producer ≠ .memoryManager
  apart : r.live.Pairwise fun x y => x.producer ≠ .gpuPool → y.producer ≠ .gpuPool →
    Separate x.ptr x.asked y.ptr y.asked

/-- The bytes of an allocation lie in the memory of the allocator that made it. -/
def Inside (r : Run Thread) (x : Allocation) : Prop :=
  match x.producer with
  | .frameArena => ∃ c, r.IsChunk c ∧ c.base ≤ x.ptr ∧ x.ptr + x.size ≤ c.base + c.capacity
  | .persistentHeap => InsideMemory r.runtime.heap x.ptr x.size
  | .gpuPool => x.size ≤ gpuAllocationSize
  | .memoryManager => False

/-- An allocation has room for the request, apart from the other live allocations, and `lgx_free` hands
it back to the allocator that made it. -/
structure Served (r : Run Thread) (x : Allocation) : Prop where
  inside : Inside r x
  apart : ∀ y ∈ r.live.erase x, y.producer ≠ .gpuPool → Separate x.ptr x.size y.ptr y.size
  route : freeRoute r.runtime x.ptr = x.producer

namespace RunRep

variable {r : Run Thread} {x : Allocation}

theorem heap_rep (h : RunRep r) : ∃ large slots free S,
    PersistentHeap.HeapRep r.runtime.heap r.heapLive large slots free S :=
  h.heap.rep

theorem asked_pos (h : RunRep r) (hx : x ∈ r.live) : 0 < x.asked :=
  (h.sizes x hx).1.trans_le (h.sizes x hx).2.1

/-- An allocation of a frame arena lies in one of its chunks. -/
theorem frame_inside (h : RunRep r) (hx : x ∈ r.live) (hproducer : x.producer = .frameArena) :
    ∃ c, r.IsChunk c ∧ c.base ≤ x.ptr ∧ x.ptr + x.asked ≤ c.base + c.capacity := by
  obtain ⟨harena, hholds⟩ := h.frames x hx hproducer
  obtain ⟨c, hc, hlow, hhigh⟩ := (h.frame.ok _ harena).chunk_of_holds hholds
  exact ⟨c, ⟨_, harena, hc⟩, hlow, hhigh⟩

theorem heap_inside (h : RunRep r) (hx : x ∈ r.live) (hproducer : x.producer = .persistentHeap) :
    InsideMemory r.runtime.heap x.ptr x.asked := by
  obtain ⟨large, slots, free, S, hrep⟩ := h.heap_rep
  exact hrep.insideMemory (h.heaps x hx hproducer)

theorem not_isFramePointer (h : RunRep r) {ptr n : ℕ} (hptr : ptr ≠ 0) (hn : 0 < n)
    (hapart : ∀ c, r.IsChunk c → Separate c.base c.capacity ptr n) :
    lgxFrameIsFramePointer r.runtime.frame ptr = false := by
  refine Bool.eq_false_iff.mpr fun htrue => ?_
  obtain ⟨i, hi, c, hc, hlow, hhigh⟩ := (h.frame.isFramePointer_iff hptr).mp htrue
  have := hapart c ⟨i, hi, hc⟩
  unfold Separate at this
  omega

/-- `lgx_free` finds the allocator of an allocation that the GPU pool did not make. -/
theorem route (h : RunRep r) (hx : x ∈ r.live) (hproducer : x.producer ≠ .gpuPool) :
    x.ptr ≠ 0 ∧ freeRoute r.runtime x.ptr = x.producer := by
  have hpos := h.asked_pos hx
  cases hp : x.producer with
  | frameArena =>
      obtain ⟨c, ⟨i, hi, hc⟩, hlow, hhigh⟩ := h.frame_inside hx hp
      have hbase := ((h.frame.ok i hi).chunk_bounds hc).1
      have hptr : x.ptr ≠ 0 := by omega
      refine ⟨hptr, ?_⟩
      rw [freeRoute, if_pos ((h.frame.isFramePointer_iff hptr).mpr ⟨i, hi, c, hc, hlow, by omega⟩)]
  | persistentHeap =>
      obtain ⟨large, slots, free, S, hrep⟩ := h.heap_rep
      have hmem := h.heaps x hx hp
      obtain ⟨a, hptr, -⟩ := hrep.header _ _ hmem
      have hne : x.ptr ≠ 0 := by
        simp only [PersistentHeap.headerSize] at hptr
        omega
      have hin := hrep.insideMemory hmem
      have hframe := h.not_isFramePointer hne hpos fun c hc => (h.outside c hc).separate hin
      refine ⟨hne, ?_⟩
      rw [freeRoute, hframe, hrep.isHeapPointer hmem hpos]
      rfl
  | gpuPool => exact absurd hp hproducer
  | memoryManager => exact absurd hp (h.sizes x hx).2.2

/-- `lgx_free` takes a handle of the GPU pool for a pointer of the memory manager. -/
theorem route_handle (h : RunRep r) (hx : x ∈ r.live) (hproducer : x.producer = .gpuPool) :
    freeRoute r.runtime x.ptr = .memoryManager := by
  obtain ⟨large, slots, free, S, hrep⟩ := h.heap_rep
  obtain ⟨hptr, hout, hchunks⟩ := h.handles x hx hproducer
  rw [freeRoute, h.not_isFramePointer hptr (by decide) hchunks,
    hout.isHeapPointer (by decide) hrep.buddy.rep.pool]
  rfl

theorem apart_erase (h : RunRep r) {y : Allocation} (hx : x ∈ r.live) (hy : y ∈ r.live.erase x)
    (hgpu : x.producer ≠ .gpuPool) (hgpu' : y.producer ≠ .gpuPool) :
    Separate x.ptr x.asked y.ptr y.asked := by
  have hpairwise : (x :: r.live.erase x).Pairwise fun x y => x.producer ≠ .gpuPool →
      y.producer ≠ .gpuPool → Separate x.ptr x.asked y.ptr y.asked :=
    h.apart.perm (List.perm_cons_erase hx) fun hxy hy hx => (hxy hx hy).symm
  exact (List.pairwise_cons.mp hpairwise).1 y hy hgpu hgpu'

/-- A live allocation is served exactly if the GPU pool did not make it. -/
theorem served_iff (h : RunRep r) (hx : x ∈ r.live) : Served r x ↔ x.producer ≠ .gpuPool := by
  constructor
  · intro hserved hp
    have hroute := hserved.route
    rw [h.route_handle hx hp, hp] at hroute
    simp at hroute
  · intro hproducer
    have hsize := (h.sizes x hx).2.1
    refine ⟨?_, fun y hy hgpu => ?_, (h.route hx hproducer).2⟩
    · unfold Inside
      cases hp : x.producer with
      | frameArena =>
          obtain ⟨c, hc, hlow, hhigh⟩ := h.frame_inside hx hp
          exact ⟨c, hc, hlow, by omega⟩
      | persistentHeap => exact (h.heap_inside hx hp).mono hsize
      | gpuPool => exact absurd hp hproducer
      | memoryManager => exact absurd hp (h.sizes x hx).2.2
    · have hapart := h.apart_erase hx hy hproducer hgpu
      have hsize' := (h.sizes y (List.mem_of_mem_erase hy)).2.1
      exact ((hapart.mono le_rfl (by omega)).symm.mono le_rfl (by omega)).symm

end RunRep

end LgxRuntime.Intent
