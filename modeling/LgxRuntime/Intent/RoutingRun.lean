import LgxRuntime.Intent.Routing

/-!
# Runs of the runtime

Every step of a run keeps the allocators apart, so what holds of one call holds of every call in every
run.
-/

namespace LgxRuntime.Intent

open Function (update update_self update_of_ne)
open FrameArena (FrameState FrameResult FrameRep ArenaChunk Separate NoWrap MappingOk frameArenaCount
  frameArenaMaxSize lgxFrameAllocInternal lgxFrameReset lgxFrameArenaInit lgxFrameReset_arenas_of_ne
  le_alignSize alignSize arenaSize)
open PersistentHeap (Heap HeapReachable HeapStep HeapRun Cell BuddyBlock FreshMemory SameMemory
  lgxHeapAlloc lgxHeapFree lgxHeapFree_memory slabSize buddyPoolSize userSpace payloadCells
  persistentHeapInit)

variable {Thread : Type} {r : Run Thread} {e : Answers} {intent : AllocationIntent}

/-! ## Allocation -/

/-- The run after a call of `lgx_frame_alloc_internal`, apart from what it returned. -/
def Run.withFrame (r : Run Thread) (frame : FrameState) : Run Thread :=
  { r with runtime := { r.runtime with frame := frame } }

/-- A run with another heap. -/
def Run.withHeap (r : Run Thread) (heap : Heap) : Run Thread :=
  { r with runtime := { r.runtime with heap := heap } }

/-- What the frame arenas do keeps the invariant, whether they serve the request or not. -/
theorem RunRep.frameAlloc (h : RunRep r) (hanswers : AnswersOk r e) {size : ℕ}
    (hwrap : NoWrap r.runtime.frame size) :
    RunRep (r.withFrame (lgxFrameAllocInternal r.runtime.frame e.mapping e.nodeOk size).2) := by
  -- a chunk is an old one, or the one that was mapped
  have hchunk : ∀ c, (r.withFrame (lgxFrameAllocInternal r.runtime.frame e.mapping e.nodeOk
      size).2).IsChunk c → r.IsChunk c ∨ ∃ base, e.mapping = some base ∧
        c = ⟨base, (r.runtime.frame.arenas r.runtime.frame.current).grownCapacity⟩ := by
    intro c hc
    obtain ⟨i, hi, hmem⟩ := hc
    rcases h.frame.alloc_chunks hmem with hold | hnew
    · exact Or.inl ⟨i, hi, hold⟩
    · exact Or.inr hnew
  refine ⟨h.frame.alloc hanswers.chunk, h.heap, fun c hc => ?_, fun x hx hp => ?_, h.heaps,
    fun x hx hp => ?_, h.sizes, h.apart⟩
  · rcases hchunk c hc with hold | ⟨base, hbase, rfl⟩
    · exact h.outside c hold
    · exact (hanswers.chunk_apart base hbase).1
  · obtain ⟨harena, hholds⟩ := h.frames x hx hp
    exact ⟨harena, h.frame.alloc_holds hwrap hholds⟩
  · obtain ⟨hptr, hout, hapart⟩ := h.handles x hx hp
    refine ⟨hptr, hout, fun c hc => ?_⟩
    rcases hchunk c hc with hold | ⟨base, hbase, rfl⟩
    · exact hapart c hold
    · exact (hanswers.chunk_apart base hbase).2 x hx hp

/-- The heap moves on, and keeps its live allocations; new slabs lie where nobody has memory. -/
theorem RunRep.setHeap (h : RunRep r) {heap : Heap} {heapLive : List (ℕ × ℕ)} {slabMemory : Option ℕ}
    (hreach : HeapReachable ⟨heap, heapLive⟩) (hlive : r.heapLive ⊆ heapLive)
    (hsame : SameMemory r.runtime.heap heap slabMemory)
    (hchunks : ∀ m, slabMemory = some m → ∀ c, r.IsChunk c → Separate c.base c.capacity m slabSize)
    (hhandles : ∀ m, slabMemory = some m → ∀ x ∈ r.live, x.producer = .gpuPool →
      Separate x.ptr gpuAllocationSize m slabSize) :
    RunRep { r.withHeap heap with heapLive := heapLive } := by
  refine ⟨h.frame, hreach, fun c hc => ?_, h.frames, fun x hx hp => hlive (h.heaps x hx hp),
    fun x hx hp => ?_, h.sizes, h.apart⟩
  · exact (h.outside c hc).sameMemory hsame fun m hm => hchunks m hm c hc
  · obtain ⟨hptr, hout, hapart⟩ := h.handles x hx hp
    exact ⟨hptr, hout.sameMemory hsame fun m hm => hhandles m hm x hx hp, hapart⟩

/-- One more live allocation, which the allocator that made it knows, apart from the others. -/
theorem RunRep.cons (h : RunRep r) {x : Allocation}
    (hframe : x.producer = .frameArena →
      x.arena < frameArenaCount ∧ (r.runtime.frame.arenas x.arena).Holds x.ptr x.asked)
    (hheap : x.producer = .persistentHeap → (x.ptr, x.asked) ∈ r.heapLive)
    (hhandle : x.producer = .gpuPool → x.ptr ≠ 0 ∧ OutsideHeap r.runtime.heap x.ptr gpuAllocationSize ∧
      ∀ c, r.IsChunk c → Separate c.base c.capacity x.ptr gpuAllocationSize)
    (hsize : 0 < x.size ∧ x.size ≤ x.asked ∧ x.producer ≠ .memoryManager)
    (hapart : ∀ y ∈ r.live, x.producer ≠ .gpuPool → y.producer ≠ .gpuPool →
      Separate x.ptr x.asked y.ptr y.asked) : RunRep { r with live := x :: r.live } where
  frame := h.frame
  heap := h.heap
  outside := h.outside
  frames := List.forall_mem_cons.mpr ⟨hframe, h.frames⟩
  heaps := List.forall_mem_cons.mpr ⟨hheap, h.heaps⟩
  handles := List.forall_mem_cons.mpr ⟨hhandle, h.handles⟩
  sizes := List.forall_mem_cons.mpr ⟨hsize, h.sizes⟩
  apart := List.pairwise_cons.mpr ⟨hapart, h.apart⟩

/-- A request that goes to the heap. -/
theorem RunRep.heapAlloc (h : RunRep r) (hfresh : ∀ m, e.slabMemory = some m → FreshMemory r.runtime.heap m)
    (hchunks : ∀ m, e.slabMemory = some m → ∀ c, r.IsChunk c → Separate c.base c.capacity m slabSize)
    (hhandles : ∀ m, e.slabMemory = some m → ∀ x ∈ r.live, x.producer = .gpuPool →
      Separate x.ptr gpuAllocationSize m slabSize)
    {size : ℕ} (hpos : 0 < intent.size) (hle : intent.size ≤ size) :
    RunRep (r.allocated intent (r.runtime.heapAlloc e size).1 (r.runtime.heapAlloc e size).2) := by
  obtain ⟨large, slots, free, S, hrep⟩ := h.heap_rep
  have hsame := hrep.alloc_memory e.hot hfresh size
  have hreach : HeapReachable _ := h.heap.step (.alloc _ e.hot e.slabMemory size hfresh)
  unfold Runtime.heapAlloc
  generalize lgxHeapAlloc r.runtime.heap e.hot e.slabMemory size = outcome at hsame hreach ⊢
  obtain ⟨_ | p, heap⟩ := outcome
  · exact h.setHeap hreach (List.Subset.refl _) hsame hchunks hhandles
  · obtain ⟨large', slots', free', S', hrep'⟩ := hreach.rep
    have hnew : (p, size) ∈ (p, size) :: r.heapLive := List.mem_cons_self ..
    have hmoved : RunRep { r.withHeap heap with heapLive := (p, size) :: r.heapLive } :=
      h.setHeap hreach (List.subset_cons_self _ _) hsame hchunks hhandles
    refine hmoved.cons (x := r.allocation intent ⟨.persistentHeap, p, size⟩) (fun hp => by cases hp)
      (fun _ => hnew) (fun hp => by cases hp) ⟨hpos, hle, by simp [Run.allocation]⟩ fun y hy _ hgpu => ?_
    cases hy' : y.producer with
    | frameArena =>
        obtain ⟨c, hc, hlow, hhigh⟩ := h.frame_inside hy hy'
        exact (((hmoved.outside c hc).separate (hrep'.insideMemory hnew)).mono hlow hhigh).symm
    | persistentHeap =>
        have hmem := h.heaps y hy hy'
        have hne : p ≠ y.ptr := by
          intro heq
          have hnodup := (List.nodup_cons.mp hrep'.nodup).1
          exact hnodup (List.mem_map.mpr ⟨_, hmem, heq.symm⟩)
        exact hrep'.ranges_apart hnew (List.mem_cons_of_mem _ hmem) hne
    | gpuPool => exact absurd hy' hgpu
    | memoryManager => exact absurd hy' (h.sizes y hy).2.2

/-- A request that an arena of the current frame serves. -/
theorem RunRep.frameServed (h : RunRep r) (hanswers : AnswersOk r e) {ptr : ℕ}
    (hwrap : NoWrap r.runtime.frame intent.size) (hpos : 0 < intent.size)
    (hserved : (lgxFrameAllocInternal r.runtime.frame e.mapping e.nodeOk intent.size).1 = .served ptr) :
    RunRep (r.allocated intent (some ⟨.frameArena, ptr, alignSize intent.size⟩)
      (r.withFrame (lgxFrameAllocInternal r.runtime.frame e.mapping e.nodeOk
        intent.size).2).runtime) := by
  have hframe := h.frameAlloc hanswers hwrap
  obtain ⟨hholds, hapart⟩ := h.frame.served hanswers.chunk hwrap hserved
  have hcurrent := r.runtime.frame.current_lt
  have hle := le_alignSize hwrap.1
  refine hframe.cons (x := r.allocation intent ⟨.frameArena, ptr, alignSize intent.size⟩)
    (fun _ => ⟨hcurrent, hholds⟩) (fun hp => by cases hp) (fun hp => by cases hp)
    ⟨hpos, hle, by simp [Run.allocation]⟩ fun y hy _ hgpu => ?_
  cases hy' : y.producer with
  | frameArena =>
      obtain ⟨harena, hyholds⟩ := h.frames y hy hy'
      exact hapart _ harena _ _ hyholds
  | persistentHeap =>
      obtain ⟨c, hc, hlow, hhigh⟩ := (hframe.frame.ok _ hcurrent).chunk_of_holds hholds
      have hout := hframe.outside c ⟨_, hcurrent, hc⟩
      exact (hout.separate (h.heap_inside hy hy')).mono hlow hhigh
  | gpuPool => exact absurd hy' hgpu
  | memoryManager => exact absurd hy' (h.sizes y hy).2.2

/-- A request that the GPU pool serves. -/
theorem RunRep.gpuServed (h : RunRep r) (hanswers : AnswersOk r e) {handle : ℕ}
    (hhandle : e.handle = some handle) (hpos : 0 < intent.size) {runtime : Runtime Thread}
    (hframe : runtime.frame = r.runtime.frame) (hheap : runtime.heap = r.runtime.heap) :
    RunRep (r.allocated intent (some ⟨.gpuPool, handle, intent.size⟩) runtime) := by
  obtain ⟨frame, heap, gpuPool, handles, memoryManager⟩ := runtime
  obtain rfl : frame = r.runtime.frame := hframe
  obtain rfl : heap = r.runtime.heap := hheap
  have hother : RunRep ⟨⟨r.runtime.frame, r.runtime.heap, gpuPool, handles, memoryManager⟩, r.live,
      r.heapLive⟩ :=
    ⟨h.frame, h.heap, h.outside, h.frames, h.heaps, h.handles, h.sizes, h.apart⟩
  exact hother.cons (x := r.allocation intent ⟨.gpuPool, handle, intent.size⟩) (fun hp => by cases hp)
    (fun hp => by cases hp) (fun _ => hanswers.handle handle hhandle)
    ⟨hpos, le_rfl, by simp [Run.allocation]⟩ fun _ _ hgpu => absurd rfl hgpu

/-- A runtime that differs in the GPU pool and the memory manager only. -/
theorem RunRep.setOther (h : RunRep r) {runtime : Runtime Thread}
    (hframe : runtime.frame = r.runtime.frame) (hheap : runtime.heap = r.runtime.heap) :
    RunRep ⟨runtime, r.live, r.heapLive⟩ := by
  obtain ⟨frame, heap, gpuPool, handles, memoryManager⟩ := runtime
  obtain rfl : frame = r.runtime.frame := hframe
  obtain rfl : heap = r.runtime.heap := hheap
  exact ⟨h.frame, h.heap, h.outside, h.frames, h.heaps, h.handles, h.sizes, h.apart⟩

/-- What `lgx_gpu_alloc` returns is the handle, and the other allocators are not involved. -/
theorem Runtime.gpuAlloc_cases {runtime runtime' : Runtime Thread} {size : ℕ} {result : Option Grant}
    (hcall : runtime.gpuAlloc e size = some (result, runtime')) :
    runtime'.frame = runtime.frame ∧ runtime'.heap = runtime.heap ∧
      (result = none ∨ ∃ handle, e.handle = some handle ∧ result = some ⟨.gpuPool, handle, size⟩) := by
  unfold Runtime.gpuAlloc at hcall
  cases hpool : runtime.gpuPool with
  | none =>
      rw [hpool] at hcall
      cases hcall
      exact ⟨rfl, rfl, Or.inl rfl⟩
  | some pool =>
      simp only [hpool] at hcall
      generalize GpuPool.gpuAlloc pool e.chaos e.handle.isSome e.realloc size 16 .hostVisible = outcome
        at hcall
      obtain _ | ⟨_ | alloc, pool'⟩ := outcome
      · cases hcall
      · cases hcall
        exact ⟨rfl, rfl, Or.inl rfl⟩
      · cases hhandle : e.handle with
        | none =>
            rw [hhandle] at hcall
            cases hcall
            exact ⟨rfl, rfl, Or.inl rfl⟩
        | some handle =>
            rw [hhandle] at hcall
            cases hcall
            exact ⟨rfl, rfl, Or.inr ⟨handle, rfl, rfl⟩⟩

/-- The slab that the heap may take lies apart from the memory that the others have. -/
theorem RunRep.heapGranted (h : RunRep r) (hanswers : AnswersOk r e) (hpos : 0 < intent.size) :
    RunRep (r.allocated intent (r.runtime.heapAlloc e intent.size).1
      (r.runtime.heapAlloc e intent.size).2) :=
  h.heapAlloc hanswers.slab (fun m hm => (hanswers.slab_apart m hm).1)
    (fun m hm => (hanswers.slab_apart m hm).2.1) hpos le_rfl

/-- A request with the lifetime of a frame, which the heap serves if the arena is full. -/
theorem RunRep.frameGranted (h : RunRep r) (hanswers : AnswersOk r e)
    (hwrap : NoWrap r.runtime.frame intent.size) (hpos : 0 < intent.size) :
    RunRep (r.allocated intent (r.runtime.frameAlloc e intent.size).1
      (r.runtime.frameAlloc e intent.size).2) := by
  have hframe := h.frameAlloc hanswers hwrap
  have hserved := fun ptr => @RunRep.frameServed _ r e intent h hanswers ptr hwrap hpos
  have hover := fun passed => @FrameRep.overflow_eq _ e.mapping e.nodeOk intent.size h.frame passed
  have hchunks := fun i c => @FrameRep.alloc_chunks _ e.mapping e.nodeOk intent.size h.frame i c
  unfold Runtime.frameAlloc
  rcases hresult : lgxFrameAllocInternal r.runtime.frame e.mapping e.nodeOk intent.size
    with ⟨ptr | passed, frame⟩
  · rw [hresult] at hserved
    exact hserved ptr rfl
  · have hcurrent : r.runtime.frame.current = frame.current :=
      congrArg (fun outcome => outcome.2.current) hresult
    rw [hresult] at hframe hover hchunks
    obtain rfl := hover passed rfl
    -- the chunks of the arenas are the old ones, or the new one, which lies apart from the slab
    have hslab : ∀ m, e.slabMemory = some m → ∀ c, (r.withFrame frame).IsChunk c →
        Separate c.base c.capacity m slabSize := by
      intro m hm c hc
      obtain ⟨i, hi, hmem⟩ := hc
      obtain ⟨hold, -, hnew⟩ := hanswers.slab_apart m hm
      rcases hchunks i c hmem with hmem | ⟨base, hbase, rfl⟩
      · exact hold c ⟨i, hi, hmem⟩
      · exact hnew base hbase
    have hrep := @RunRep.heapAlloc _ _ e intent hframe hanswers.slab hslab
      (fun m hm => (hanswers.slab_apart m hm).2.1) _ hpos (le_alignSize hwrap.1)
    simp only [Run.allocated, Run.allocation, hcurrent] at hrep ⊢
    exact hrep

/-- Every call of `lgx_alloc_with_intent` whose arithmetic does not wrap keeps the invariant. -/
theorem RunRep.alloc (h : RunRep r) {haveVulkan : Bool} (hanswers : AnswersOk r e)
    (hnarrow : Narrow haveVulkan r.runtime intent) {result : Option Grant} {runtime : Runtime Thread}
    (hcall : lgxAllocWithIntent haveVulkan r.runtime e intent = some (result, runtime)) :
    RunRep (r.allocated intent result runtime) := by
  unfold lgxAllocWithIntent at hcall
  split at hcall
  · cases hcall
    exact h
  split at hcall
  · cases hcall
    exact h
  rename_i hsize
  have hpos := Nat.pos_of_ne_zero hsize
  split at hcall
  · obtain ⟨hframe, hheap, rfl | ⟨handle, hhandle, rfl⟩⟩ := Runtime.gpuAlloc_cases hcall
    · exact h.setOther hframe hheap
    · exact h.gpuServed hanswers hhandle hpos hframe hheap
  rename_i hgpu
  split at hcall
  · rename_i hlifetime
    have hgranted := h.frameGranted hanswers (hnarrow hgpu hlifetime) hpos
    rw [Option.some.inj hcall] at hgranted
    exact hgranted
  · rw [ite_self] at hcall
    have hgranted := @RunRep.heapGranted _ _ _ intent h hanswers hpos
    rw [Option.some.inj hcall] at hgranted
    exact hgranted

/-! ## The other steps -/

/-- Fewer allocations are live. -/
theorem RunRep.sublist (h : RunRep r) {live : List Allocation} (hsub : live.Sublist r.live) :
    RunRep { r with live := live } :=
  ⟨h.frame, h.heap, h.outside, fun x hx => h.frames x (hsub.subset hx),
    fun x hx => h.heaps x (hsub.subset hx), fun x hx => h.handles x (hsub.subset hx),
    fun x hx => h.sizes x (hsub.subset hx), h.apart.sublist hsub⟩

/-- `lgx_free` of a live allocation. -/
theorem RunRep.free [DecidableEq Thread] (h : RunRep r) {t : Thread}
    {outcome : MemoryManager.State.CacheOutcome} {x : Allocation} (hx : x ∈ r.live)
    {runtime : Runtime Thread} (hcall : lgxFree r.runtime t outcome x.ptr = some runtime) :
    RunRep (r.freed x runtime) := by
  have herase := h.sublist (List.erase_sublist (a := x) (l := r.live))
  unfold lgxFree at hcall
  cases hp : x.producer with
  | frameArena =>
      obtain ⟨hptr, hroute⟩ := h.route hx (by simp [hp])
      rw [if_neg hptr, hroute, hp] at hcall
      cases hcall
      simpa only [Run.freed, hp, reduceCtorEq, if_false] using herase
  | persistentHeap =>
      obtain ⟨hptr, hroute⟩ := h.route hx (by simp [hp])
      rw [if_neg hptr, hroute, hp] at hcall
      obtain ⟨heap, hfree, rfl⟩ := Option.map_eq_some_iff.mp hcall
      have hmem := h.heaps x hx hp
      have hreach := h.heap.step (.free _ _ _ heap hmem hfree)
      have hsame := lgxHeapFree_memory hfree
      simp only [Run.freed, hp, if_true]
      refine ⟨h.frame, hreach, fun c hc => ?_, herase.frames, fun y hy hproducer => ?_,
        fun y hy hproducer => ?_, herase.sizes, herase.apart⟩
      · exact (h.outside c hc).sameMemory hsame (by simp)
      · -- another allocation of the heap has another pointer, as the two lie apart
        have hapart := h.apart_erase hx hy (by simp [hp]) (by simp [hproducer])
        have hpos := h.asked_pos hx
        have hpos' := h.asked_pos (List.mem_of_mem_erase hy)
        refine (List.mem_erase_of_ne fun heq => ?_).mpr (herase.heaps y hy hproducer)
        have hptreq : y.ptr = x.ptr := congrArg Prod.fst heq
        unfold Separate at hapart
        omega
      · obtain ⟨hne, hout, hapart⟩ := herase.handles y hy hproducer
        exact ⟨hne, hout.sameMemory hsame (by simp), hapart⟩
  | gpuPool =>
      rw [if_neg (h.handles x hx hp).1, h.route_handle hx hp] at hcall
      cases hcall
      have hother := @RunRep.setOther _ _ herase
        { r.runtime with memoryManager := r.runtime.memoryManager.free t x.ptr outcome } rfl rfl
      simpa only [Run.freed, hp, reduceCtorEq, if_false] using hother
  | memoryManager => exact absurd hp (h.sizes x hx).2.2

/-- `lgx_frame_reset`: the allocations of the arena that is cleared are no longer live. -/
theorem RunRep.reset (h : RunRep r) : RunRep r.reset := by
  -- a chunk that is left was there before
  have hchunk : ∀ c, r.reset.IsChunk c → r.IsChunk c := by
    intro c hc
    obtain ⟨i, hi, hmem⟩ := hc
    by_cases hcleared : i = r.runtime.frame.nextFrame % frameArenaCount
    · subst hcleared
      refine ⟨_, hi, ?_⟩
      simp only [Run.reset, lgxFrameReset, update_self] at hmem
      exact List.mem_cons.mpr (Or.inl (List.mem_singleton.mp hmem))
    · rw [Run.reset, lgxFrameReset_arenas_of_ne _ hcleared] at hmem
      exact ⟨i, hi, hmem⟩
  have hmem : ∀ x ∈ r.reset.live, x ∈ r.live := fun x hx => List.mem_of_mem_filter hx
  refine ⟨h.frame.reset, h.heap, fun c hc => h.outside c (hchunk c hc), fun x hx hp => ?_,
    fun x hx => h.heaps x (hmem x hx), fun x hx hp => ?_, fun x hx => h.sizes x (hmem x hx),
    h.apart.sublist List.filter_sublist⟩
  · obtain ⟨harena, hholds⟩ := h.frames x (hmem x hx) hp
    have hkept := (List.mem_filter.mp hx).2
    have hother : x.arena ≠ r.runtime.frame.nextFrame % frameArenaCount := by
      simpa [hp] using hkept
    refine ⟨harena, ?_⟩
    rw [Run.reset, lgxFrameReset_arenas_of_ne _ hother]
    exact hholds
  · obtain ⟨hne, hout, hapart⟩ := h.handles x (hmem x hx) hp
    exact ⟨hne, hout, fun c hc => hapart c (hchunk c hc)⟩

/-- One step keeps the invariant. -/
theorem RunRep.step [DecidableEq Thread] {haveVulkan : Bool} {r' : Run Thread} (h : RunRep r)
    (hstep : Step haveVulkan r r') : RunRep r' := by
  cases hstep with
  | alloc intent e result runtime hsize hanswers hnarrow hcall => exact h.alloc hanswers hnarrow hcall
  | free t outcome x hx runtime hcall => exact h.free hx hcall
  | reset => exact h.reset
  | write x hx hheap cells contents hcells hcontents =>
      have hreach := h.heap.step (.write _ _ _ cells contents (h.heaps x hx hheap) hcells hcontents)
      refine @RunRep.setHeap _ r h _ r.heapLive none hreach (List.Subset.refl _) ?_ (by simp) (by simp)
      apply SameMemory.of_eq <;> rfl

/-! ## Runs -/

/-- The states of the runs that start with `lgx_runtime_init`: three chunks for the arenas and a buddy
pool, all apart. -/
inductive Reachable [DecidableEq Thread] (haveVulkan : Bool) : Run Thread → Prop
  | init (configuredArenaSize configuredMaxSize : ℕ) (mappings : ℕ → Option ℕ) (memory : ℕ)
      (contents : ℕ → BuddyBlock) (cells : ℕ → Cell) (runtime : Runtime Thread)
      (hframe : lgxFrameArenaInit configuredArenaSize configuredMaxSize mappings = some runtime.frame)
      (hheap : runtime.heap = persistentHeapInit memory contents cells)
      (hpos : ∀ i < frameArenaCount, mappings i ≠ some 0)
      (hapart : ∀ i < frameArenaCount, ∀ j < frameArenaCount, i ≠ j → ∀ p q, mappings i = some p →
        mappings j = some q → Separate p (arenaSize configuredArenaSize) q (arenaSize configuredArenaSize))
      (hmemory : memory ≠ 0) (huser : memory + buddyPoolSize ≤ userSpace)
      (hpool : ∀ i < frameArenaCount, ∀ p, mappings i = some p →
        Separate p (arenaSize configuredArenaSize) memory buddyPoolSize) :
      Reachable haveVulkan ⟨runtime, [], []⟩
  | step {r r' : Run Thread} (hreach : Reachable haveVulkan r) (hstep : Step haveVulkan r r') :
      Reachable haveVulkan r'

theorem Reachable.rep [DecidableEq Thread] {haveVulkan : Bool} (h : Reachable haveVulkan r) :
    RunRep r := by
  induction h with
  | init configuredArenaSize configuredMaxSize mappings memory contents cells runtime hframe hheap hpos
      hapart hmemory huser hpool =>
      refine ⟨FrameRep.init hframe hpos hapart, ?_, fun c hc => ?_, by simp, by simp, by simp, by simp,
        List.Pairwise.nil⟩
      · rw [hheap]
        exact .init memory contents cells hmemory huser
      · obtain ⟨i, hi, hmem⟩ := hc
        obtain ⟨p, hp, hchunk⟩ := FrameArena.init_chunks hframe hi hmem
        rw [hheap, hchunk]
        exact ⟨hpool i hi p hp, fun c hc slab hslab => by simp [persistentHeapInit] at hslab⟩
  | step _ hstep ih => exact ih.step hstep

/-! ## What a call returns -/

/-- A request whose pointer is memory that `lgx_free` takes back: not one for GPU memory, and none for
a frame arena that wraps. -/
def Supported (haveVulkan : Bool) (runtime : Runtime Thread) (intent : AllocationIntent) : Prop :=
  ¬ (haveVulkan ∧ intent.hint = .gpuShared) ∧
    (intent.lifetime = .frame → NoWrap runtime.frame intent.size)

/-- The allocator that a call picks, apart from the overflow of a frame arena to the heap. -/
theorem lgxAllocWithIntent_cases {haveVulkan : Bool} {runtime runtime' : Runtime Thread} {g : Grant}
    (hcall : lgxAllocWithIntent haveVulkan runtime e intent = some (some g, runtime')) :
    ((haveVulkan ∧ intent.hint = .gpuShared) ∧ g.producer = .gpuPool) ∨
      (¬ (haveVulkan ∧ intent.hint = .gpuShared) ∧ g.producer ≠ .gpuPool ∧
        (intent.lifetime = .frame → (some g, runtime') = runtime.frameAlloc e intent.size)) := by
  have hheap : ∀ (rt : Runtime Thread) size, (rt.heapAlloc e size).1 = some g →
      g.producer ≠ .gpuPool := by
    intro rt size hsome
    obtain ⟨p, -, rfl⟩ := Option.map_eq_some_iff.mp hsome
    simp
  unfold lgxAllocWithIntent at hcall
  split at hcall
  · cases hcall
  split at hcall
  · cases hcall
  split at hcall
  · rename_i hgpu
    obtain ⟨-, -, hnone | ⟨handle, -, hsome⟩⟩ := Runtime.gpuAlloc_cases hcall
    · cases hnone
    · cases hsome
      exact Or.inl ⟨hgpu, rfl⟩
  rename_i hgpu
  refine Or.inr ⟨hgpu, ?_⟩
  split at hcall
  · have hresult := Option.some.inj hcall
    refine ⟨?_, fun _ => hresult.symm⟩
    unfold Runtime.frameAlloc at hresult
    split at hresult
    · cases hresult
      simp
    · exact hheap _ _ (congrArg Prod.fst hresult)
  · rename_i hlifetime
    rw [ite_self] at hcall
    exact ⟨hheap _ _ (congrArg Prod.fst (Option.some.inj hcall)), fun h => absurd h hlifetime⟩

/-- A request for a frame arena that wraps gets less memory than it asked for. -/
theorem RunRep.not_served_of_wrap (h : RunRep r) (hanswers : AnswersOk r e)
    (hsize : intent.size < 2 ^ 64) (hwrap : ¬ NoWrap r.runtime.frame intent.size) {g : Grant}
    {runtime : Runtime Thread} (hcall : (some g, runtime) = r.runtime.frameAlloc e intent.size) :
    ¬ Served (r.allocated intent (some g) runtime) (r.allocation intent g) := by
  intro hserved
  obtain ⟨hresult, hlarge⟩ := @FrameRep.served_of_wrap _ e.mapping e.nodeOk _ h.frame hsize hwrap
  have hframe := @FrameRep.alloc _ _ e.nodeOk intent.size h.frame hanswers.chunk
  unfold Runtime.frameAlloc at hcall
  generalize lgxFrameAllocInternal r.runtime.frame e.mapping e.nodeOk intent.size = outcome
    at hresult hframe hcall
  obtain ⟨result, frame⟩ := outcome
  obtain rfl : result = _ := hresult
  cases hcall
  obtain ⟨c, ⟨i, hi, hc⟩, hlow, hhigh⟩ := hserved.inside
  have hcapacity := ((hframe.ok i hi).chunk_bounds hc).2
  simp only [Run.allocation] at hlow hhigh
  omega

/-- Every live allocation but the handles of the GPU pool is memory that `lgx_free` hands back to its
allocator, and a call returns such an allocation exactly if the request is supported. -/
theorem served_iff_supported [DecidableEq Thread] {haveVulkan : Bool} (hreach : Reachable haveVulkan r) :
    (∀ x ∈ r.live, Served r x ↔ x.producer ≠ .gpuPool) ∧
      ∀ (intent : AllocationIntent) (e : Answers) (g : Grant) (runtime : Runtime Thread),
        intent.size < 2 ^ 64 → AnswersOk r e →
          lgxAllocWithIntent haveVulkan r.runtime e intent = some (some g, runtime) →
            (Served (r.allocated intent (some g) runtime) (r.allocation intent g) ↔
              Supported haveVulkan r.runtime intent) := by
  have h := hreach.rep
  refine ⟨fun x hx => h.served_iff hx, fun intent e g runtime hsize hanswers hcall => ?_⟩
  have hnew : r.allocation intent g ∈ (r.allocated intent (some g) runtime).live :=
    List.mem_cons_self ..
  rcases lgxAllocWithIntent_cases hcall with ⟨hgpu, hproducer⟩ | ⟨hgpu, hproducer, hframe⟩
  · have hrep := h.alloc hanswers (fun hnot => absurd hgpu hnot) hcall
    exact iff_of_false (fun hserved => (hrep.served_iff hnew).mp hserved hproducer) fun hs => hs.1 hgpu
  · by_cases hnarrow : intent.lifetime = .frame → NoWrap r.runtime.frame intent.size
    · have hrep := h.alloc hanswers (fun _ => hnarrow) hcall
      exact iff_of_true ((hrep.served_iff hnew).mpr hproducer) ⟨hgpu, hnarrow⟩
    · refine iff_of_false ?_ fun hs => hnarrow hs.2
      obtain ⟨hlifetime, hwrap⟩ := Classical.not_imp.mp hnarrow
      exact h.not_served_of_wrap hanswers hsize hwrap (hframe hlifetime)

/-- Where the system maps the chunks of the arenas of `freshRuntime`. -/
def freshChunk : ℕ → ℕ
  | 0 => 2 ^ 32
  | 1 => 2 ^ 33
  | _ => 2 ^ 34

/-- A runtime that has just been initialized, on a device with one memory type, which is host-visible. -/
def freshRuntime : Runtime ℕ :=
  { frame :=
      { arenas := fun i => FrameArena.newArena (freshChunk i) (arenaSize 0) (FrameArena.maxSize 0 0)
        currentFrame := 0 }
    heap := persistentHeapInit (2 ^ 30) (fun _ => ⟨none, 0, false⟩) fun _ => ⟨0, 0, 0⟩
    gpuPool := some <| GpuPool.gpuPoolInit
      { memoryTypes := [⟨6, 0⟩], heapSize := fun _ => 2 ^ 30 } (fun h => h * 4 / 5) (fun _ => 1)
      fun _ => some (2 ^ 36)
    handles := fun _ => none
    memoryManager := MemoryManager.init 4 fun _ => ⟨0, 0⟩ }

/-- There is memory for a handle at 1 MB, and none for a chunk or a slab. -/
def freshAnswers : Answers :=
  { mapping := none
    nodeOk := true
    hot := false
    slabMemory := none
    chaos := false
    handle := some (2 ^ 20)
    realloc := fun _ => none }

theorem lt_freshChunk (i : ℕ) : 2 ^ 31 < freshChunk i := by
  unfold freshChunk
  split <;> decide

theorem freshRuntime_reachable (haveVulkan : Bool) : Reachable haveVulkan ⟨freshRuntime, [], []⟩ := by
  refine .init 0 0 (fun i => some (freshChunk i)) (2 ^ 30) _ _ _ rfl rfl ?_ ?_ (by decide)
    (by decide) ?_
  · intro i _ hzero
    have hpos := lt_freshChunk i
    have hchunk : freshChunk i = 0 := Option.some.inj hzero
    omega
  · intro i hi j hj hne p q hp hq
    obtain rfl := Option.some.inj hp
    obtain rfl := Option.some.inj hq
    have hapart : ∀ i < 3, ∀ j < 3, i ≠ j →
        freshChunk i + 2 ^ 26 ≤ freshChunk j ∨ freshChunk j + 2 ^ 26 ≤ freshChunk i := by decide
    exact hapart i hi j hj hne
  · intro i _ p hp
    obtain rfl := Option.some.inj hp
    have hpool : 2 ^ 30 + buddyPoolSize ≤ 2 ^ 31 := by decide
    exact Or.inr (hpool.trans (lt_freshChunk i).le)

theorem freshAnswers_ok : AnswersOk ⟨freshRuntime, [], []⟩ freshAnswers := by
  refine ⟨by simp [MappingOk, freshAnswers], by simp [freshAnswers], by simp [freshAnswers],
    by simp [freshAnswers], fun p hp => ?_⟩
  obtain rfl := Option.some.inj hp
  refine ⟨by decide, ⟨Or.inl (by decide), fun c hc slab hslab => ?_⟩, fun c hc => ?_⟩
  · simp [freshRuntime, persistentHeapInit] at hslab
  · obtain ⟨i, hi, hmem⟩ := hc
    obtain rfl := List.mem_singleton.mp hmem
    have hhandle : 2 ^ 20 + gpuAllocationSize ≤ 2 ^ 31 := by decide
    exact Or.inr (hhandle.trans (lt_freshChunk i).le)

/-- A hundred bytes for a frame. -/
theorem served_frame_request :
    ∃ g runtime, lgxAllocWithIntent true freshRuntime freshAnswers (frameIntent 100) =
        some (some g, runtime) ∧
      Served (Run.allocated ⟨freshRuntime, [], []⟩ (frameIntent 100) (some g) runtime)
        (Run.allocation ⟨freshRuntime, [], []⟩ (frameIntent 100) g) := by
  have hserved := (served_iff_supported (freshRuntime_reachable true)).2 (frameIntent 100) freshAnswers
    ⟨.frameArena, 2 ^ 32, 112⟩ _ (by decide) freshAnswers_ok rfl
  exact ⟨_, _, rfl, hserved.mpr ⟨by simp [frameIntent], fun _ => ⟨by decide, by decide⟩⟩⟩

/-- What comes back for memory that is shared with the GPU is no memory of that size, and is not handed
back to the pool. -/
theorem not_served_gpuShared : ¬ ∀ (r : Run ℕ) (intent : AllocationIntent) (e : Answers) (g : Grant)
    (runtime : Runtime ℕ), Reachable true r → intent.size < 2 ^ 64 → AnswersOk r e →
      lgxAllocWithIntent true r.runtime e intent = some (some g, runtime) →
        Served (r.allocated intent (some g) runtime) (r.allocation intent g) := by
  intro hall
  have hcall : ((lgxAllocWithIntent true freshRuntime freshAnswers (gpuSharedIntent 65536)).map
      fun result => result.1.isSome) = some true := by decide +kernel
  obtain ⟨⟨result, runtime⟩, heq, hsome⟩ := Option.map_eq_some_iff.mp hcall
  obtain ⟨g, rfl⟩ := Option.isSome_iff_exists.mp hsome
  have hserved := hall _ _ _ g runtime (freshRuntime_reachable true) (by decide) freshAnswers_ok heq
  have hrep := (freshRuntime_reachable true).rep.alloc freshAnswers_ok (fun h => absurd (by decide) h) heq
  rcases lgxAllocWithIntent_cases heq with ⟨-, hproducer⟩ | ⟨hgpu, -⟩
  · exact (hrep.served_iff (List.mem_cons_self ..)).mp hserved hproducer
  · exact hgpu (by decide)

end LgxRuntime.Intent
