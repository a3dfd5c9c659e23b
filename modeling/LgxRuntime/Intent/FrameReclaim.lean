import LgxRuntime.Intent.RoutingRun
import LgxRuntime.PersistentHeap.HeapAccounting

/-!
# What resets give back

A request that a frame arena cannot serve is passed on to the persistent heap.  `lgx_frame_reset` clears an
arena and knows nothing of the heap, so that what the heap has served stays live after every reset: nobody
else is to free it, as frame memory is reset at frame boundaries.

A run of frame allocations may go over several frames.  Which requests the heap serves is decided by the
arena and the heap before the request, and by the answers of the system.
-/

namespace LgxRuntime.Intent

open FrameArena (Arena FrameState FrameResult lgxFrameAllocInternal lgxFrameReset alignSize)
open PersistentHeap (Heap SameCounters lgxHeapAlloc lgxHeapAlloc_counters maxHeapSize maxActiveAllocations
  headerSize)

/-! ## Runs of frame allocations -/

/-- `lgx_frame_alloc`, with the answers of the system, or `lgx_frame_reset`. -/
inductive FrameCall
  | alloc (e : Answers) (size : ℕ)
  | reset

variable {Thread : Type}

namespace Runtime

/-- One call. -/
def frameCall (r : Runtime Thread) : FrameCall → Runtime Thread
  | .alloc e size => (r.frameAlloc e size).2
  | .reset => { r with frame := lgxFrameReset r.frame }

/-- A sequence of calls. -/
def frameCalls (r : Runtime Thread) (calls : List FrameCall) : Runtime Thread :=
  calls.foldl frameCall r

end Runtime

/-- The heap has as many live allocations and bytes as before. -/
structure SameLive (h h' : Heap) : Prop where
  active : h'.numActiveAllocations = h.numActiveAllocations
  current : h'.currentBytesAllocated = h.currentBytesAllocated

/-- After three resets, the heap is as it was before the calls. -/
def Reclaimed (r : Runtime Thread) (calls : List FrameCall) : Prop :=
  SameLive r.heap ((r.frameCalls calls).frameCalls (List.replicate 3 .reset)).heap

/-! ## The requests that the heap serves -/

/-- An arena passes a request on: it is full, and it is at its maximum, the system has no chunk or no node
for it, or the new chunk is too small. -/
def Overflows (a : Arena) (mapping : Option ℕ) (nodeOk : Bool) (size : ℕ) : Prop :=
  a.capacity < wrap64 (a.offset + size) ∧
    (a.grownCapacity ≤ a.capacity ∨ mapping = none ∨ (a.base ≠ 0 ∧ nodeOk = false) ∨
      a.grownCapacity < size)

/-- The heap has room for a request, within its limits. -/
def Grants (h : Heap) (hot : Bool) (slabMemory : Option ℕ) (size : ℕ) : Prop :=
  size ≠ 0 ∧ size ≤ maxHeapSize ∧ h.numActiveAllocations < maxActiveAllocations ∧
    wrap64 (h.currentBytesAllocated + size) ≤ maxHeapSize ∧
      (h.findMemory hot slabMemory (size + headerSize)).1.isSome

/-- The arena passes a request on, and the heap serves it. -/
def Borrows (r : Runtime Thread) (e : Answers) (size : ℕ) : Prop :=
  Overflows (r.frame.arenas r.frame.current) e.mapping e.nodeOk (alignSize size) ∧
    Grants r.heap e.hot e.slabMemory (alignSize size)

/-- A full arena grows to the capacity that it asks for, or stays. -/
theorem grow_cases (a : Arena) (mapping : Option ℕ) (nodeOk : Bool) (hgrow : a.capacity < a.grownCapacity) :
    ((mapping = none ∨ (a.base ≠ 0 ∧ nodeOk = false)) ∧ (a.grow a.grownCapacity mapping nodeOk).1 = false) ∨
      (¬ (mapping = none ∨ (a.base ≠ 0 ∧ nodeOk = false)) ∧
        (a.grow a.grownCapacity mapping nodeOk).1 = true ∧
        (a.grow a.grownCapacity mapping nodeOk).2.capacity = a.grownCapacity) := by
  have hmax := a.grownCapacity_le
  have hcapacity : ¬ a.capacity ≥ a.maxCapacity := by omega
  rw [Arena.grow, if_neg (by omega), if_neg hcapacity, if_neg hmax.not_gt]
  cases mapping with
  | none => exact Or.inl ⟨Or.inl rfl, rfl⟩
  | some newBase =>
      by_cases hbase : a.base = 0
      · simp [hbase]
      · cases nodeOk <;> simp [hbase, Arena.retire]

/-- The requests that an arena passes on. -/
theorem alloc_overflow_iff (a : Arena) (mapping : Option ℕ) (nodeOk : Bool) (size passed : ℕ) :
    (a.alloc mapping nodeOk size).1 = .overflow passed ↔
      passed = size ∧ Overflows a mapping nodeOk size := by
  unfold Arena.alloc
  by_cases hfull : a.capacity < wrap64 (a.offset + size)
  · by_cases hgrow : a.capacity < a.grownCapacity
    · have hcases := grow_cases a mapping nodeOk hgrow
      simp only [if_pos hfull, if_pos hgrow]
      generalize a.grow a.grownCapacity mapping nodeOk = outcome at hcases ⊢
      obtain ⟨grown, a₁⟩ := outcome
      rcases hcases with ⟨hrefused, hgrown⟩ | ⟨haccepted, hgrown, hcapacity⟩
      · obtain rfl : grown = false := hgrown
        have hover : Overflows a mapping nodeOk size :=
          ⟨hfull, hrefused.elim (fun h => Or.inr (Or.inl h)) fun h => Or.inr (Or.inr (Or.inl h))⟩
        simp [hover, eq_comm]
      · obtain rfl : grown = true := hgrown
        replace hcapacity : a₁.capacity = a.grownCapacity := hcapacity
        by_cases hlarge : a.grownCapacity < size
        · have hover : Overflows a mapping nodeOk size := ⟨hfull, Or.inr (Or.inr (Or.inr hlarge))⟩
          have hsmall : ¬ size ≤ a₁.capacity := by omega
          simp [hsmall, hover, eq_comm]
        · have hfits : ¬ Overflows a mapping nodeOk size := by
            rintro ⟨-, hmax | hnone | hnode | hsmall⟩
            · exact absurd hgrow (not_lt.mpr hmax)
            · exact haccepted (Or.inl hnone)
            · exact haccepted (Or.inr hnode)
            · exact hlarge hsmall
          have hroom : size ≤ a₁.capacity := by omega
          simp [hroom, hfits]
    · have hover : Overflows a mapping nodeOk size := ⟨hfull, Or.inl (not_lt.mp hgrow)⟩
      simp [hfull, hgrow, hover, eq_comm]
  · have hfits : ¬ Overflows a mapping nodeOk size := fun h => hfull h.1
    simp [hfull, hfits]

/-- The requests that the heap serves. -/
theorem lgxHeapAlloc_isSome_iff (h : Heap) (hot : Bool) (slabMemory : Option ℕ) (size : ℕ) :
    (lgxHeapAlloc h hot slabMemory size).1.isSome ↔ Grants h hot slabMemory size := by
  unfold lgxHeapAlloc Grants
  by_cases hzero : size = 0
  · simp [hzero]
  by_cases hmax : size > maxHeapSize
  · simp [hzero, hmax]
  by_cases hactive : h.numActiveAllocations ≥ maxActiveAllocations
  · simp [hzero, hmax, hactive]
  by_cases hcurrent : wrap64 (h.currentBytesAllocated + size) > maxHeapSize
  · simp [hzero, hmax, hactive, hcurrent]
  simp only [if_neg hzero, if_neg hmax, if_neg hactive, if_neg hcurrent]
  generalize h.findMemory hot slabMemory (size + headerSize) = outcome
  obtain ⟨_ | ptr, sizeClass, h₁⟩ := outcome
  · simp
  · exact iff_of_true rfl
      ⟨hzero, not_lt.mp hmax, not_le.mp hactive, not_lt.mp hcurrent, rfl⟩

/-! ## What the calls do to the heap -/

namespace SameLive

theorem trans {h h' h'' : Heap} (hfirst : SameLive h h') (hsecond : SameLive h' h'') : SameLive h h'' :=
  ⟨hsecond.active.trans hfirst.active, hsecond.current.trans hfirst.current⟩

end SameLive

variable {r : Runtime Thread} {calls : List FrameCall}

/-- A frame allocation that borrows is counted in the heap, and every other one leaves the heap as it is. -/
theorem frameAlloc_counters (r : Runtime Thread) (e : Answers) (size : ℕ) :
    (Borrows r e size ∧
        (r.frameAlloc e size).2.heap.numActiveAllocations = r.heap.numActiveAllocations + 1) ∨
      (¬ Borrows r e size ∧ SameLive r.heap (r.frameAlloc e size).2.heap) := by
  have hover : ∀ passed, (lgxFrameAllocInternal r.frame e.mapping e.nodeOk size).1 = .overflow passed ↔ _ :=
    alloc_overflow_iff (r.frame.arenas r.frame.current) e.mapping e.nodeOk (alignSize size)
  unfold Runtime.frameAlloc
  generalize lgxFrameAllocInternal r.frame e.mapping e.nodeOk size = outcome at hover ⊢
  obtain ⟨ptr | passed, frame⟩ := outcome
  · refine Or.inr ⟨fun hborrows => ?_, rfl, rfl⟩
    have hserved := (hover (alignSize size)).mpr ⟨rfl, hborrows.1⟩
    cases hserved
  · obtain ⟨rfl, hfull⟩ := (hover passed).mp rfl
    have hgrants := lgxHeapAlloc_isSome_iff r.heap e.hot e.slabMemory (alignSize size)
    rcases lgxHeapAlloc_counters r.heap e.hot e.slabMemory (alignSize size) with
      ⟨hnone, hsame⟩ | ⟨ptr, hsome, hcount⟩
    · refine Or.inr ⟨fun hborrows => ?_, hsame.active, hsame.current⟩
      rw [hnone] at hgrants
      exact absurd (hgrants.mpr hborrows.2) (by simp)
    · rw [hsome] at hgrants
      exact Or.inl ⟨⟨hfull, hgrants.mp rfl⟩, hcount.active⟩

/-- No call gives anything back to the heap. -/
theorem frameCall_active_le (r : Runtime Thread) (call : FrameCall) :
    r.heap.numActiveAllocations ≤ (r.frameCall call).heap.numActiveAllocations := by
  cases call with
  | reset => exact le_rfl
  | alloc e size =>
      rcases frameAlloc_counters r e size with ⟨-, hactive⟩ | ⟨-, hsame⟩
      · exact (Nat.le_succ _).trans_eq hactive.symm
      · exact hsame.active.symm.le

theorem frameCalls_active_le (r : Runtime Thread) (calls : List FrameCall) :
    r.heap.numActiveAllocations ≤ (r.frameCalls calls).heap.numActiveAllocations := by
  induction calls generalizing r with
  | nil => exact le_rfl
  | cons call calls ih => exact (frameCall_active_le r call).trans (ih _)

/-- A request of a run borrows, in the state before it. -/
def BorrowsIn (r : Runtime Thread) (calls : List FrameCall) : Prop :=
  ∃ before e size after, calls = before ++ .alloc e size :: after ∧ Borrows (r.frameCalls before) e size

/-- A run in which no request borrows leaves the heap as it is. -/
theorem sameLive_of_not_borrowsIn (h : ¬ BorrowsIn r calls) : SameLive r.heap (r.frameCalls calls).heap := by
  induction calls generalizing r with
  | nil => exact ⟨rfl, rfl⟩
  | cons call calls ih =>
      have hrest : ¬ BorrowsIn (r.frameCall call) calls := by
        rintro ⟨before, e, size, after, rfl, hborrows⟩
        exact h ⟨call :: before, e, size, after, rfl, hborrows⟩
      refine SameLive.trans ?_ (ih hrest)
      cases call with
      | reset => exact ⟨rfl, rfl⟩
      | alloc e size =>
          rcases frameAlloc_counters r e size with ⟨hborrows, -⟩ | ⟨-, hsame⟩
          · exact absurd ⟨[], e, size, calls, rfl, hborrows⟩ h
          · exact hsame

/-- Resets leave the heap alone. -/
theorem frameCalls_resets (r : Runtime Thread) (k : ℕ) :
    (r.frameCalls (List.replicate k .reset)).heap = r.heap := by
  induction k generalizing r with
  | zero => rfl
  | succ k ih => exact ih _

/-- Whatever the state of the runtime, a run of frame allocations is reclaimed if and only if none of
its requests was passed on to the heap and served there. -/
theorem reclaimed_iff (r : Runtime Thread) (calls : List FrameCall) :
    Reclaimed r calls ↔ ¬ BorrowsIn r calls := by
  constructor
  · rintro hreclaimed ⟨before, e, size, after, rfl, hborrows⟩
    have hactive := hreclaimed.active
    have hbefore := frameCalls_active_le r before
    have hafter := frameCalls_active_le ((r.frameCalls before).frameCall (.alloc e size)) after
    have hborrow : ((r.frameCalls before).frameCall (.alloc e size)).heap.numActiveAllocations =
        (r.frameCalls before).heap.numActiveAllocations + 1 := by
      rcases frameAlloc_counters (r.frameCalls before) e size with ⟨-, hcount⟩ | ⟨hnot, -⟩
      · exact hcount
      · exact absurd hborrows hnot
    rw [frameCalls_resets, Runtime.frameCalls, List.foldl_append] at hactive
    change (((r.frameCalls before).frameCall (.alloc e size)).frameCalls after).heap.numActiveAllocations =
      r.heap.numActiveAllocations at hactive
    omega
  · intro h
    rw [Reclaimed, frameCalls_resets]
    exact sameLive_of_not_borrowsIn h

/-- The first request fills the arena.  The system has no chunk for the second one, so that the heap serves
it; after three resets it is still there. -/
theorem not_reclaimed_after_overflow :
    let calls : List FrameCall := [.alloc freshAnswers 0x4000000, .alloc freshAnswers 65536]
    let heap := ((freshRuntime.frameCalls calls).frameCalls (List.replicate 3 .reset)).heap
    Reachable true ⟨freshRuntime, [], []⟩ ∧
      (freshRuntime.heap.numActiveAllocations, freshRuntime.heap.currentBytesAllocated) = (0, 0) ∧
      (heap.numActiveAllocations, heap.currentBytesAllocated) = (1, 65536) ∧
      ¬ Reclaimed freshRuntime calls := by
  intro calls heap
  have hheap : (heap.numActiveAllocations, heap.currentBytesAllocated) = (1, 65536) := by decide +kernel
  refine ⟨freshRuntime_reachable true, rfl, hheap, fun h => ?_⟩
  have hactive : heap.numActiveAllocations = 0 := h.active
  rw [(Prod.mk.inj hheap).1] at hactive
  cases hactive

end LgxRuntime.Intent
