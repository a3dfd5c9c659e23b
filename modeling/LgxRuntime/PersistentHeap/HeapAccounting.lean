import LgxRuntime.PersistentHeap.HeapPointers
import Mathlib.Algebra.BigOperators.Group.List.Basic
import Mathlib.Order.Bounds.Basic

/-!
# The statistics of the persistent heap

What `lgx_heap_free` subtracts is read from the 32-bit size field of the header.  No pointer is larger
than the buddy pool, so that the field holds the size that was requested, and the counters never go below
zero.

A run is recorded with all the heaps it has gone through, the last one in front.
-/

namespace LgxRuntime.PersistentHeap

/-- A run, with its past. -/
inductive HeapHistory : List Heap → HeapRun → Prop
  | init (memory : ℕ) (contents : ℕ → BuddyBlock) (cells : ℕ → Cell) (hmemory : memory ≠ 0)
      (huser : memory + buddyPoolSize ≤ userSpace) :
      HeapHistory [persistentHeapInit memory contents cells]
        ⟨persistentHeapInit memory contents cells, []⟩
  | step {past : List Heap} {r r' : HeapRun} (hpast : HeapHistory past r) (hstep : HeapStep r r') :
      HeapHistory (r'.heap :: past) r'

theorem HeapHistory.reachable {past : List Heap} {r : HeapRun} (h : HeapHistory past r) :
    HeapReachable r := by
  induction h with
  | init memory contents cells hmemory huser => exact .init memory contents cells hmemory huser
  | step _ hstep ih => exact ih.step hstep

/-- The requested sizes of the live pointers, summed up. -/
def liveBytes (live : List (ℕ × ℕ)) : ℕ :=
  (live.map Prod.snd).sum

/-- The counters of a heap agree with the live pointers and with the past of the run. -/
structure Accounted (past : List Heap) (r : HeapRun) : Prop where
  active : r.heap.numActiveAllocations = r.live.length
  current : r.heap.currentBytesAllocated = liveBytes r.live
  totals : r.heap.totalFrees ≤ r.heap.totalAllocations ∧
    r.heap.totalAllocations - r.heap.totalFrees = r.heap.numActiveAllocations
  peak : IsGreatest { n | ∃ h ∈ past, h.currentBytesAllocated = n } r.heap.peakBytesAllocated
  no_underflow : ∀ p n, (p, n) ∈ r.live → ∃ h', lgxHeapFree r.heap p = some h' ∧
    h'.numActiveAllocations + 1 = r.heap.numActiveAllocations ∧
    h'.currentBytesAllocated + n = r.heap.currentBytesAllocated

/-! ## Counters that a call changes -/

/-- The counters of two heaps are the same. -/
structure SameCounters (h h' : Heap) : Prop where
  allocations : h'.totalAllocations = h.totalAllocations
  frees : h'.totalFrees = h.totalFrees
  active : h'.numActiveAllocations = h.numActiveAllocations
  current : h'.currentBytesAllocated = h.currentBytesAllocated
  peak : h'.peakBytesAllocated = h.peakBytesAllocated

/-- What a successful request of `size` bytes does to the counters. -/
structure CountedAlloc (h h' : Heap) (size : ℕ) : Prop where
  allocations : h'.totalAllocations = h.totalAllocations + 1
  frees : h'.totalFrees = h.totalFrees
  active : h'.numActiveAllocations = h.numActiveAllocations + 1
  active_le : h'.numActiveAllocations ≤ maxActiveAllocations
  current : h'.currentBytesAllocated = wrap64 (h.currentBytesAllocated + size)
  current_le : h'.currentBytesAllocated ≤ maxHeapSize
  peak : h'.peakBytesAllocated = max h.peakBytesAllocated h'.currentBytesAllocated
  size_le : size ≤ maxHeapSize

/-- Finding memory changes no counter. -/
theorem Heap.findMemory_counters (h : Heap) (hot : Bool) (slabMemory : Option ℕ) (totalSize : ℕ) :
    SameCounters h (h.findMemory hot slabMemory totalSize).2.2 := by
  unfold Heap.findMemory
  simp only
  split
  · split <;> exact ⟨rfl, rfl, rfl, rfl, rfl⟩
  · split <;> exact ⟨rfl, rfl, rfl, rfl, rfl⟩

/-- A request fails and leaves the counters alone, or succeeds and is counted. -/
theorem lgxHeapAlloc_counters (h : Heap) (hot : Bool) (slabMemory : Option ℕ) (size : ℕ) :
    (lgxHeapAlloc h hot slabMemory size).1 = none ∧
        SameCounters h (lgxHeapAlloc h hot slabMemory size).2 ∨
      ∃ ptr, (lgxHeapAlloc h hot slabMemory size).1 = some ptr ∧
        CountedAlloc h (lgxHeapAlloc h hot slabMemory size).2 size := by
  unfold lgxHeapAlloc
  split
  · exact Or.inl ⟨rfl, ⟨rfl, rfl, rfl, rfl, rfl⟩⟩
  split
  · exact Or.inl ⟨rfl, ⟨rfl, rfl, rfl, rfl, rfl⟩⟩
  split
  · exact Or.inl ⟨rfl, ⟨rfl, rfl, rfl, rfl, rfl⟩⟩
  split
  · exact Or.inl ⟨rfl, ⟨rfl, rfl, rfl, rfl, rfl⟩⟩
  rename_i hsize hactive hcurrent
  have hsame := h.findMemory_counters hot slabMemory (size + headerSize)
  generalize h.findMemory hot slabMemory (size + headerSize) = outcome at hsame ⊢
  obtain ⟨_ | ptr, sizeClass, h₁⟩ := outcome
  · exact Or.inl ⟨rfl, hsame⟩
  · have hmax : (if wrap64 (h₁.currentBytesAllocated + size) > h₁.peakBytesAllocated then
        wrap64 (h₁.currentBytesAllocated + size) else h₁.peakBytesAllocated) =
          max h.peakBytesAllocated (wrap64 (h₁.currentBytesAllocated + size)) := by
      rw [hsame.peak]
      split <;> omega
    refine Or.inr ⟨ptr + headerSize, rfl, ?_⟩
    constructor
    · exact congrArg (· + 1) hsame.allocations
    · exact hsame.frees
    · exact congrArg (· + 1) hsame.active
    · have hnext : h₁.numActiveAllocations + 1 ≤ maxActiveAllocations := by
        rw [hsame.active]
        omega
      exact hnext
    · have hnext : wrap64 (h₁.currentBytesAllocated + size) = wrap64 (h.currentBytesAllocated + size) := by
        rw [hsame.current]
      exact hnext
    · have hnext : wrap64 (h₁.currentBytesAllocated + size) ≤ maxHeapSize := by
        rw [hsame.current]
        exact not_lt.mp hcurrent
      exact hnext
    · exact hmax
    · exact not_lt.mp hsize

namespace HeapRep

variable {h h' : Heap} {live large : List (ℕ × ℕ)} {slots free : ℕ → List ℕ} {S : Set ℕ} {p n : ℕ}

/-- The size of a live pointer fits into the header. -/
theorem size_lt (hrep : HeapRep h live large slots free S) (hlive : (p, n) ∈ live) : n < 2 ^ 32 := by
  obtain ⟨a, rfl, -⟩ := hrep.header p n hlive
  by_cases hsmall : sizeToClass (n + headerSize) < numSizeClasses
  · have hle := (sizeToClass_lt_iff _).mp hsmall
    simp only [maxSizeClass] at hle
    omega
  · obtain ⟨-, block, -, hptr, hle, hend⟩ := hrep.large_mem hlive (Nat.not_lt.mp hsmall)
    simp only [buddyPoolSize] at hend
    omega

/-- What `lgx_heap_free` of a live pointer does to the counters. -/
theorem free_counters (hrep : HeapRep h live large slots free S) (hlive : (p, n) ∈ live)
    (hfree : lgxHeapFree h p = some h') :
    h'.totalAllocations = h.totalAllocations ∧ h'.totalFrees = h.totalFrees + 1 ∧
      h'.numActiveAllocations = sub64 h.numActiveAllocations 1 ∧
      h'.currentBytesAllocated = sub64 h.currentBytesAllocated n ∧
      h'.peakBytesAllocated = h.peakBytesAllocated := by
  obtain ⟨a, rfl, heq⟩ := hrep.free_eq hlive
  rw [heq, Nat.mod_eq_of_lt (hrep.size_lt hlive)] at hfree
  split at hfree
  · obtain rfl := Option.some.inj hfree
    exact ⟨rfl, rfl, rfl, rfl, rfl⟩
  · obtain ⟨b, -, rfl⟩ := Option.map_eq_some_iff.mp hfree
    exact ⟨rfl, rfl, rfl, rfl, rfl⟩

end HeapRep

/-! ## The tally of a run -/

/-- The counters agree with the live pointers and are bounded. -/
structure Tally (h : Heap) (live : List (ℕ × ℕ)) : Prop where
  active : h.numActiveAllocations = live.length
  active_le : h.numActiveAllocations ≤ maxActiveAllocations
  current : h.currentBytesAllocated = liveBytes live
  current_le : h.currentBytesAllocated ≤ maxHeapSize
  totals : h.totalFrees + h.numActiveAllocations = h.totalAllocations

namespace Tally

variable {h h' : Heap} {live : List (ℕ × ℕ)} {p n : ℕ}

theorem congr (htally : Tally h live) (hsame : SameCounters h h') : Tally h' live := by
  refine ⟨hsame.active ▸ htally.active, hsame.active ▸ htally.active_le,
    hsame.current ▸ htally.current, hsame.current ▸ htally.current_le, ?_⟩
  rw [hsame.frees, hsame.active, hsame.allocations]
  exact htally.totals

/-- A request that succeeds. -/
theorem alloc (htally : Tally h live) {size ptr : ℕ} (hcount : CountedAlloc h h' size) :
    Tally h' ((ptr, size) :: live) := by
  refine ⟨?_, hcount.active_le, ?_, hcount.current_le, ?_⟩
  · rw [hcount.active, htally.active]
    rfl
  · have hcurrent := htally.current_le
    have hsize := hcount.size_le
    simp only [maxHeapSize] at hcurrent hsize
    rw [hcount.current, wrap64_of_lt (by omega), htally.current, liveBytes, liveBytes, List.map_cons,
      List.sum_cons, Nat.add_comm]
  · rw [hcount.frees, hcount.active, hcount.allocations, ← Nat.add_assoc, htally.totals]

theorem liveBytes_erase (hlive : (p, n) ∈ live) : liveBytes (live.erase (p, n)) + n = liveBytes live := by
  have hsum := ((List.perm_cons_erase hlive).map Prod.snd).sum_eq
  rw [List.map_cons, List.sum_cons] at hsum
  rw [liveBytes, liveBytes, hsum, Nat.add_comm]

theorem le_liveBytes (hlive : (p, n) ∈ live) : n ≤ liveBytes live := by
  have hsum := liveBytes_erase hlive
  omega

/-- The counters do not go below zero. -/
theorem sub_eq (htally : Tally h live) (hlive : (p, n) ∈ live) :
    sub64 h.numActiveAllocations 1 + 1 = h.numActiveAllocations ∧
      sub64 h.currentBytesAllocated n + n = h.currentBytesAllocated := by
  have hactive := htally.active_le
  have hpos : 0 < h.numActiveAllocations := by
    rw [htally.active]
    exact List.length_pos_of_mem hlive
  have hcurrent := htally.current_le
  have hle : n ≤ h.currentBytesAllocated := by
    rw [htally.current]
    exact le_liveBytes hlive
  simp only [maxActiveAllocations] at hactive
  simp only [maxHeapSize] at hcurrent
  rw [sub64_of_le (by omega) hpos, sub64_of_le (by omega) hle]
  omega

/-- A live pointer is freed. -/
theorem release (htally : Tally h live) {large : List (ℕ × ℕ)} {slots free : ℕ → List ℕ} {S : Set ℕ}
    (hrep : HeapRep h live large slots free S) (hlive : (p, n) ∈ live)
    (hfree : lgxHeapFree h p = some h') : Tally h' (live.erase (p, n)) := by
  obtain ⟨hallocations, hfrees, hactive, hcurrent, -⟩ := hrep.free_counters hlive hfree
  obtain ⟨hone, hbytes⟩ := htally.sub_eq hlive
  have hlength := List.length_erase_of_mem hlive
  have hsum := liveBytes_erase hlive
  have htotals := htally.totals
  rw [← hactive] at hone
  rw [← hcurrent] at hbytes
  refine ⟨?_, ?_, ?_, ?_, ?_⟩
  · rw [hlength, ← htally.active]
    omega
  · exact le_trans (by omega) htally.active_le
  · rw [htally.current] at hbytes
    omega
  · exact le_trans (by omega) htally.current_le
  · omega

end Tally

/-- The peak goes on to be the greatest of the values that the run has gone through. -/
theorem peak_cons {past : List Heap} {h' : Heap} {peak peak' : ℕ}
    (hpeak : IsGreatest { n | ∃ h ∈ past, h.currentBytesAllocated = n } peak)
    (hmax : peak' = max peak h'.currentBytesAllocated) :
    IsGreatest { n | ∃ h ∈ h' :: past, h.currentBytesAllocated = n } peak' := by
  obtain ⟨⟨h, hmem, heq⟩, hupper⟩ := hpeak
  subst hmax
  constructor
  · rcases le_total h'.currentBytesAllocated peak with hle | hle
    · exact ⟨h, List.mem_cons_of_mem _ hmem, heq.trans (max_eq_left hle).symm⟩
    · exact ⟨h', List.mem_cons_self .., (max_eq_right hle).symm⟩
  · rintro n ⟨g, hg, rfl⟩
    rcases List.mem_cons.mp hg with rfl | hg
    · exact le_max_right ..
    · exact (hupper ⟨g, hg, rfl⟩).trans (le_max_left ..)

/-- The counters of a run, and their peak. -/
theorem HeapHistory.tally {past : List Heap} {r : HeapRun} (h : HeapHistory past r) :
    Tally r.heap r.live ∧ r.heap ∈ past ∧
      IsGreatest { n | ∃ h ∈ past, h.currentBytesAllocated = n } r.heap.peakBytesAllocated := by
  induction h with
  | init memory contents cells hmemory huser =>
      refine ⟨⟨rfl, Nat.zero_le _, rfl, Nat.zero_le _, rfl⟩, List.mem_cons_self ..,
        ⟨_, List.mem_cons_self .., rfl⟩, ?_⟩
      rintro n ⟨h, hmem, rfl⟩
      obtain rfl := List.mem_singleton.mp hmem
      exact le_rfl
  | step hpast hstep ih =>
      obtain ⟨htally, hmem, hpeak⟩ := ih
      obtain ⟨large, slots, free, S, hrep⟩ := hpast.reachable.rep
      have hle := hpeak.2 ⟨_, hmem, rfl⟩
      cases hstep with
      | alloc hot slabMemory size hfresh =>
          rcases lgxHeapAlloc_counters _ hot slabMemory size with ⟨hnone, hsame⟩ | ⟨ptr, hsome, hcount⟩
          · refine ⟨?_, List.mem_cons_self .., peak_cons hpeak ?_⟩
            · rw [hnone, grant]
              exact htally.congr hsame
            · rw [hsame.peak, hsame.current, max_eq_left hle]
          · refine ⟨?_, List.mem_cons_self .., peak_cons hpeak hcount.peak⟩
            rw [hsome, grant]
            exact htally.alloc hcount
      | free ptr size h' hlive hfree =>
          obtain ⟨-, -, -, hcurrent, hsame⟩ := hrep.free_counters hlive hfree
          have hbytes := (htally.sub_eq hlive).2
          refine ⟨htally.release hrep hlive hfree, List.mem_cons_self .., peak_cons hpeak ?_⟩
          rw [hsame, hcurrent, max_eq_left (by omega)]
      | write ptr size cells contents hlive hcells hcontents =>
          refine ⟨htally.congr ⟨rfl, rfl, rfl, rfl, rfl⟩, List.mem_cons_self .., peak_cons hpeak ?_⟩
          exact (max_eq_left hle).symm

/-- In every run the counters say what is live, what has been and what has been the most. -/
theorem accounted_of_history {past : List Heap} {r : HeapRun} (h : HeapHistory past r) :
    Accounted past r := by
  obtain ⟨htally, -, hpeak⟩ := h.tally
  obtain ⟨large, slots, free, S, hrep⟩ := h.reachable.rep
  refine ⟨htally.active, htally.current, ?_, hpeak, fun p n hlive => ?_⟩
  · have htotals := htally.totals
    omega
  · obtain ⟨h', -, -, -, -, hfree, -⟩ := hrep.release hlive
    obtain ⟨-, -, hactive, hcurrent, -⟩ := hrep.free_counters hlive hfree
    refine ⟨h', hfree, ?_⟩
    rw [hactive, hcurrent]
    exact htally.sub_eq hlive

/-- 1000 bytes are requested and freed again. -/
theorem accounted_after_free : ∃ past r, HeapHistory past r ∧ r.live = [] ∧ r.heap.totalFrees = 1 ∧
    r.heap.peakBytesAllocated = 1000 ∧ Accounted past r := by
  have hinit : HeapHistory [newHeap] ⟨newHeap, []⟩ := .init _ _ _ (by decide) (by decide)
  have hfresh : ∀ m, some (2 ^ 21) = some m → FreshMemory newHeap m := by
    intro m hm
    obtain rfl := Option.some.inj hm
    exact freshMemory_newHeap
  have halloc := hinit.step (.alloc _ false (some (2 ^ 21)) 1000 hfresh)
  have hresult : (lgxHeapAlloc newHeap false (some (2 ^ 21)) 1000).1 = some (2 ^ 21 + 24) := by
    decide +kernel
  have hcounts : (lgxHeapFree (lgxHeapAlloc newHeap false (some (2 ^ 21)) 1000).2 (2 ^ 21 + 24)).map
      (fun h => (h.totalFrees, h.peakBytesAllocated)) = some (1, 1000) := by
    decide +kernel
  obtain ⟨h', hfree, hcounts⟩ := Option.map_eq_some_iff.mp hcounts
  obtain ⟨hfrees, hpeak⟩ := Prod.mk.inj hcounts
  simp only [hresult, grant] at halloc
  have hlast := halloc.step (.free _ (2 ^ 21 + 24) 1000 h' (List.mem_cons_self ..) hfree)
  exact ⟨_, _, hlast, by simp, hfrees, hpeak, accounted_of_history hlast⟩

end LgxRuntime.PersistentHeap
