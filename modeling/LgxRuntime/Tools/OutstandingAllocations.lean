import LgxRuntime.Tools.MemTracker
import Mathlib.Algebra.BigOperators.Group.List.Basic
import Mathlib.Algebra.Order.Ring.Nat
import Mathlib.Data.List.Induction
import Mathlib.Data.Multiset.AddSub
import Mathlib.Order.Bounds.Basic

/-!
# The outstanding allocations

An allocation that is recorded is outstanding until it is freed.  What is outstanding is told from the calls
alone, without the table: a free ends one of the outstanding allocations with its pointer.  The tracker
reports the outstanding allocations, each of them once.  The bytes that it counts are a `size_t`, so that they
are those of the active records exactly if these have fewer than 2^64 bytes in all.
-/

namespace LgxRuntime.Tools

open LgxRuntime.Runtime (LgxResult)

/-- The calls that change a tracker. -/
inductive TrackerCall
  | recordAlloc (ptr : ℕ) (size : UInt64) (tag : Option CString)
  | recordFree (ptr : ℕ)

/-- The result of a call, and the tracker after it. -/
def TrackerCall.run : TrackerCall → MemTracker → LgxResult × MemTracker
  | .recordAlloc ptr size tag, t => t.recordAlloc ptr size tag
  | .recordFree ptr, t => t.recordFree ptr

/-- The tracker after some calls. -/
def MemTracker.runAll (t : MemTracker) (calls : List TrackerCall) : MemTracker :=
  calls.foldl (fun t call => (call.run t).2) t

/-- After the calls, `recorded` allocations have been recorded in a table of `maxRecords` slots, and these are
outstanding. -/
inductive Outstanding (maxRecords : ℕ) : List TrackerCall → ℕ → Multiset LeakInfo → Prop
  | nil : Outstanding maxRecords [] 0 0
  | alloc {calls recorded leaks} (ptr : ℕ) (size : UInt64) (tag : Option CString) :
      Outstanding maxRecords calls recorded leaks → ptr ≠ 0 → leaks.card < maxRecords →
      Outstanding maxRecords (calls ++ [.recordAlloc ptr size tag]) (recorded + 1)
        (⟨ptr, size, storedTag tag, .ofNat (recorded + 1)⟩ ::ₘ leaks)
  | allocRejected {calls recorded leaks} (ptr : ℕ) (size : UInt64) (tag : Option CString) :
      Outstanding maxRecords calls recorded leaks → ptr = 0 ∨ leaks.card = maxRecords →
      Outstanding maxRecords (calls ++ [.recordAlloc ptr size tag]) recorded leaks
  | free {calls recorded leaks} (ptr : ℕ) (leak : LeakInfo) :
      Outstanding maxRecords calls recorded (leak ::ₘ leaks) → ptr ≠ 0 → leak.ptr = ptr →
      Outstanding maxRecords (calls ++ [.recordFree ptr]) recorded leaks
  | freeRejected {calls recorded leaks} (ptr : ℕ) :
      Outstanding maxRecords calls recorded leaks → (ptr = 0 ∨ ∀ leak ∈ leaks, leak.ptr ≠ ptr) →
      Outstanding maxRecords (calls ++ [.recordFree ptr]) recorded leaks

/-- The sizes of some records, added up. -/
def totalSize (records : List AllocRecord) : ℕ :=
  (records.map fun r => r.size.toNat).sum

/-- The numbers of active bytes that the tracker has reported, from its creation on. -/
def reachedBytes (t : MemTracker) (calls : List TrackerCall) : Set ℕ :=
  {n | ∃ before, before <+: calls ∧ n = (t.runAll before).getActiveBytes.toNat}

/-- The active records have never had 2^64 bytes or more. -/
def NeverWraps (t : MemTracker) (calls : List TrackerCall) : Prop :=
  ∀ before, before <+: calls → totalSize (t.runAll before).active < 2 ^ 64

/-- What is promised of a tracker `t` after some calls on the new tracker `new`. -/
structure Accounted (new t : MemTracker) (calls : List TrackerCall) : Prop where
  activeBytes : t.getActiveBytes = .ofNat (totalSize t.active)
  activeBytes_eq_iff : t.getActiveBytes.toNat = totalSize t.active ↔ totalSize t.active < 2 ^ 64
  peakBytes : NeverWraps new calls → IsGreatest (reachedBytes new calls) t.getPeakBytes.toNat
  rejected : ∀ call : TrackerCall, (call.run t).1 ≠ .success → (call.run t).2 = t
  leaks : ∃ recorded, ∀ maxCount : ℤ, (t.active.length : ℤ) ≤ maxCount →
    Outstanding new.maxRecords.toNat calls recorded (t.findLeaks maxCount)

variable {t t' : MemTracker} {r : AllocRecord} {calls : List TrackerCall} {call : TrackerCall}

theorem runAll_concat (t : MemTracker) (calls : List TrackerCall) (call : TrackerCall) :
    t.runAll (calls ++ [call]) = (call.run (t.runAll calls)).2 := by
  rw [MemTracker.runAll, List.foldl_append]
  rfl

theorem totalSize_cons (r : AllocRecord) (records : List AllocRecord) :
    totalSize (r :: records) = r.size.toNat + totalSize records := by
  rw [totalSize, List.map_cons, List.sum_cons]
  rfl

theorem totalSize_perm {records records' : List AllocRecord} (h : records.Perm records') :
    totalSize records = totalSize records' :=
  (h.map _).sum_eq

/-! ## The tracker and the calls -/

/-- The tracker has been told of the calls. -/
structure Tracks (maxRecords : UInt32) (t : MemTracker) (calls : List TrackerCall) (recorded : ℕ) : Prop where
  outstanding : Outstanding maxRecords.toNat calls recorded (t.active.map AllocRecord.leakInfo)
  maxRecords : t.maxRecords = maxRecords
  totalAllocs : t.totalAllocs = .ofNat recorded
  activeBytes : t.activeBytes = .ofNat (totalSize t.active)

variable {maxRecords : UInt32} {recorded : ℕ}

theorem tracks_create (maxAllocations : UInt32) :
    Tracks (MemTracker.create maxAllocations).maxRecords (.create maxAllocations) [] 0 := by
  refine ⟨?_, rfl, rfl, ?_⟩
  · rw [MemTracker.active_create]
    exact Outstanding.nil
  · rw [MemTracker.active_create]
    rfl

theorem truncate_storedTag (tag : Option CString) : (storedTag tag).truncate 31 = storedTag tag := by
  cases tag with
  | none => rfl
  | some tag =>
      rw [CString.ext_iff]
      exact List.take_take.trans (by rw [Nat.min_self]; rfl)

theorem Tracks.recordAlloc {ptr : ℕ} {size : UInt64} {tag : Option CString}
    (h : Tracks maxRecords t calls recorded) :
    ∃ recorded', Tracks maxRecords (t.recordAlloc ptr size tag).2 (calls ++ [.recordAlloc ptr size tag])
      recorded' := by
  obtain ⟨hptr, hroom, t', hrun, halloc⟩ | ⟨hrejected, hrun⟩ := t.recordAlloc_cases ptr size tag
  · rw [hrun]
    refine ⟨recorded + 1, ?_, halloc.maxRecords.trans h.maxRecords, ?_, ?_⟩
    · have hnext := h.outstanding.alloc ptr size tag hptr (by simpa [h.maxRecords] using hroom)
      have hid : t.totalAllocs + 1 = .ofNat (recorded + 1) := by
        rw [UInt64.ofNat_add, h.totalAllocs]
        rfl
      have hleaks := Multiset.coe_eq_coe.mpr (halloc.active.map AllocRecord.leakInfo)
      rw [hleaks, List.map_cons, AllocRecord.leakInfo, truncate_storedTag, hid]
      exact hnext
    · rw [halloc.totalAllocs, h.totalAllocs, UInt64.ofNat_add]
      rfl
    · rw [halloc.activeBytes, h.activeBytes, totalSize_perm halloc.active, totalSize_cons, Nat.add_comm,
        UInt64.ofNat_add, UInt64.ofNat_toNat]
  · rw [hrun]
    refine ⟨recorded, h.outstanding.allocRejected ptr size tag ?_, h.maxRecords, h.totalAllocs, h.activeBytes⟩
    simpa [h.maxRecords] using hrejected

theorem Tracks.recordFree {ptr : ℕ} (h : Tracks maxRecords t calls recorded) :
    Tracks maxRecords (t.recordFree ptr).2 (calls ++ [.recordFree ptr]) recorded := by
  obtain ⟨hptr, r, t', hr, hrun, hfree⟩ | ⟨hrejected, hrun⟩ := t.recordFree_cases ptr
  · rw [hrun]
    refine ⟨?_, hfree.maxRecords.trans h.maxRecords, hfree.totalAllocs.trans h.totalAllocs, ?_⟩
    · have hleaks := Multiset.coe_eq_coe.mpr (hfree.active.map AllocRecord.leakInfo)
      have hbefore := h.outstanding
      rw [hleaks, List.map_cons] at hbefore
      exact Outstanding.free ptr r.leakInfo hbefore hptr hr
    · rw [hfree.activeBytes, h.activeBytes, totalSize_perm hfree.active, totalSize_cons, UInt64.ofNat_add,
        UInt64.ofNat_toNat, UInt64.add_comm, UInt64.add_sub_cancel]
  · rw [hrun]
    refine ⟨h.outstanding.freeRejected ptr ?_, h.maxRecords, h.totalAllocs, h.activeBytes⟩
    simpa [AllocRecord.leakInfo] using hrejected

/-- The tracker is told of one more call. -/
theorem Tracks.run (h : Tracks maxRecords t calls recorded) (call : TrackerCall) :
    ∃ recorded', Tracks maxRecords (call.run t).2 (calls ++ [call]) recorded' := by
  cases call with
  | recordAlloc ptr size tag => exact h.recordAlloc
  | recordFree ptr => exact ⟨recorded, h.recordFree⟩

theorem tracks_runAll (maxAllocations : UInt32) (calls : List TrackerCall) :
    ∃ recorded, Tracks (MemTracker.create maxAllocations).maxRecords
      ((MemTracker.create maxAllocations).runAll calls) calls recorded := by
  induction calls using List.reverseRecOn with
  | nil => exact ⟨0, tracks_create maxAllocations⟩
  | append_singleton calls call ih =>
      obtain ⟨recorded, h⟩ := ih
      rw [runAll_concat]
      exact h.run call

theorem Tracks.activeBytes_toNat (h : Tracks maxRecords t calls recorded) (hlt : totalSize t.active < 2 ^ 64) :
    t.activeBytes.toNat = totalSize t.active := by
  rw [h.activeBytes, UInt64.toNat_ofNat_of_lt' hlt]

theorem Tracks.activeBytes_toNat_iff (h : Tracks maxRecords t calls recorded) :
    t.activeBytes.toNat = totalSize t.active ↔ totalSize t.active < 2 ^ 64 := by
  refine ⟨fun heq => ?_, h.activeBytes_toNat⟩
  rw [← heq]
  exact t.activeBytes.toNat_lt

/-! ## Results -/

/-- A call that is rejected changes nothing. -/
theorem run_rejected (t : MemTracker) (call : TrackerCall) (h : (call.run t).1 ≠ .success) :
    (call.run t).2 = t := by
  cases call with
  | recordAlloc ptr size tag =>
      obtain ⟨-, -, t', hrun, -⟩ | ⟨-, hrun⟩ := t.recordAlloc_cases ptr size tag
      · rw [TrackerCall.run, hrun] at h
        exact absurd rfl h
      · rw [TrackerCall.run, hrun]
  | recordFree ptr =>
      obtain ⟨-, r, t', -, hrun, -⟩ | ⟨-, hrun⟩ := t.recordFree_cases ptr
      · rw [TrackerCall.run, hrun] at h
        exact absurd rfl h
      · rw [TrackerCall.run, hrun]

/-! ## The peak -/

theorem reachedBytes_concat (t : MemTracker) (calls : List TrackerCall) (call : TrackerCall) :
    reachedBytes t (calls ++ [call]) =
      insert (t.runAll (calls ++ [call])).activeBytes.toNat (reachedBytes t calls) := by
  ext n
  simp only [reachedBytes, Set.mem_ofPred_eq, Set.mem_insert_iff, List.prefix_concat_iff]
  constructor
  · rintro ⟨before, rfl | hbefore, rfl⟩
    · exact Or.inl rfl
    · exact Or.inr ⟨before, hbefore, rfl⟩
  · rintro (rfl | ⟨before, hbefore, rfl⟩)
    · exact ⟨_, Or.inl rfl, rfl⟩
    · exact ⟨before, Or.inr hbefore, rfl⟩

/-- A free does not raise the number of active bytes, unless it has wrapped around. -/
theorem Tracks.peakBytes_run {recorded' : ℕ} (h : Tracks maxRecords t calls recorded)
    (hlt : totalSize t.active < 2 ^ 64) (hpeak : t.activeBytes.toNat ≤ t.peakBytes.toNat)
    (h' : Tracks maxRecords (call.run t).2 (calls ++ [call]) recorded') :
    (call.run t).2.peakBytes.toNat = max (call.run t).2.activeBytes.toNat t.peakBytes.toNat := by
  cases call with
  | recordAlloc ptr size tag =>
      obtain ⟨-, -, t', hrun, halloc⟩ | ⟨-, hrun⟩ := t.recordAlloc_cases ptr size tag
      · rw [TrackerCall.run, hrun, halloc.peakBytes]
        split_ifs with hmore
        · rw [max_eq_left (UInt64.lt_iff_toNat_lt.mp hmore).le]
        · rw [max_eq_right (UInt64.le_iff_toNat_le.mp (UInt64.not_lt.mp hmore))]
      · rw [TrackerCall.run, hrun, max_eq_right hpeak]
  | recordFree ptr =>
      obtain ⟨-, r, t', -, hrun, hfree⟩ | ⟨-, hrun⟩ := t.recordFree_cases ptr
      · rw [TrackerCall.run, hrun] at h' ⊢
        have htotal := totalSize_perm hfree.active
        rw [totalSize_cons] at htotal
        have hbefore := h.activeBytes_toNat hlt
        have hafter : t'.activeBytes.toNat = totalSize t'.active := h'.activeBytes_toNat (by
          change totalSize t'.active < 2 ^ 64
          omega)
        have hless : t'.activeBytes.toNat ≤ t.activeBytes.toNat := by omega
        rw [hfree.peakBytes, max_eq_right (hless.trans hpeak)]
      · rw [TrackerCall.run, hrun, max_eq_right hpeak]

theorem NeverWraps.init (h : NeverWraps t (calls ++ [call])) : NeverWraps t calls :=
  fun before hbefore => h before (hbefore.trans (List.prefix_append _ _))

theorem isGreatest_peakBytes (maxAllocations : UInt32) {calls : List TrackerCall}
    (h : NeverWraps (.create maxAllocations) calls) :
    IsGreatest (reachedBytes (.create maxAllocations) calls)
      ((MemTracker.create maxAllocations).runAll calls).peakBytes.toNat := by
  induction calls using List.reverseRecOn with
  | nil =>
      refine ⟨⟨[], List.prefix_refl _, rfl⟩, ?_⟩
      rintro n ⟨before, hbefore, rfl⟩
      rw [List.prefix_nil.mp hbefore]
      exact le_refl _
  | append_singleton calls call ih =>
      obtain ⟨recorded, htracks⟩ := tracks_runAll maxAllocations calls
      obtain ⟨recorded', htracks'⟩ := tracks_runAll maxAllocations (calls ++ [call])
      have hgreatest := ih h.init
      have hactive := hgreatest.2 ⟨calls, List.prefix_refl _, rfl⟩
      rw [runAll_concat] at htracks'
      have hpeak := htracks.peakBytes_run (h calls (List.prefix_append _ _)) hactive htracks'
      rw [reachedBytes_concat, runAll_concat, hpeak]
      exact hgreatest.insert _

/-- After any calls, the tracker reports exactly the outstanding allocations.  It counts their bytes, and the
most that there were, as long as they fit a `size_t`. -/
theorem accounted_allocations (maxAllocations : UInt32) (calls : List TrackerCall) :
    Accounted (.create maxAllocations) ((MemTracker.create maxAllocations).runAll calls) calls := by
  obtain ⟨recorded, h⟩ := tracks_runAll maxAllocations calls
  refine ⟨h.activeBytes, h.activeBytes_toNat_iff, isGreatest_peakBytes maxAllocations, run_rejected _,
    recorded, fun maxCount hroom => ?_⟩
  rw [MemTracker.findLeaks_eq hroom]
  exact h.outstanding

/-- Two allocations with 2^64 bytes in all, of which the first is freed. -/
def wrappingCalls : List TrackerCall :=
  [.recordAlloc 1 1 none, .recordAlloc 2 18446744073709551615 none, .recordFree 1]

/-- With 2^64 bytes, the number of active bytes wraps around to zero, and it is raised above the peak by a
free. -/
theorem not_accounted_wrapping :
    ((MemTracker.create 2).runAll (wrappingCalls.take 2)).getActiveBytes.toNat ≠
        totalSize ((MemTracker.create 2).runAll (wrappingCalls.take 2)).active ∧
      ¬ IsGreatest (reachedBytes (.create 2) wrappingCalls)
        ((MemTracker.create 2).runAll wrappingCalls).getPeakBytes.toNat := by
  refine ⟨by decide, fun h => ?_⟩
  have hle := h.2 ⟨wrappingCalls, List.prefix_refl _, rfl⟩
  exact absurd hle (by decide)

end LgxRuntime.Tools
