import LgxRuntime.Lib.CString
import LgxRuntime.Lib.SlotTable
import LgxRuntime.Runtime.Core

/-!
# The memory tracker

The tracker keeps a record of every allocation that it is told about in the first free slot of a table of
fixed size, and frees the first slot with the pointer that is freed.  It counts the bytes of the allocations
that are active.
-/

namespace LgxRuntime.Tools

open LgxRuntime.Runtime (LgxResult)

/-- An `alloc_record_t` that is active; a slot whose record is not active is `none`.  The tag has room for 31
characters. -/
structure AllocRecord where
  ptr : ℕ
  size : UInt64
  tag : CString
  allocId : UInt64
  deriving DecidableEq

/-- `lgx_leak_info_t`. -/
structure LeakInfo where
  ptr : ℕ
  size : UInt64
  tag : CString
  allocId : UInt64
  deriving DecidableEq

/-- `lgx_mem_tracker`. -/
structure MemTracker where
  records : List (Option AllocRecord)
  maxRecords : UInt32
  recordCount : UInt32
  activeBytes : UInt64
  peakBytes : UInt64
  totalAllocs : UInt64
  length_records : records.length = maxRecords.toNat

/-- What `strncpy` leaves of a tag in a record, or the empty tag. -/
def storedTag : Option CString → CString
  | none => ⟨[], CString.zero_notMem_nil⟩
  | some tag => tag.truncate 31

namespace MemTracker

/-- `lgx_memtrack_create`, when there is enough memory. -/
def create (maxAllocations : UInt32) : MemTracker :=
  let maxRecords := if 0 < maxAllocations then maxAllocations else 4096
  { records := List.replicate maxRecords.toNat none
    maxRecords := maxRecords
    recordCount := 0
    activeBytes := 0
    peakBytes := 0
    totalAllocs := 0
    length_records := List.length_replicate }

/-- `lgx_memtrack_record_alloc`. -/
def recordAlloc (t : MemTracker) (ptr : ℕ) (size : UInt64) (tag : Option CString) : LgxResult × MemTracker :=
  if ptr = 0 then (.invalidParam, t)
  else
    match t.records.findIdx? Option.isNone with
    | none => (.invalidParam, t)
    | some i =>
        (.success,
          { records := t.records.set i (some ⟨ptr, size, storedTag tag, t.totalAllocs + 1⟩)
            maxRecords := t.maxRecords
            recordCount := t.recordCount + 1
            activeBytes := t.activeBytes + size
            peakBytes := if t.peakBytes < t.activeBytes + size then t.activeBytes + size else t.peakBytes
            totalAllocs := t.totalAllocs + 1
            length_records := List.length_set.trans t.length_records })

/-- `lgx_memtrack_record_free`. -/
def recordFree (t : MemTracker) (ptr : ℕ) : LgxResult × MemTracker :=
  if ptr = 0 then (.invalidParam, t)
  else
    match t.records.findIdx? fun slot => slot.any fun r => r.ptr = ptr with
    | none => (.invalidParam, t)
    | some i =>
        (.success,
          { t with
            activeBytes := t.activeBytes - ((t.records[i]?.join.map AllocRecord.size).getD 0)
            records := t.records.set i none
            length_records := List.length_set.trans t.length_records })

/-- `lgx_memtrack_get_active_bytes`. -/
def getActiveBytes (t : MemTracker) : UInt64 :=
  t.activeBytes

/-- `lgx_memtrack_get_peak_bytes`. -/
def getPeakBytes (t : MemTracker) : UInt64 :=
  t.peakBytes

end MemTracker

/-- What `lgx_memtrack_find_leaks` copies of a record. -/
def AllocRecord.leakInfo (r : AllocRecord) : LeakInfo :=
  ⟨r.ptr, r.size, r.tag.truncate 31, r.allocId⟩

/-- The loop of `lgx_memtrack_find_leaks`, from some slot on. -/
def findLeaksFrom (maxCount : ℤ) : List (Option AllocRecord) → ℤ → List LeakInfo
  | [], _ => []
  | slot :: slots, found =>
      if found < maxCount then
        match slot with
        | some r => r.leakInfo :: findLeaksFrom maxCount slots (found + 1)
        | none => findLeaksFrom maxCount slots found
      else []

/-- `lgx_memtrack_find_leaks`: what it writes. -/
def MemTracker.findLeaks (t : MemTracker) (maxCount : ℤ) : List LeakInfo :=
  if maxCount ≤ 0 then [] else findLeaksFrom maxCount t.records 0

/-- With room for all active records, all of them are written. -/
theorem findLeaksFrom_eq {slots : List (Option AllocRecord)} {maxCount found : ℤ}
    (hroom : found + slots.reduceOption.length ≤ maxCount) :
    findLeaksFrom maxCount slots found = slots.reduceOption.map AllocRecord.leakInfo := by
  induction slots generalizing found with
  | nil => rfl
  | cons slot slots ih =>
      cases slot with
      | some r =>
          rw [List.reduceOption_cons_of_some, List.length_cons] at hroom
          rw [List.reduceOption_cons_of_some, List.map_cons, findLeaksFrom, if_pos (by omega), ih (by omega)]
      | none =>
          rw [List.reduceOption_cons_of_none] at hroom ⊢
          rw [findLeaksFrom]
          by_cases hfound : found < maxCount
          · rw [if_pos hfound]
            exact ih hroom
          · have hnil : slots.reduceOption = [] := List.length_eq_zero_iff.mp (by omega)
            rw [if_neg hfound, hnil]
            rfl

namespace MemTracker

/-- The records that are active, in the order of the table. -/
def active (t : MemTracker) : List AllocRecord :=
  t.records.reduceOption

variable {t : MemTracker}

theorem active_length_le (t : MemTracker) : t.active.length ≤ t.maxRecords.toNat := by
  rw [← t.length_records]
  exact List.reduceOption_length_le t.records

theorem findLeaks_eq {maxCount : ℤ} (hroom : (t.active.length : ℤ) ≤ maxCount) :
    t.findLeaks maxCount = t.active.map AllocRecord.leakInfo := by
  by_cases hpos : maxCount ≤ 0
  · have hnil : t.active = [] := List.length_eq_zero_iff.mp (by omega)
    rw [findLeaks, if_pos hpos, hnil]
    rfl
  · rw [findLeaks, if_neg hpos]
    exact findLeaksFrom_eq (by rw [Int.zero_add]; exact hroom)

theorem active_create (maxAllocations : UInt32) : (create maxAllocations).active = [] :=
  List.reduceOption_replicate_none

/-- What a call of `lgx_memtrack_record_alloc` does that is accepted. -/
structure Allocates (t t' : MemTracker) (r : AllocRecord) : Prop where
  active : t'.active.Perm (r :: t.active)
  allocId : r.allocId = t.totalAllocs + 1
  maxRecords : t'.maxRecords = t.maxRecords
  activeBytes : t'.activeBytes = t.activeBytes + r.size
  peakBytes : t'.peakBytes = if t.peakBytes < t'.activeBytes then t'.activeBytes else t.peakBytes
  totalAllocs : t'.totalAllocs = t.totalAllocs + 1

/-- What a call of `lgx_memtrack_record_free` does that is accepted. -/
structure Frees (t t' : MemTracker) (r : AllocRecord) : Prop where
  active : t.active.Perm (r :: t'.active)
  maxRecords : t'.maxRecords = t.maxRecords
  activeBytes : t'.activeBytes = t.activeBytes - r.size
  peakBytes : t'.peakBytes = t.peakBytes
  totalAllocs : t'.totalAllocs = t.totalAllocs

/-- An allocation is recorded, or the pointer is `NULL` or the table full, and nothing changes. -/
theorem recordAlloc_cases (t : MemTracker) (ptr : ℕ) (size : UInt64) (tag : Option CString) :
    (ptr ≠ 0 ∧ t.active.length < t.maxRecords.toNat ∧
      ∃ t', t.recordAlloc ptr size tag = (.success, t') ∧
        Allocates t t' ⟨ptr, size, storedTag tag, t.totalAllocs + 1⟩) ∨
    ((ptr = 0 ∨ t.active.length = t.maxRecords.toNat) ∧ t.recordAlloc ptr size tag = (.invalidParam, t)) := by
  by_cases hptr : ptr = 0
  · exact Or.inr ⟨Or.inl hptr, by rw [recordAlloc, if_pos hptr]⟩
  cases hfind : t.records.findIdx? Option.isNone with
  | none =>
      have hfull := SlotTable.findIdx?_isNone_eq_none_iff.mp hfind
      rw [t.length_records] at hfull
      exact Or.inr ⟨Or.inr hfull, by simp only [recordAlloc, if_neg hptr, hfind]⟩
  | some i =>
      have hslot := SlotTable.getElem?_of_findIdx?_isNone hfind
      have hroom : t.active.length ≠ t.maxRecords.toNat := by
        intro hfull
        rw [← t.length_records] at hfull
        rw [SlotTable.findIdx?_isNone_eq_none_iff.mpr hfull] at hfind
        exact Option.some_ne_none i hfind.symm
      refine Or.inl ⟨hptr, lt_of_le_of_ne t.active_length_le hroom, ?_⟩
      simp only [recordAlloc, if_neg hptr, hfind]
      exact ⟨_, rfl, SlotTable.perm_set_some hslot, rfl, rfl, rfl, rfl, rfl⟩

/-- A record with the pointer is freed, or there is none, and nothing changes. -/
theorem recordFree_cases (t : MemTracker) (ptr : ℕ) :
    (ptr ≠ 0 ∧ ∃ r t', r.ptr = ptr ∧ t.recordFree ptr = (.success, t') ∧ Frees t t' r) ∨
    ((ptr = 0 ∨ ∀ r ∈ t.active, r.ptr ≠ ptr) ∧ t.recordFree ptr = (.invalidParam, t)) := by
  by_cases hptr : ptr = 0
  · exact Or.inr ⟨Or.inl hptr, by rw [recordFree, if_pos hptr]⟩
  cases hfind : t.records.findIdx? fun slot => slot.any fun r => r.ptr = ptr with
  | none =>
      have hnone := SlotTable.findIdx?_any_eq_none_iff.mp hfind
      refine Or.inr ⟨Or.inr fun r hr => of_decide_eq_false (hnone r hr), ?_⟩
      simp only [recordFree, if_neg hptr, hfind]
  | some i =>
      obtain ⟨r, hslot, hr⟩ := SlotTable.getElem?_of_findIdx?_any hfind
      refine Or.inl ⟨hptr, r, ?_⟩
      simp only [recordFree, if_neg hptr, hfind, hslot]
      exact ⟨_, of_decide_eq_true hr, rfl, SlotTable.perm_set_none hslot, rfl, rfl, rfl, rfl⟩

end MemTracker

end LgxRuntime.Tools
