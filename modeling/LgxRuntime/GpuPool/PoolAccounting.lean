import LgxRuntime.GpuPool.Coalescing
import LgxRuntime.GpuPool.PoolBounds

/-!
# The accounting of the pool

The size of a block is added up twice: in the budget of the pool, where the handle says what to take away
again, and in the allocator, where the record of the block does.  The two agree as long as the record of a
live block is left alone; no sum overflows, because the live blocks are not larger than the initial one.

The runs are those in which the table of blocks can always grow.
-/

namespace LgxRuntime.GpuPool

open Function (update update_self update_of_ne)
open FreeLists (taken)

/-! ## Runs in which the table can grow -/

/-- One step of a run in which the table can grow. -/
inductive GrowingStep : PoolRun → PoolRun → Prop
  | alloc (r : PoolRun) (chaos mallocOk : Bool) (realloc : ℕ → Option Moved) (size alignment : ℕ)
      (type : MemoryType) (result : Option GpuAllocation) (p' : Pool) (hgrows : ∀ k, (realloc k).isSome)
      (hresult : gpuAlloc r.pool chaos mallocOk realloc size alignment type = some (result, p')) :
      GrowingStep r ⟨p', result.toList ++ r.live⟩
  | free (r : PoolRun) (alloc : GpuAllocation) (p' : Pool) (hlive : alloc ∈ r.live)
      (hresult : gpuFree r.pool alloc = some p') : GrowingStep r ⟨p', r.live.erase alloc⟩

/-- The states of these runs. -/
inductive GrowingReachable (c : PoolConfig) : PoolRun → Prop
  | init : GrowingReachable c ⟨gpuPoolInit c.props c.eightyPercent c.memory c.mapped, []⟩
  | step {r r' : PoolRun} (hreach : GrowingReachable c r) (hstep : GrowingStep r r') : GrowingReachable c r'

/-- The sum of the sizes of the live handles of a type. -/
def liveSize (live : List GpuAllocation) (type : MemoryType) : ℕ :=
  ((live.filter fun x => x.memoryType = type).map fun x => x.size).sum

/-- No two free blocks of one level below the largest are the halves of one block. -/
def NoFreeBuddies (a : Allocator) : Prop :=
  ∀ i < a.numBlocks, ∀ j < a.numBlocks, (a.allBlocks i).isFree = true → (a.allBlocks j).isFree = true →
    (a.allBlocks j).level = (a.allBlocks i).level → (a.allBlocks i).level < numBuddyLevels - 1 →
    (a.allBlocks j).offset ≠ getBuddyOffset (a.allBlocks i).offset (a.allBlocks i).level

/-- There is one free block; it begins at offset 0, and it is alone on the list of the level. -/
def OneFreeBlock (a : Allocator) (level : ℕ) : Prop :=
  ∃ i, freeBlocks a = {i} ∧ (a.allBlocks i).offset = 0 ∧ (a.allBlocks i).level = level ∧
    (a.allBlocks i).next = none ∧ (a.allBlocks i).prev = none ∧
    a.freeLists = update (fun _ => none) level (some i)

/-- The free blocks are merged, the sums are those of the live handles, and freeing all handles of a type
leaves the initial block. -/
structure PoolAccounted (c : PoolConfig) (r : PoolRun) : Prop where
  apart : ∀ type, NoFreeBuddies (r.pool.allocators type)
  used : ∀ type, r.pool.usedBudget type = liveSize r.live type
  allocated : ∀ type, (r.pool.allocators type).allocatedBytes = liveSize r.live type
  no_underflow : ∀ x ∈ r.live, x.size ≤ r.pool.usedBudget x.memoryType ∧
    ((r.pool.allocators x.memoryType).allBlocks x.blockIndex).size ≤
      (r.pool.allocators x.memoryType).allocatedBytes
  initial : ∀ type, c.available type = true → (∀ x ∈ r.live, x.memoryType ≠ type) →
    r.pool.usedBudget type = 0 ∧ OneFreeBlock (r.pool.allocators type) (sizeToLevel (c.budget type))

/-! ## Sums of sizes -/

theorem liveSize_cons (x : GpuAllocation) (live : List GpuAllocation) (type : MemoryType) :
    liveSize (x :: live) type = (if x.memoryType = type then x.size else 0) + liveSize live type := by
  by_cases hx : x.memoryType = type
  · simp [liveSize, hx]
  · simp [liveSize, hx]

theorem liveSize_erase {x : GpuAllocation} {live : List GpuAllocation} (hx : x ∈ live) (type : MemoryType) :
    liveSize live type = (if x.memoryType = type then x.size else 0) + liveSize (live.erase x) type := by
  rw [← liveSize_cons]
  exact (((List.perm_cons_erase hx).filter _).map _).sum_eq

theorem liveSize_eq_zero {live : List GpuAllocation} {type : MemoryType}
    (h : ∀ x ∈ live, x.memoryType ≠ type) : liveSize live type = 0 := by
  have hempty : live.filter (fun x => x.memoryType = type) = [] := by
    rw [List.filter_eq_nil_iff]
    exact fun x hx => by simpa using h x hx
  rw [liveSize, hempty]
  rfl

theorem queryMemoryBudget_le (props : MemoryProperties) (eightyPercent : ℕ → ℕ) (type : MemoryType) :
    queryMemoryBudget props eightyPercent type ≤ 256 * 1024 * 1024 := by
  have hdefault : defaultBudget type ≤ 256 * 1024 * 1024 := by
    cases type with
    | deviceLocal => decide
    | hostVisible => decide
    | hostCached => decide
  unfold queryMemoryBudget
  split
  · exact Nat.zero_le _
  · dsimp only
    split
    · omega
    · exact hdefault

section

variable {c : PoolConfig} {r : PoolRun} {type : MemoryType} {handles : List Handle} {free : ℕ → List ℕ}
  {dead : List ℕ} {S : Set ℕ}

/-- The live blocks of an allocator of the pool are not larger than 256 MB. -/
theorem Owned.sum_size_lt {a : Allocator}
    (h : Owned (sizeToLevel (c.budget type)) a handles free dead S) (htotal : a.totalSize = c.budget type) :
    (handles.map Handle.size).sum < 2 ^ 64 := by
  have hle := h.sum_size_le
  have hbudget : c.budget type ≤ 256 * 1024 * 1024 := queryMemoryBudget_le c.props c.eightyPercent type
  have hlevel : levelToSize (sizeToLevel (c.budget type)) ≤ maxBlockSize :=
    (levelToSize_le (Nat.le_sub_one_of_lt (sizeToLevel_lt _))).trans (by decide)
  have hmax : max (levelToSize (sizeToLevel (c.budget type))) a.totalSize ≤ 256 * 1024 * 1024 := by
    rw [htotal]
    exact max_le (hlevel.trans (by decide)) hbudget
  omega

theorem TypeOwned.sum_size (h : TypeOwned c r type handles free dead S) (hpool : PoolOwned c r) :
    (handles.map Handle.size).sum = liveSize r.live type := by
  have hperm : handles.Perm ((r.live.filter fun x => x.memoryType = type).map GpuAllocation.toHandle) := by
    have hlive : r.live.Nodup := hpool.nodup.of_map
    refine (List.perm_ext_iff_of_nodup h.owned.nodup.of_map ?_).mpr fun x => ?_
    · refine (hlive.filter _).map_on fun x hx y hy hxy => ?_
      rw [List.mem_filter, decide_eq_true_eq] at hx hy
      have hkey : (x.memoryType, x.blockIndex) = (y.memoryType, y.blockIndex) := by
        rw [hx.2, hy.2, congrArg Handle.blockIndex hxy]
      exact List.inj_on_of_nodup_map hpool.nodup hx.1 hy.1 hkey
    · rw [h.mem_iff, List.mem_map]
      constructor
      · rintro ⟨y, hy, htype, rfl⟩
        exact ⟨y, List.mem_filter.mpr ⟨hy, by simpa using htype⟩, rfl⟩
      · rintro ⟨y, hy, rfl⟩
        rw [List.mem_filter, decide_eq_true_eq] at hy
        exact ⟨y, hy.1, hy.2, rfl⟩
  rw [(hperm.map Handle.size).sum_eq, List.map_map]
  rfl

end

/-! ## The invariant of a run -/

/-- The invariant of a run in which the table can grow. -/
structure PoolSettled (c : PoolConfig) (r : PoolRun) : Prop where
  owned : PoolOwned c r
  apart : ∀ type m v, Valid m (r.pool.allocators type) v → Apart (r.pool.allocators type) v ∅
  used : ∀ type, r.pool.usedBudget type = liveSize r.live type
  allocated : ∀ type, (r.pool.allocators type).allocatedBytes = liveSize r.live type

namespace PoolSettled

variable {c : PoolConfig} {r : PoolRun}

theorem init (c : PoolConfig) :
    PoolSettled c ⟨gpuPoolInit c.props c.eightyPercent c.memory c.mapped, []⟩ := by
  refine ⟨PoolOwned.init c, fun type m v hvalid l hl i hi j hj hhalves => ?_, fun _ => rfl, fun _ => rfl⟩
  -- there is one slot only
  have hslot : ∀ x ∈ v.free l, x = 0 := by
    intro x hx
    have hlt := (hvalid.rep.slots x).mpr (Or.inl (hvalid.rep.free_mem l x hx).1)
    exact Nat.lt_one_iff.mp hlt
  rw [hslot i hi, hslot j hj] at hhalves
  exact absurd hhalves.symm (getBuddyOffset_ne _ l)

/-- The allocator of one type is replaced, and the sums of this type with it. -/
theorem update_type (h : PoolSettled c r) {r' : PoolRun} {type : MemoryType} {a : Allocator}
    (howned : PoolOwned c r') (hallocators : r'.pool.allocators = update r.pool.allocators type a)
    (hapart : ∀ m v, Valid m a v → Apart a v ∅) (hother : ∀ t, t ≠ type →
      r'.pool.usedBudget t = r.pool.usedBudget t ∧ liveSize r'.live t = liveSize r.live t)
    (hused : r'.pool.usedBudget type = liveSize r'.live type)
    (hallocated : a.allocatedBytes = liveSize r'.live type) : PoolSettled c r' := by
  refine ⟨howned, fun t m v hvalid => ?_, fun t => ?_, fun t => ?_⟩
  · by_cases ht : t = type
    · subst ht
      rw [hallocators, update_self] at hvalid ⊢
      exact hapart m v hvalid
    · rw [hallocators, update_of_ne ht] at hvalid ⊢
      exact h.apart t m v hvalid
  · by_cases ht : t = type
    · rw [ht, hused]
    · rw [(hother t ht).1, (hother t ht).2, h.used]
  · by_cases ht : t = type
    · rw [hallocators, ht, update_self, hallocated]
    · rw [hallocators, update_of_ne ht, (hother t ht).2, h.allocated]

/-- What `buddy_alloc` does to the allocator of a type. -/
theorem buddyAlloc (h : PoolSettled c r) {type : MemoryType} {realloc : ℕ → Option Moved} {size alignment : ℕ}
    {result : Option ℕ} {a' : Allocator} (hgrows : ∀ k, (realloc k).isSome)
    (hresult : GpuPool.buddyAlloc (r.pool.allocators type) realloc size alignment = some (result, a')) :
    (∃ handles free dead S, a'.totalSize = c.budget type ∧
      Owned (sizeToLevel (c.budget type)) a' (grant result a' handles) free dead S ∧
      (handles.map Handle.size).sum = liveSize r.live type) ∧
    (∀ m v, Valid m a' v → Apart a' v ∅) ∧
    a'.allocatedBytes = result.elim (liveSize r.live type)
      fun i => wrap64 (liveSize r.live type + (a'.allBlocks i).size) := by
  obtain ⟨handles, free, dead, S, htype⟩ := h.owned.typeOwned type
  have hvalid := htype.owned.valid
  obtain ⟨result₁, a₁, free', dead', S', heq, htotal, howned'⟩ :=
    htype.owned.alloc realloc size alignment
  obtain ⟨rfl, rfl⟩ := Prod.mk.inj (Option.some.inj (hresult.symm.trans heq))
  obtain ⟨result₂, a₂, v', heq', hvalid', hsteps⟩ := hvalid.buddyAlloc_steps realloc size alignment
  obtain ⟨rfl, rfl⟩ := Prod.mk.inj (Option.some.inj (hresult.symm.trans heq'))
  obtain ⟨hapart, hbytes⟩ := hsteps.apart hvalid hvalid' hgrows (h.apart type _ _ hvalid)
  refine ⟨⟨handles, free', dead', S', htotal.trans htype.total, howned', htype.sum_size h.owned⟩,
    fun m v hv => ?_, ?_⟩
  · obtain rfl := hvalid'.unique hv
    exact hapart
  · rw [hbytes, h.allocated]

/-- What `buddy_free` of a live block does to an allocator without free buddies. -/
theorem buddyFree {m : ℕ} {a a' : Allocator} {handles : List Handle} {free : ℕ → List ℕ} {dead : List ℕ}
    {S : Set ℕ} {x : Handle} (howned : Owned m a handles free dead S)
    (hapart : ∀ m v, Valid m a v → Apart a v ∅) (hx : x ∈ handles)
    (hresult : GpuPool.buddyFree a x.blockIndex = some a') :
    (∀ m v, Valid m a' v → Apart a' v ∅) ∧ a'.allocatedBytes = sub64 a.allocatedBytes x.size := by
  have hvalid := howned.valid
  obtain ⟨htaken, hhandle⟩ := howned.of_live x hx
  obtain ⟨a₁, v', heq, hvalid', hsteps⟩ := hvalid.buddyFree_steps htaken
  obtain rfl := Option.some.inj (hresult.symm.trans heq)
  obtain ⟨hapart', hbytes⟩ := hsteps.apart hvalid (hapart _ _ hvalid)
  refine ⟨fun m v hv => ?_, ?_⟩
  · obtain rfl := hvalid'.unique hv
    exact hapart'
  · rw [hbytes]
    exact congrArg (sub64 a.allocatedBytes) (congrArg Handle.size hhandle)

/-- `lgx_gpu_alloc` keeps the invariant. -/
theorem alloc (h : PoolSettled c r) {chaos mallocOk : Bool} {realloc : ℕ → Option Moved}
    {size alignment : ℕ} {type : MemoryType} {result : Option GpuAllocation} {p' : Pool}
    (hgrows : ∀ k, (realloc k).isSome)
    (hresult : gpuAlloc r.pool chaos mallocOk realloc size alignment type = some (result, p')) :
    PoolSettled c ⟨p', result.toList ++ r.live⟩ := by
  have howned' := h.owned.alloc hresult
  unfold gpuAlloc at hresult
  split at hresult
  · cases hresult
    exact h
  split at hresult
  · cases hresult
    exact h
  cases hcall : GpuPool.buddyAlloc (r.pool.allocators type) realloc size alignment with
  | none =>
      rw [hcall] at hresult
      cases hresult
  | some outcome =>
      obtain ⟨found, a'⟩ := outcome
      rw [hcall] at hresult
      obtain ⟨⟨handles, free, dead, S, htotal, howned, hsum⟩, hapart, hbytes⟩ := h.buddyAlloc hgrows hcall
      cases found with
      | none =>
          cases hresult
          exact h.update_type howned' rfl hapart (fun t _ => ⟨rfl, rfl⟩) (h.used type) hbytes
      | some block =>
          simp only at hresult
          have hlt := howned.sum_size_lt htotal
          have hsize : (makeHandle a' block).size = (a'.allBlocks block).size := rfl
          rw [grant, List.map_cons, List.sum_cons, hsum, hsize] at hlt
          rw [Option.elim_some, wrap64_of_lt (by omega)] at hbytes
          split at hresult
          · -- No memory for the handle: the block goes back.
            cases hfree : GpuPool.buddyFree a' block with
            | none =>
                rw [hfree] at hresult
                cases hresult
            | some a₁ =>
                rw [hfree] at hresult
                cases hresult
                obtain ⟨hapart', hbytes'⟩ := buddyFree howned hapart (x := makeHandle a' block)
                  (List.mem_cons_self ..) hfree
                refine h.update_type howned' rfl hapart' (fun t _ => ⟨rfl, rfl⟩) (h.used type) ?_
                rw [hbytes', hbytes, hsize, sub64_of_le (by omega) (by omega), Nat.add_sub_cancel]
                rfl
          · cases hresult
            have hlive : ∀ t, liveSize (fillAllocation a' type block :: r.live) t =
                (if type = t then (a'.allBlocks block).size else 0) + liveSize r.live t :=
              liveSize_cons _ r.live
            refine h.update_type howned' rfl hapart (fun t ht => ⟨update_of_ne ht .., ?_⟩) ?_ ?_
            · exact (hlive t).trans (by rw [if_neg ht.symm, Nat.zero_add])
            · refine Eq.trans (update_self ..) (Eq.trans ?_ (hlive type).symm)
              rw [if_pos rfl, h.used, wrap64_of_lt (by omega), Nat.add_comm]
            · refine hbytes.trans (Eq.trans ?_ (hlive type).symm)
              rw [if_pos rfl, Nat.add_comm]

/-- `lgx_gpu_free` of a live allocation keeps the invariant. -/
theorem release (h : PoolSettled c r) {x : GpuAllocation} {p' : Pool} (hx : x ∈ r.live)
    (hresult : gpuFree r.pool x = some p') : PoolSettled c ⟨p', r.live.erase x⟩ := by
  obtain ⟨p₁, heq, howned'⟩ := h.owned.release hx
  obtain rfl := Option.some.inj (hresult.symm.trans heq)
  obtain ⟨handles, free, dead, S, htype⟩ := h.owned.typeOwned x.memoryType
  have hhandle : x.toHandle ∈ handles := (htype.mem_iff _).mpr ⟨x, hx, rfl, rfl⟩
  have hlt : x.blockIndex < (r.pool.allocators x.memoryType).numBlocks :=
    (htype.owned.rep.slots _).mpr (Or.inl (htype.owned.of_live _ hhandle).1.1)
  have hsum := htype.sum_size h.owned
  have hbound := htype.owned.sum_size_lt htype.total
  have herase := liveSize_erase hx
  have hself := herase x.memoryType
  rw [if_pos rfl] at hself
  unfold gpuFree at hresult
  simp only at hresult
  rw [if_pos hlt] at hresult
  cases hfree : GpuPool.buddyFree (r.pool.allocators x.memoryType) x.blockIndex with
  | none =>
      rw [hfree] at hresult
      cases hresult
  | some a' =>
      rw [hfree] at hresult
      cases hresult
      obtain ⟨hapart, hbytes⟩ := buddyFree htype.owned (h.apart x.memoryType) hhandle hfree
      refine h.update_type howned' rfl hapart (fun t ht => ⟨update_of_ne ht .., ?_⟩) ?_ ?_
      · have hother := herase t
        rw [if_neg ht.symm, Nat.zero_add] at hother
        exact hother.symm
      · refine Eq.trans (update_self ..) ?_
        rw [h.used, sub64_of_le (by omega) (by omega)]
        show liveSize r.live x.memoryType - x.size = liveSize (r.live.erase x) x.memoryType
        omega
      · rw [hbytes, h.allocated, sub64_of_le (by omega) (by omega)]
        show liveSize r.live x.memoryType - x.size = liveSize (r.live.erase x) x.memoryType
        omega

end PoolSettled

theorem GrowingReachable.settled {c : PoolConfig} {r : PoolRun} (h : GrowingReachable c r) :
    PoolSettled c r := by
  induction h with
  | init => exact PoolSettled.init c
  | step _ hstep ih =>
      cases hstep with
      | alloc chaos mallocOk realloc size alignment type result p' hgrows hresult =>
          exact ih.alloc hgrows hresult
      | free x p' hlive hresult => exact ih.release hlive hresult

/-! ## What the invariant says -/

theorem Owned.noFreeBuddies {m : ℕ} {a : Allocator} {live : List Handle} {free : ℕ → List ℕ}
    {dead : List ℕ} {S : Set ℕ} (h : Owned m a live free dead S) (hapart : Apart a ⟨free, dead, S⟩ ∅) :
    NoFreeBuddies a := by
  intro i hi j hj hfreei hfreej hlevel hlt hhalves
  have himem := h.isFree_iff.mpr ⟨hi, hfreei, rfl⟩
  have hjmem := h.isFree_iff.mpr ⟨hj, hfreej, hlevel⟩
  exact (hapart _ hlt i himem j hjmem hhalves).elim id id

theorem Owned.oneFreeBlock {m : ℕ} {a : Allocator} {free : ℕ → List ℕ} {dead : List ℕ} {S : Set ℕ}
    (h : Owned m a [] free dead S) (hapart : Apart a ⟨free, dead, S⟩ ∅) : OneFreeBlock a m := by
  obtain ⟨i, rfl, hoffset, hlevel, hfree⟩ := h.eq_initial hapart
  have hmem : ∀ l, ∀ x ∈ free l, x = i ∧ l = m := by
    intro l x hx
    obtain ⟨rfl, -, hlevelx⟩ := h.rep.free_mem l x hx
    exact ⟨rfl, hlevelx.symm.trans hlevel⟩
  have hsingle : free m = [i] := by
    refine List.perm_singleton.mp ((List.perm_ext_iff_of_nodup (h.rep.family.nodup m)
      (List.nodup_singleton i)).mpr fun x => ?_)
    rw [List.mem_singleton]
    refine ⟨fun hx => (hmem m x hx).1, ?_⟩
    rintro rfl
    exact h.valid.mem_free_iff.mpr ⟨rfl, hfree, hlevel⟩
  have hlinked := h.rep.family.linked m
  rw [hsingle] at hlinked
  refine ⟨i, ?_, hoffset, hlevel, hlinked.2.2, hlinked.2.1, funext fun l => ?_⟩
  · ext x
    rw [freeBlocks, Finset.mem_filter, Finset.mem_range, Finset.mem_singleton]
    constructor
    · rintro ⟨hlt, hxfree⟩
      exact (hmem _ x (h.isFree_iff.mpr ⟨hlt, hxfree, rfl⟩)).1
    · rintro rfl
      exact ⟨(h.rep.slots x).mpr (Or.inl rfl), hfree⟩
  · by_cases hl : l = m
    · subst hl
      rw [update_self]
      exact hlinked.1
    · rw [update_of_ne hl, ← h.valid.free_eq_nil_iff, List.eq_nil_iff_forall_not_mem]
      exact fun x hx => hl (hmem l x hx).2

/-- In every run in which the table can grow, coalescing and accounting are as they should be. -/
theorem poolAccounted_of_reachable {c : PoolConfig} {r : PoolRun} (h : GrowingReachable c r) :
    PoolAccounted c r := by
  have hsettled := h.settled
  refine ⟨fun type => ?_, hsettled.used, hsettled.allocated, fun x hx => ?_, fun type _ hnone => ?_⟩
  · obtain ⟨handles, free, dead, S, htype⟩ := hsettled.owned.typeOwned type
    exact htype.owned.noFreeBuddies (hsettled.apart type _ _ htype.owned.valid)
  · obtain ⟨handles, free, dead, S, htype⟩ := hsettled.owned.typeOwned x.memoryType
    have hhandle := htype.owned.of_live _ ((htype.mem_iff _).mpr ⟨x, hx, rfl, rfl⟩)
    have hsize : ((r.pool.allocators x.memoryType).allBlocks x.blockIndex).size = x.size :=
      congrArg Handle.size hhandle.2
    have herase := liveSize_erase hx x.memoryType
    rw [if_pos rfl] at herase
    rw [hsettled.used, hsettled.allocated, hsize]
    omega
  · obtain ⟨handles, free, dead, S, htype⟩ := hsettled.owned.typeOwned type
    obtain rfl : handles = [] := by
      refine List.eq_nil_iff_forall_not_mem.mpr fun x hx => ?_
      obtain ⟨y, hy, htypey, -⟩ := (htype.mem_iff x).mp hx
      exact hnone y hy htypey
    refine ⟨?_, htype.owned.oneFreeBlock (hsettled.apart type _ _ htype.owned.valid)⟩
    rw [hsettled.used, liveSize_eq_zero hnone]

/-- An allocation of 16 MB, which splits the initial block twice, and its deallocation. -/
theorem poolAccounted_after_free : ∃ r, GrowingReachable smallHeapConfig r ∧ r.live = [] ∧
    r.pool.deallocationCount = 1 ∧ PoolAccounted smallHeapConfig r := by
  have hrun : ((gpuAlloc (gpuPoolInit smallHeapConfig.props smallHeapConfig.eightyPercent smallHeapConfig.memory
      smallHeapConfig.mapped) false true (fun _ => some ⟨fun _ => none, fun _ => none, fun _ => none,
        fun _ => ⟨none, none, 0, 0, false, 0⟩⟩) (16 * 1024 * 1024) 0 .hostVisible).bind fun q =>
      q.1.bind fun x => (gpuFree q.2 x).map fun p => p.deallocationCount) = some 1 := by
    decide +kernel
  obtain ⟨⟨result, p₁⟩, halloc, hrun⟩ := Option.bind_eq_some_iff.mp hrun
  obtain ⟨x, hresult, hrun⟩ := Option.bind_eq_some_iff.mp hrun
  obtain ⟨p₂, hfree, hcount⟩ := Option.map_eq_some_iff.mp hrun
  obtain rfl : result = some x := hresult
  have hreach := (GrowingReachable.init (c := smallHeapConfig)).step
    (.alloc _ _ _ _ _ _ _ _ _ (fun _ => rfl) halloc)
  have hreach' := hreach.step (.free _ x p₂ (by simp) hfree)
  exact ⟨_, hreach', by simp, hcount, poolAccounted_of_reachable hreach'⟩

end LgxRuntime.GpuPool
