import LgxRuntime.GpuPool.Pool

/-!
# Bounds of GPU allocations

The initial block of a memory type has the level that its budget is rounded up to, and a split hands
out halves by level.  For a budget between 256 B and 64 MB that is not a power of two the upper half of
the initial block therefore sticks out past the end of the Vulkan memory.

`bounds_iff` says that these are the only budgets for which that happens: the bounds hold in every run
exactly when no available memory type has such a budget.
-/

namespace LgxRuntime.GpuPool

open Function (update update_self update_of_ne)
open FreeLists (taken)

/-! ## Runs of the pool -/

/-- The pool together with the live allocations. -/
structure PoolRun where
  pool : Pool
  live : List GpuAllocation

/-- One step of a run. -/
inductive PoolStep : PoolRun → PoolRun → Prop
  | alloc (r : PoolRun) (chaos mallocOk : Bool) (realloc : ℕ → Option Moved) (size alignment : ℕ)
      (type : MemoryType) (result : Option GpuAllocation) (p' : Pool)
      (hresult : gpuAlloc r.pool chaos mallocOk realloc size alignment type = some (result, p')) :
      PoolStep r ⟨p', result.toList ++ r.live⟩
  | free (r : PoolRun) (alloc : GpuAllocation) (p' : Pool) (hlive : alloc ∈ r.live)
      (hresult : gpuFree r.pool alloc = some p') : PoolStep r ⟨p', r.live.erase alloc⟩

/-- What `lgx_gpu_pool_init` is given by the environment. -/
structure PoolConfig where
  props : MemoryProperties
  eightyPercent : ℕ → ℕ
  memory : MemoryType → ℕ
  mapped : MemoryType → Option ℕ

namespace PoolConfig

/-- The budget of a memory type. -/
def budget (c : PoolConfig) (type : MemoryType) : ℕ :=
  queryMemoryBudget c.props c.eightyPercent type

/-- Whether a memory type is available. -/
def available (c : PoolConfig) (type : MemoryType) : Bool :=
  (detectMemoryTypes c.props type).isSome

end PoolConfig

/-- The states of the runs that start with `lgx_gpu_pool_init`. -/
inductive PoolReachable (c : PoolConfig) : PoolRun → Prop
  | init : PoolReachable c ⟨gpuPoolInit c.props c.eightyPercent c.memory c.mapped, []⟩
  | step {r r' : PoolRun} (hreach : PoolReachable c r) (hstep : PoolStep r r') : PoolReachable c r'

/-! ## The invariant of a run -/

/-- The allocator of `type` has handed out exactly the blocks of the live allocations of that type. -/
structure TypeOwned (c : PoolConfig) (r : PoolRun) (type : MemoryType) (handles : List Handle)
    (free : ℕ → List ℕ) (dead : List ℕ) (S : Set ℕ) : Prop where
  total : (r.pool.allocators type).totalSize = c.budget type
  owned : Owned (sizeToLevel (c.budget type)) (r.pool.allocators type) handles free dead S
  mem_iff : ∀ h, h ∈ handles ↔ ∃ x ∈ r.live, x.memoryType = type ∧ x.toHandle = h

/-- The invariant of a run of the pool. -/
structure PoolOwned (c : PoolConfig) (r : PoolRun) : Prop where
  available_eq : r.pool.available = c.available
  nodup : (r.live.map fun x => (x.memoryType, x.blockIndex)).Nodup
  live_available : ∀ x ∈ r.live, c.available x.memoryType = true
  typeOwned : ∀ type, ∃ handles free dead S, TypeOwned c r type handles free dead S

namespace PoolOwned

variable {c : PoolConfig} {r : PoolRun}

theorem init (c : PoolConfig) :
    PoolOwned c ⟨gpuPoolInit c.props c.eightyPercent c.memory c.mapped, []⟩ := by
  refine ⟨rfl, List.nodup_nil, by simp, fun type => ?_⟩
  have howned := Owned.init (c.budget type)
  refine ⟨[], _, [], _, rfl, ⟨?_, howned.marked, howned.nodup, by simp, howned.of_taken⟩, by simp⟩
  exact howned.rep.of_eq rfl rfl ⟨rfl, rfl, le_rfl, rfl⟩

/-- The allocator of one type is replaced, and its live allocations with it. -/
theorem update_type (h : PoolOwned c r) {r' : PoolRun} {type : MemoryType} {a : Allocator}
    {handles : List Handle} {free : ℕ → List ℕ} {dead : List ℕ} {S : Set ℕ}
    (havailable : r'.pool.available = r.pool.available)
    (hallocators : r'.pool.allocators = update r.pool.allocators type a)
    (hother : ∀ x : GpuAllocation, x.memoryType ≠ type → (x ∈ r'.live ↔ x ∈ r.live))
    (hnodup : (r'.live.map fun x => (x.memoryType, x.blockIndex)).Nodup)
    (hlive : ∀ x ∈ r'.live, c.available x.memoryType = true)
    (htotal : a.totalSize = c.budget type)
    (howned : Owned (sizeToLevel (c.budget type)) a handles free dead S)
    (hmem : ∀ h, h ∈ handles ↔ ∃ x ∈ r'.live, x.memoryType = type ∧ x.toHandle = h) :
    PoolOwned c r' := by
  refine ⟨havailable.trans h.available_eq, hnodup, hlive, fun t => ?_⟩
  by_cases ht : t = type
  · subst ht
    refine ⟨handles, free, dead, S, ?_, ?_, hmem⟩
    · rw [hallocators, update_self]
      exact htotal
    · rw [hallocators, update_self]
      exact howned
  · obtain ⟨handles', free', dead', S', htype⟩ := h.typeOwned t
    refine ⟨handles', free', dead', S', ?_, ?_, fun x => ?_⟩
    · rw [hallocators, update_of_ne ht]
      exact htype.total
    · rw [hallocators, update_of_ne ht]
      exact htype.owned
    · rw [htype.mem_iff]
      constructor
      · rintro ⟨y, hy, hyt, hyx⟩
        exact ⟨y, (hother y (hyt ▸ ht)).mpr hy, hyt, hyx⟩
      · rintro ⟨y, hy, hyt, hyx⟩
        exact ⟨y, (hother y (hyt ▸ ht)).mp hy, hyt, hyx⟩

/-- `lgx_gpu_alloc` keeps the invariant. -/
theorem alloc (h : PoolOwned c r) {chaos mallocOk : Bool} {realloc : ℕ → Option Moved}
    {size alignment : ℕ} {type : MemoryType} {result : Option GpuAllocation} {p' : Pool}
    (hresult : gpuAlloc r.pool chaos mallocOk realloc size alignment type = some (result, p')) :
    PoolOwned c ⟨p', result.toList ++ r.live⟩ := by
  unfold gpuAlloc at hresult
  split at hresult
  · cases hresult
    exact h
  split at hresult
  · cases hresult
    exact h
  rename_i hchaos havail
  obtain ⟨handles, free, dead, S, htype⟩ := h.typeOwned type
  obtain ⟨found, a', free', dead', S', heq, htotal, howned⟩ :=
    htype.owned.alloc realloc size alignment
  rw [heq] at hresult
  have havailable : c.available type = true := by
    rw [← h.available_eq]
    simpa using havail
  cases found with
  | none =>
      cases hresult
      exact h.update_type rfl rfl (fun _ _ => Iff.rfl) h.nodup h.live_available
        (htotal.trans htype.total) howned htype.mem_iff
  | some block =>
      simp only at hresult
      have hhead : makeHandle a' block ∈ grant (some block) a' handles := List.mem_cons_self ..
      split at hresult
      · -- No memory for the handle: the block goes back.
        obtain ⟨a'', free'', dead'', S'', heq', htotal', howned'⟩ := howned.release hhead
        have hblock : (makeHandle a' block).blockIndex = block := rfl
        rw [hblock] at heq'
        rw [heq'] at hresult
        cases hresult
        have hsame : (grant (some block) a' handles).erase (makeHandle a' block) = handles := by
          simp [grant]
        rw [hsame] at howned'
        exact h.update_type rfl rfl (fun _ _ => Iff.rfl) h.nodup h.live_available
          ((htotal'.trans htotal).trans htype.total) howned' htype.mem_iff
      · cases hresult
        have hmem : ∀ x, x ∈ (some (fillAllocation a' type block)).toList ++ r.live ↔
            x = fillAllocation a' type block ∨ x ∈ r.live := by
          intro x
          simp
        refine h.update_type rfl rfl (fun x hx => ?_) ?_ (fun x hx => ?_) (htotal.trans htype.total)
          howned fun x => ?_
        · rw [hmem]
          refine or_iff_right ?_
          rintro rfl
          exact hx rfl
        · refine List.nodup_cons.mpr ⟨fun hin => ?_, h.nodup⟩
          obtain ⟨y, hy, hkey⟩ := List.mem_map.mp hin
          obtain ⟨hyt, hyb⟩ := Prod.mk.inj hkey
          refine (List.nodup_cons.mp howned.nodup).1 (List.mem_map.mpr ⟨y.toHandle, ?_, hyb⟩)
          exact (htype.mem_iff _).mpr ⟨y, hy, hyt, rfl⟩
        · rcases (hmem x).mp hx with rfl | hx
          · exact havailable
          · exact h.live_available x hx
        · rw [grant, List.mem_cons, htype.mem_iff]
          constructor
          · rintro (rfl | ⟨y, hy, hyt, hyx⟩)
            · exact ⟨_, (hmem _).mpr (Or.inl rfl), rfl, rfl⟩
            · exact ⟨y, (hmem y).mpr (Or.inr hy), hyt, hyx⟩
          · rintro ⟨y, hy, hyt, hyx⟩
            rcases (hmem y).mp hy with rfl | hy
            · exact Or.inl hyx.symm
            · exact Or.inr ⟨y, hy, hyt, hyx⟩

/-- `lgx_gpu_free` of a live allocation returns and keeps the invariant. -/
theorem release (h : PoolOwned c r) {x : GpuAllocation} (hx : x ∈ r.live) :
    ∃ p', gpuFree r.pool x = some p' ∧ PoolOwned c ⟨p', r.live.erase x⟩ := by
  obtain ⟨handles, free, dead, S, htype⟩ := h.typeOwned x.memoryType
  have hhandle : x.toHandle ∈ handles := (htype.mem_iff _).mpr ⟨x, hx, rfl, rfl⟩
  obtain ⟨a', free', dead', S', heq, htotal, howned⟩ := htype.owned.release hhandle
  have hlt : x.blockIndex < (r.pool.allocators x.memoryType).numBlocks :=
    (htype.owned.rep.slots _).mpr (Or.inl (htype.owned.of_live _ hhandle).1.1)
  have hnodup : r.live.Nodup := h.nodup.of_map
  have hnodup' : handles.Nodup := htype.owned.nodup.of_map
  have hfree : gpuFree r.pool x = some
      { r.pool with
        usedBudget := update r.pool.usedBudget x.memoryType
          (sub64 (r.pool.usedBudget x.memoryType) x.size)
        deallocationCount := r.pool.deallocationCount + 1
        allocators := update r.pool.allocators x.memoryType a' } := by
    unfold gpuFree
    simp only
    rw [if_pos hlt, heq]
  refine ⟨_, hfree, h.update_type rfl rfl (fun y hy => ?_) ?_ (fun y hy => ?_)
    (htotal.trans htype.total) howned fun y => ?_⟩
  · rw [hnodup.mem_erase_iff]
    refine and_iff_right ?_
    rintro rfl
    exact hy rfl
  · exact h.nodup.sublist ((List.erase_sublist ..).map _)
  · exact h.live_available y (List.mem_of_mem_erase hy)
  · rw [hnodup'.mem_erase_iff, htype.mem_iff]
    constructor
    · rintro ⟨hne, z, hz, hzt, rfl⟩
      refine ⟨z, ?_, hzt, rfl⟩
      rw [hnodup.mem_erase_iff]
      refine ⟨?_, hz⟩
      rintro rfl
      exact hne rfl
    · rintro ⟨z, hz, hzt, rfl⟩
      rw [hnodup.mem_erase_iff] at hz
      refine ⟨fun hzx => hz.1 ?_, z, hz.2, hzt, rfl⟩
      have hkey : (z.memoryType, z.blockIndex) = (x.memoryType, x.blockIndex) := by
        rw [hzt, congrArg Handle.blockIndex hzx]
      exact List.inj_on_of_nodup_map h.nodup hz.2 hx hkey

end PoolOwned

theorem PoolStep.owned {c : PoolConfig} {r r' : PoolRun} (hstep : PoolStep r r')
    (h : PoolOwned c r) : PoolOwned c r' := by
  cases hstep with
  | alloc chaos mallocOk realloc size alignment type result p' hresult => exact h.alloc hresult
  | free x p' hlive hresult =>
      obtain ⟨p'', heq, howned⟩ := h.release hlive
      obtain rfl := Option.some.inj (hresult.symm.trans heq)
      exact howned

theorem PoolReachable.owned {c : PoolConfig} {r : PoolRun} (h : PoolReachable c r) :
    PoolOwned c r := by
  induction h with
  | init => exact PoolOwned.init c
  | step _ hstep ih => exact hstep.owned ih

/-! ## Budgets whose blocks stay inside -/

/-- The budgets that the initial block does not stick out of. -/
def BudgetFits (budget : ℕ) : Prop :=
  budget ≤ minBlockSize ∨ maxBlockSize ≤ budget ∨ ∃ e, budget = 2 ^ e

/-- A block of the allocator ends inside a budget that fits. -/
theorem Owned.inside {a : Allocator} {live : List Handle} {free : ℕ → List ℕ} {dead : List ℕ}
    {S : Set ℕ} {i : ℕ} (h : Owned (sizeToLevel a.totalSize) a live free dead S)
    (hfits : BudgetFits a.totalSize) (hi : i ∈ S) :
    (a.allBlocks i).offset + (a.allBlocks i).size ≤ a.totalSize := by
  have hinside : (a.data i).offset + levelToSize (a.data i).level ≤
      levelToSize (sizeToLevel a.totalSize) := h.rep.tiling.inside i hi
  rw [Allocator.allBlocks_offset, Allocator.allBlocks_size]
  rcases h.rep.size_eq i hi with ⟨hpos, hsize⟩ | ⟨hlevel, hsize⟩
  · -- The block has been split off; the level of the budget is at least 1.
    rw [hsize]
    refine hinside.trans ?_
    rcases hfits with hsmall | hlarge | ⟨e, hpow⟩
    · rw [sizeToLevel, if_pos hsmall] at hpos
      omega
    · have hlevel : levelToSize (numBuddyLevels - 1) = maxBlockSize := by decide
      refine (levelToSize_le (Nat.le_sub_one_of_lt (sizeToLevel_lt _))).trans ?_
      rw [hlevel]
      exact hlarge
    · have hgt := lt_of_lt_sizeToLevel hpos
      have hmin : minBlockSize ≤ a.totalSize := hgt.le
      by_cases hmax : a.totalSize ≤ maxBlockSize
      · obtain ⟨m, hm, hbudget⟩ := exists_levelToSize_of_pow hpow hmin hmax
        rw [hbudget, sizeToLevel_levelToSize hm]
      · have hlevel : levelToSize (numBuddyLevels - 1) = maxBlockSize := by decide
        have := levelToSize_le (Nat.le_sub_one_of_lt (sizeToLevel_lt a.totalSize))
        omega
  · rw [hlevel] at hinside
    omega

/-- A budget that does not fit lies strictly between two levels. -/
theorem exists_level_of_not_fits {budget : ℕ} (h : ¬ BudgetFits budget) :
    ∃ k, sizeToLevel budget = k + 1 ∧ budget < levelToSize (k + 1) := by
  unfold BudgetFits at h
  push Not at h
  obtain ⟨hsmall, hlarge, hpow⟩ := h
  have hle := le_levelToSize_sizeToLevel hlarge.le
  have hlt : budget < levelToSize (sizeToLevel budget) := by
    refine lt_of_le_of_ne hle fun heq => hpow (8 + sizeToLevel budget) ?_
    rw [Nat.pow_add]
    exact heq.trans (levelToSize_eq _)
  cases hlevel : sizeToLevel budget with
  | zero =>
      rw [hlevel] at hlt
      exact absurd hlt (by simpa [levelToSize, minBlockSize] using hsmall.le)
  | succ k => exact ⟨k, rfl, hlevel ▸ hlt⟩

/-! ## A run that leaves the bounds -/

theorem findNonemptySlot_zero {slots : ℕ → Option ℕ} {count : ℕ} (hcount : 0 < count)
    (h : (slots 0).isSome) : findNonemptySlot slots count = some 0 := by
  obtain ⟨n, rfl⟩ := Nat.exists_eq_succ_of_ne_zero (Nat.ne_of_gt hcount)
  rw [findNonemptySlot, Nat.succ_eq_add_one, List.range_succ_eq_map]
  simp [h]

/-- The allocator holds nothing but the initial block, of level `k + 1`. -/
structure Initial (a : Allocator) (k : ℕ) : Prop where
  heads : a.freeLists = update (fun _ => none) (k + 1) (some 0)
  next : (a.allBlocks 0).next = none
  prev : (a.allBlocks 0).prev = none
  offset : (a.allBlocks 0).offset = 0
  level : (a.allBlocks 0).level = k + 1
  numBlocks : a.numBlocks = 1
  maxBlocks : a.maxBlocks = 1024
  deadBlocks : a.deadBlocks = none

/-- The first request for half of the initial block splits it; the upper half stays on its list. -/
theorem Initial.alloc {a : Allocator} {k : ℕ} (h : Initial a k) (hk : k + 1 < numBuddyLevels)
    (realloc : ℕ → Option Moved) :
    ∃ a', buddyAlloc a realloc (levelToSize k) 0 = some (some 0, a') ∧ a'.freeLists k = some 1 ∧
      a'.allBlocks 1 = ⟨none, none, levelToSize k, levelToSize k, true, k⟩ := by
  have hsplit : ∃ a₁, buddySplit a (realloc (k + 1)) 0 = (some 0, a₁) ∧ a₁.freeLists k = some 0 ∧
      (a₁.allBlocks 0).next = some 1 ∧ (a₁.allBlocks 0).prev = none ∧ (a₁.allBlocks 0).level = k ∧
      a₁.allBlocks 1 = ⟨none, some 0, levelToSize k, levelToSize k, true, k⟩ := by
    have hunlink : unlink a 0 = a.setFreeList (k + 1) none := by
      simp [unlink, h.prev, h.next, h.level]
    have hcapacity : ensureCapacity a (realloc (k + 1)) = some a := by
      simp [ensureCapacity, h.numBlocks, h.maxBlocks]
    have hslot : takeSlot (a.setFreeList (k + 1) none) =
        (1, { a.setFreeList (k + 1) none with numBlocks := 2 }) := by
      simp [takeSlot, h.deadBlocks, h.numBlocks]
    set a₁ := { a.setFreeList (k + 1) none with numBlocks := 2 } with ha₁
    refine ⟨addHalves (halve a₁ 0 1) 0 1, ?_, ?_⟩
    · unfold buddySplit
      rw [if_neg (by rw [h.level]; omega), hcapacity]
      simp only [hunlink, hslot]
    · simp [ha₁, halve, addHalves, h.level, h.heads, h.offset, Allocator.setNext, Allocator.setPrev]
  obtain ⟨a₁, hsplit, hhead, hnext, hprev, hlevel, hupper⟩ := hsplit
  have hfind : buddyFindFreeBlock a realloc k = some (some 0, a₁) := by
    have hslot : findNonemptySlot (fun i => a.freeLists (k + 1 + i)) (numBuddyLevels - (k + 1)) =
        some 0 := findNonemptySlot_zero (by omega) (by simp [h.heads])
    have hnone : a.freeLists k = none := by simp [h.heads]
    have hsome : a.freeLists (k + 1 + 0) = some 0 := by simp [h.heads]
    unfold buddyFindFreeBlock
    simp only [hnone, hslot, hsome]
    rw [splitDown, if_pos (by rw [h.level]; omega), h.level, hsplit]
    change splitDown realloc k (18 + 1) a₁ (some 0) = _
    rw [splitDown, if_neg (by rw [hlevel]; omega)]
  refine ⟨takeBlock a₁ 0, ?_, ?_, ?_⟩
  · have hle : levelToSize k ≤ maxBlockSize :=
      (levelToSize_le (Nat.le_sub_one_of_lt (Nat.lt_of_succ_lt hk))).trans (by decide)
    rw [buddyAlloc, if_neg (by omega), requestLevel_levelToSize (Nat.lt_of_succ_lt hk), hfind]
  · simp [takeBlock, unlink, hprev, hnext, hlevel, Allocator.setPrev]
  · simp [takeBlock, unlink, hprev, hnext, hlevel, Allocator.setPrev, hupper]

/-- The second request gets the upper half. -/
theorem buddyAlloc_of_head {a : Allocator} {k : ℕ} (hk : k < numBuddyLevels)
    (hhead : a.freeLists k = some 1)
    (hblock : a.allBlocks 1 = ⟨none, none, levelToSize k, levelToSize k, true, k⟩)
    (realloc : ℕ → Option Moved) :
    ∃ a', buddyAlloc a realloc (levelToSize k) 0 = some (some 1, a') ∧
      makeHandle a' 1 = ⟨1, levelToSize k, levelToSize k⟩ := by
  refine ⟨takeBlock a 1, ?_, ?_⟩
  · have hle : levelToSize k ≤ maxBlockSize :=
      (levelToSize_le (Nat.le_sub_one_of_lt hk)).trans (by decide)
    rw [buddyAlloc, if_neg (by omega), requestLevel_levelToSize hk]
    simp [buddyFindFreeBlock, hhead]
  · simp [makeHandle, takeBlock, unlink, hblock]

/-- `lgx_gpu_alloc` when the buddy allocator finds a block and there is memory for the handle. -/
theorem gpuAlloc_eq {p : Pool} {realloc : ℕ → Option Moved} {size alignment block : ℕ}
    {type : MemoryType} {a : Allocator} (havailable : p.available type = true)
    (halloc : buddyAlloc (p.allocators type) realloc size alignment = some (some block, a)) :
    ∃ p', gpuAlloc p false true realloc size alignment type =
        some (some (fillAllocation a type block), p') ∧
      p'.available = p.available ∧ p'.allocators type = a := by
  refine ⟨{ p with
      allocators := update p.allocators type a
      usedBudget := update p.usedBudget type
        (wrap64 (p.usedBudget type + (a.allBlocks block).size))
      allocationCount := p.allocationCount + 1 }, ?_, rfl, update_self ..⟩
  unfold gpuAlloc
  rw [if_neg (by simp), if_neg (by simp [havailable]), halloc]
  simp only [Bool.true_eq_false, if_false]

/-- A budget that does not fit lets a run hand out a block past the end of the memory. -/
theorem exists_out_of_bounds (c : PoolConfig) {type : MemoryType}
    (havailable : c.available type = true) (hfits : ¬ BudgetFits (c.budget type)) :
    ∃ r, PoolReachable c r ∧ ∃ x ∈ r.live, x.memoryType = type ∧
      (r.pool.allocators type).totalSize < x.offset + x.size := by
  obtain ⟨k, hlevel, hlt⟩ := exists_level_of_not_fits hfits
  have hk : k + 1 < numBuddyLevels := hlevel ▸ sizeToLevel_lt _
  set p₀ := gpuPoolInit c.props c.eightyPercent c.memory c.mapped with hp₀
  have hinitial : Initial (p₀.allocators type) k := by
    have hlevel' : sizeToLevel (queryMemoryBudget c.props c.eightyPercent type) = k + 1 := hlevel
    constructor <;> simp [hp₀, gpuPoolInit, buddyInit, hlevel']
  obtain ⟨a₁, halloc₁, hhead, hblock⟩ := hinitial.alloc hk fun _ => none
  obtain ⟨a₂, halloc₂, hhandle⟩ :=
    buddyAlloc_of_head (Nat.lt_of_succ_lt hk) hhead hblock fun _ => none
  obtain ⟨p₁, hgpu₁, hsame₁, hp₁⟩ := gpuAlloc_eq (p := p₀) havailable halloc₁
  rw [← hp₁] at halloc₂
  obtain ⟨p₂, hgpu₂, -, hp₂⟩ := gpuAlloc_eq (hsame₁ ▸ havailable) halloc₂
  have hreach := (PoolReachable.init (c := c)).step (.alloc _ _ _ _ _ _ _ _ _ hgpu₁)
  have hreach' := hreach.step (.alloc _ _ _ _ _ _ _ _ _ hgpu₂)
  obtain ⟨handles, free, dead, S, htype⟩ := hreach'.owned.typeOwned type
  refine ⟨_, hreach', fillAllocation a₂ type 1, by simp, rfl, ?_⟩
  rw [htype.total]
  have hoffset : (fillAllocation a₂ type 1).offset = levelToSize k := congrArg Handle.offset hhandle
  have hsize : (fillAllocation a₂ type 1).size = levelToSize k := congrArg Handle.size hhandle
  rw [levelToSize_succ] at hlt
  omega

/-- The bounds hold in every run exactly when the budget of every available memory type is at most
256 B, at least 64 MB, or a power of two. -/
theorem bounds_iff (c : PoolConfig) :
    (∀ r, PoolReachable c r → ∀ x ∈ r.live,
        x.offset + x.size ≤ (r.pool.allocators x.memoryType).totalSize) ↔
      ∀ type, c.available type = true → BudgetFits (c.budget type) := by
  constructor
  · intro h type havailable
    by_contra hfits
    obtain ⟨r, hreach, x, hx, rfl, hlt⟩ := exists_out_of_bounds c havailable hfits
    have := h r hreach x hx
    omega
  · intro hfits r hreach x hx
    have howned := hreach.owned
    obtain ⟨handles, free, dead, S, htype⟩ := howned.typeOwned x.memoryType
    have hhandle := htype.owned.of_live _ ((htype.mem_iff _).mpr ⟨x, hx, rfl, rfl⟩)
    have hO := htype.owned
    rw [← htype.total] at hO
    have hfits' := hfits _ (howned.live_available x hx)
    rw [← htype.total] at hfits'
    have hinside := hO.inside hfits' hhandle.1.1
    have hoffset := congrArg Handle.offset hhandle.2
    have hsize := congrArg Handle.size hhandle.2
    simp only [makeHandle] at hoffset hsize
    omega

/-- One host-visible memory type in a heap of 48 MB: 80 % of the heap is no power of two. -/
def smallHeapConfig : PoolConfig :=
  { props := { memoryTypes := [⟨6, 0⟩], heapSize := fun _ => 48 * 1024 * 1024 }
    eightyPercent := fun h => h * 4 / 5
    memory := fun _ => 1
    mapped := fun _ => none }

theorem bounds_fail_smallHeap :
    smallHeapConfig.budget .hostVisible = 40265318 ∧
      ¬ ∀ r, PoolReachable smallHeapConfig r → ∀ x ∈ r.live,
        x.offset + x.size ≤ (r.pool.allocators x.memoryType).totalSize := by
  have hbudget : smallHeapConfig.budget .hostVisible = 40265318 := by decide
  refine ⟨hbudget, fun h => ?_⟩
  have hfits : ¬ BudgetFits (smallHeapConfig.budget .hostVisible) := by
    rw [hbudget]
    rintro (hsmall | hlarge | ⟨e, hpow⟩)
    · exact absurd hsmall (by decide)
    · exact absurd hlarge (by decide)
    · have hlow : 25 < e := (Nat.pow_lt_pow_iff_right (by omega : 1 < 2)).mp (by omega)
      have hhigh : e < 26 := (Nat.pow_lt_pow_iff_right (by omega : 1 < 2)).mp (by omega)
      omega
  obtain ⟨r, hreach, x, hx, htype, hlt⟩ := exists_out_of_bounds smallHeapConfig (by decide) hfits
  have hle := h r hreach x hx
  rw [htype] at hle
  omega

end LgxRuntime.GpuPool
