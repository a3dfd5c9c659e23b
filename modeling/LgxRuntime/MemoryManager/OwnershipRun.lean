import LgxRuntime.MemoryManager.OwnershipSteps

/-!
# Runs of the memory manager

A run is any interleaving of steps in which `malloc` keeps its promises and clients free and write only
what is live.  If every step is `Orderly`, the log of the run is safe: no live block is granted again or
passed to `free`, and no block is passed to `free` twice.  The three exceptions are steps that the code
does not guard against.
-/

namespace LgxRuntime.MemoryManager

open Function (update update_self update_of_ne)
open BlockLog (Event live held usable lastEvent Safe)
open State (CacheOutcome Prewarm allBlocks)

variable {Thread : Type} [DecidableEq Thread]

/-! ## Allocation, path by path -/

theorem getHotPathSizeClass_spec {size hotClass : ℕ} (h : getHotPathSizeClass size = some hotClass) :
    hotClass < hotPathSizeClasses ∧ size ≤ hotPathSize hotClass := by
  unfold getHotPathSizeClass at h
  -- the size of each class is the bound that its branch has checked
  split_ifs at h with hsize hsize hsize hsize hsize hsize hsize hsize <;>
    obtain rfl := Option.some.inj h <;> exact ⟨by decide, hsize⟩

theorem State.getThreadCache_nextFreeOf (s : State Thread) (t : Thread) (outcome : CacheOutcome) :
    (s.getThreadCache t outcome).2.nextFreeOf = s.nextFreeOf := by
  unfold State.getThreadCache
  cases hcache : s.cache t with
  | some cache => rfl
  | none =>
      cases outcome with
      | unavailable => rfl
      | unregistered w => rfl
      | created w =>
          funext t' hotClass
          rw [State.nextFreeOf_setCache]
          split
          · rename_i htt
            simp [htt, State.nextFreeOf, hcache]
          · rfl

/-- A hot path counter that has moved belongs to a cache that exists, so nothing is set up. -/
theorem State.getThreadCache_of_counter {s : State Thread} {t : Thread} {outcome : CacheOutcome}
    {hotClass : ℕ} (hcount : 0 < (s.getThreadCache t outcome).2.nextFreeOf t hotClass) :
    (s.getThreadCache t outcome).2 = s := by
  rw [s.getThreadCache_nextFreeOf] at hcount
  cases hcache : s.cache t with
  | none => simp [State.nextFreeOf, hcache] at hcount
  | some cache => simp [State.getThreadCache, hcache]

theorem MallocOk.of_getThreadCache {s : State Thread} {t : Thread} {outcome : CacheOutcome}
    {answer : Option (ℕ × ℕ)} {size : ℕ} (ho : OutcomeOk s outcome)
    (h : MallocOk (s.getThreadCache t outcome).2 answer size) : MallocOk s answer size := by
  intro p room heq
  obtain ⟨⟨hpos, hheld, hpools⟩, hroom⟩ := h p room heq
  refine ⟨⟨hpos, fun hmem => hheld (State.getThreadCache_log ho t hmem).2.2, ?_⟩, hroom⟩
  rwa [(s.getThreadCache_frame t outcome).2.2.2.2.1] at hpools

/-- A hot path counter that no longer fits 32 bits points at a block that is at home, or at none. -/
def WrapsHome (s : State Thread) (t : Thread) (size : ℕ) : Prop :=
  ∀ hotClass, getHotPathSizeClass size = some hotClass → 2 ^ 32 ≤ s.nextFreeOf t hotClass →
    ∀ p, (s.tableOf t hotClass)[s.nextFreeOf t hotClass % 2 ^ 32]? = some p → AtHome s.log t p

namespace Owned

variable {s s' : State Thread} {place : ℕ → Option (Place Thread)} {stack : ℕ → List ℕ} {t : Thread}

/-- The block that a hot path counter points at is at home. -/
theorem atHome_of_counter (h : Owned s place stack) {size hotClass : ℕ} {outcome : CacheOutcome}
    (ho : OutcomeOk s outcome) (hwrap : WrapsHome s t size)
    (hclass : getHotPathSizeClass size = some hotClass) (p : ℕ)
    (hentry : ((s.getThreadCache t outcome).2.tableOf t hotClass)[
      (s.getThreadCache t outcome).2.nextFreeOf t hotClass % 2 ^ 32]? = some p) :
    AtHome (s.getThreadCache t outcome).2.log t p := by
  have hlt := (getHotPathSizeClass_spec hclass).1
  by_cases hcount : (s.getThreadCache t outcome).2.nextFreeOf t hotClass < 2 ^ 32
  · rw [Nat.mod_eq_of_lt hcount] at hentry
    exact Or.inl ((h.getThreadCache (t := t) ho).untouched t hotClass hlt _ p hentry le_rfl)
  · have hwrapped := not_lt.mp hcount
    have hsame := State.getThreadCache_of_counter ((Nat.two_pow_pos 32).trans_le hwrapped)
    rw [hsame] at hentry hwrapped ⊢
    exact hwrap hotClass hclass hwrapped p hentry

omit [DecidableEq Thread] in
/-- The hot path counters may advance. -/
theorem advance (h : Owned s place stack) (hlog : s'.log = s.log) (hpools : s'.threadPools = s.threadPools)
    (hpc : s'.pc = s.pc) (hhead : s'.poolHead = s.poolHead) (hblock : s'.block = s.block)
    (hslots : s'.slotsOf = s.slotsOf) (htable : s'.tableOf = s.tableOf)
    (hnext : ∀ t hotClass, s.nextFreeOf t hotClass ≤ s'.nextFreeOf t hotClass) :
    Owned s' place stack := by
  have htables : s'.table = s.table := by
    funext t
    rw [State.table, htable, State.table]
  constructor
  · exact hlog ▸ h.safe
  · exact hlog ▸ h.live_iff
  · exact hslots ▸ h.slots_nodup
  · exact hslots ▸ h.slots_place
  · rw [hhead, hblock]
    exact h.linked
  · exact h.stack_place
  · exact hpc ▸ h.carried
  · rw [hpc, hblock]
    exact h.pcOk
  · exact hlog ▸ h.held_of_place
  · rw [hlog, hpools]
    exact h.valid
  · exact htables ▸ h.table_nodup
  · intro t hotClass hclass i p hentry hle
    rw [htable] at hentry
    rw [hlog]
    exact h.untouched t hotClass hclass i p hentry ((hnext t hotClass).trans hle)
  · rw [hlog, htables]
    exact h.atHome

/-- `allocate_ultra_fast`, unless the counter has wrapped to a block that is not at home. -/
theorem allocateUltraFast (h : Owned s place stack) {size : ℕ} {outcome : CacheOutcome}
    (ho : OutcomeOk s outcome) (hwrap : WrapsHome s t size) :
    ∃ place', Owned (s.allocateUltraFast t size outcome) place' stack := by
  unfold State.allocateUltraFast
  cases hclass : getHotPathSizeClass size with
  | none => exact ⟨place, h.goto rfl trivial⟩
  | some hotClass =>
      have hlt := (getHotPathSizeClass_spec hclass).1
      have h₁ := h.getThreadCache (t := t) ho
      have hhome := h.atHome_of_counter ho hwrap hclass
      obtain ⟨hcache, -⟩ := s.getThreadCache_frame t outcome
      simp only
      generalize s.getThreadCache t outcome = result at h₁ hhome hcache ⊢
      obtain ⟨found, s₁⟩ := result
      simp only at h₁ hhome hcache ⊢
      cases found with
      | none => exact ⟨place, h₁.goto rfl trivial⟩
      | some cache =>
          rw [State.tableOf_of_cache hcache.symm, State.nextFreeOf_of_cache hcache.symm] at hhome
          simp only
          -- a counter that has run past the table is the only other thing that changes
          have hbump : Owned (s₁.setCache t (some { cache with
              hotPath := { cache.hotPath with
                nextFree := update cache.hotPath.nextFree hotClass
                  (cache.hotPath.nextFree hotClass + 1) } })) place stack := by
            refine h₁.advance rfl rfl rfl rfl rfl (State.slotsOf_setCache_of_eq _ hcache.symm rfl)
              (State.tableOf_setCache_of_eq _ hcache.symm rfl) fun t' hotClass' => ?_
            rw [State.nextFreeOf_setCache]
            split
            · rename_i htt
              rw [htt, State.nextFreeOf_of_cache hcache.symm]
              by_cases hcc : hotClass' = hotClass
              · simp [hcc]
              · simp [hcc]
            · exact le_rfl
          split
          · exact ⟨place, hbump.goto rfl trivial⟩
          · cases hentry : (cache.hotPath.preallocatedBlocks hotClass)[
                cache.hotPath.nextFree hotClass % 2 ^ 32]? with
            | none => exact ⟨place, hbump.goto rfl trivial⟩
            | some p =>
                exact ⟨_, h₁.grantHot hcache.symm hlt hentry (Nat.mod_le _ _) (hhome p hentry)⟩

/-- `allocate_small`. -/
theorem allocateSmall (h : Owned s place stack) {size : ℕ} {again chaos : Bool}
    {outcome : CacheOutcome} {answer : Option (ℕ × ℕ)} (ho : OutcomeOk s outcome)
    (hanswer : MallocOk (s.getThreadCache t outcome).2 answer size) :
    ∃ place', Owned (s.allocateSmall t size again chaos outcome answer) place' stack := by
  have hanswer₀ := hanswer.of_getThreadCache ho
  unfold State.allocateSmall
  split
  · exact ⟨place, h.goto rfl trivial⟩
  cases hclass : getSizeClassIndex size with
  | none => exact h.grantMalloc hanswer₀ rfl trivial
  | some c =>
      have h₁ := h.getThreadCache (t := t) ho
      obtain ⟨hcache, -⟩ := s.getThreadCache_frame t outcome
      simp only
      generalize s.getThreadCache t outcome = result at h₁ hanswer hcache ⊢
      obtain ⟨found, s₁⟩ := result
      simp only at h₁ hanswer hcache ⊢
      cases found with
      | none => exact h₁.grantMalloc hanswer rfl trivial
      | some cache =>
          simp only
          cases hslots : cache.slots c with
          | nil => exact ⟨place, h₁.goto rfl trivial⟩
          | cons p rest => exact ⟨_, h₁.grantSlot hcache.symm hslots⟩

/-- `lgx_lockfree_pop` once it has loaded the head. -/
theorem popWith (h : Owned s place stack) {size c head request : ℕ} {again : Bool}
    {answer : Option (ℕ × ℕ)} (hanswer : MallocOk s answer request) :
    ∃ place', Owned (s.popWith t size c again head answer) place' stack := by
  unfold State.popWith
  split
  · exact h.grantMalloc hanswer rfl trivial
  · rename_i hhead
    exact ⟨place, h.goto rfl hhead⟩

end Owned

/-! ## Steps and runs -/

/-- The steps that keep the blocks apart.
* A hot path counter that has wrapped in 32 bits, so that positions of the table come up again, comes
  back to a block that is at home.
* A compare-and-swap of `lgx_lockfree_pop` that finds the head it has loaded finds it linked to the block
  it has read: the head has not been popped and pushed again meanwhile.
* A thread exits when every block of its hot path table was last acquired by that thread or freed on it:
  none is live, in another cache or in a pool, or already passed to `free`. -/
def Orderly (s : State Thread) : Action Thread → Prop
  | .alloc t size _ _ => WrapsHome s t size
  | .popCas t spurious _ => ∀ size c again head next, s.pc t = .popCas size c again head next →
      spurious = false → s.poolHead c = head → (s.block head).next = next
  | .exit t => ∀ p ∈ s.table t, AtHome s.log t p
  | _ => True

/-- The pools grow only by a block that a thread is about to push. -/
def PoolsGrow (s s' : State Thread) (stack stack' : ℕ → List ℕ) : Prop :=
  ∀ c, ∀ p ∈ stack' c, p ∈ stack c ∨ s'.log = s.log ∧ ∃ t head, s.pc t = .pushCas c p head

/-- One orderly step. -/
theorem Owned.step {s s' : State Thread} {place : ℕ → Option (Place Thread)} {stack : ℕ → List ℕ}
    {a : Action Thread} (h : Owned s place stack) (hadmissible : Admissible s a) (horderly : Orderly s a)
    (hstep : step s a = some s') :
    ∃ stack', (∃ place', Owned s' place' stack') ∧ PoolsGrow s s' stack stack' := by
  have hsame : PoolsGrow s s' stack stack := fun _ _ hp => Or.inl hp
  cases transition_of_step hstep with
  | alloc size outcome answer hpc =>
      refine ⟨stack, ?_, hsame⟩
      unfold State.alloc
      split
      · exact ⟨place, h⟩
      split
      · exact h.allocateUltraFast hadmissible.1 horderly
      · exact h.grantMalloc hadmissible.2 rfl trivial
  | allocAligned size alignment answer hpc =>
      refine ⟨stack, ?_, hsame⟩
      unfold State.allocAligned
      split
      · exact ⟨place, h⟩
      · exact h.grantMalloc hadmissible rfl trivial
  | small chaos outcome answer hpc =>
      exact ⟨stack, h.allocateSmall hadmissible.1 (hadmissible.2 _ _ hpc), hsame⟩
  | retry answer hpc =>
      refine ⟨stack, ?_, hsame⟩
      unfold State.retry
      split
      · exact ⟨place, h.goto rfl trivial⟩
      split
      · exact ⟨place, h.goto rfl trivial⟩
      · exact h.grantMalloc (hadmissible _ _ hpc) rfl trivial
  | popLoad answer hpc => exact ⟨stack, h.popWith (hadmissible _ _ _ hpc), hsame⟩
  | @popNext t size c head again hpc =>
      have hhead := h.pcOk t
      rw [hpc] at hhead
      exact ⟨stack, ⟨place, h.goto rfl hhead⟩, hsame⟩
  | @popCas t size c head next again spurious answer hpc =>
      unfold State.popCas at hsame ⊢
      split
      · rename_i hswap
        obtain rfl := horderly size c again head next hpc (by simpa using hswap.2) hswap.1
        obtain ⟨rest, hrest, h'⟩ := h.popSwap hpc hswap.1
        refine ⟨update stack c rest, ⟨_, h'⟩, fun c' p hp => Or.inl ?_⟩
        by_cases hcc : c' = c
        · rw [hcc, update_self] at hp
          rw [hcc, hrest]
          exact List.mem_cons_of_mem _ hp
        · rwa [update_of_ne hcc] at hp
      · exact ⟨stack, h.popWith (hadmissible _ _ _ _ _ hpc), fun _ _ hp => Or.inl hp⟩
  | popClear hpc => exact ⟨stack, ⟨_, h.popClear hpc⟩, hsame⟩
  | free p outcome hpc => exact ⟨stack, h.free hadmissible.1 hadmissible.2, hsame⟩
  | pushLoad hpc => exact ⟨stack, ⟨place, h.link _ (by rw [hpc, Pc.carries])⟩, hsame⟩
  | @pushCas t c p head spurious hpc =>
      unfold State.pushCas
      split
      · rename_i hswap
        refine ⟨update stack c (p :: stack c), ⟨_, h.pushSwap hpc hswap.1⟩, fun c' q hq => ?_⟩
        by_cases hcc : c' = c
        · subst hcc
          rw [update_self] at hq
          obtain rfl | hq := List.mem_cons.mp hq
          · exact Or.inr ⟨rfl, t, head, hpc⟩
          · exact Or.inl hq
        · rw [update_of_ne hcc] at hq
          exact Or.inl hq
      · exact ⟨stack, ⟨place, h.link c (by rw [hpc, Pc.carries])⟩, fun _ _ hp => Or.inl hp⟩
  | exit hpc => exact ⟨stack, h.exitThread horderly, hsame⟩
  | write p contents => exact ⟨stack, ⟨place, h.write hadmissible contents⟩, hsame⟩

/-- The states of the runs all of whose steps meet `condition`. -/
inductive Reachable (condition : State Thread → Action Thread → Prop) : State Thread → Prop
  | init (threadPools : ℕ) (contents : ℕ → FreeBlock) : Reachable condition (init threadPools contents)
  | step {s s' : State Thread} (a : Action Thread) (hreach : Reachable condition s)
      (hadmissible : Admissible s a) (hcondition : condition s a) (hstep : step s a = some s') :
      Reachable condition s'

omit [DecidableEq Thread] in
theorem Owned.init (threadPools : ℕ) (contents : ℕ → FreeBlock) :
    Owned (MemoryManager.init threadPools contents : State Thread) (fun _ => none) fun _ => [] := by
  refine ⟨trivial, by simp [MemoryManager.init, live], ?_, ?_, ?_, by simp, ?_, ?_, by simp,
    by simp [MemoryManager.init, held], ?_, ?_, ?_⟩
  · simp [MemoryManager.init, State.slotsOf]
  · simp [MemoryManager.init, State.slotsOf]
  · simp [MemoryManager.init, toPtr]
  · simp [MemoryManager.init, Pc.carries]
  · exact fun _ => trivial
  · intro t
    have htable : (MemoryManager.init threadPools contents : State Thread).tableOf t = fun _ => [] := rfl
    rw [State.table, htable, allBlocks_nil]
    exact List.nodup_nil
  · simp [MemoryManager.init, State.tableOf]
  · intro t p hp
    obtain ⟨hotClass, -, hmem⟩ := mem_allBlocks.mp hp
    simp [MemoryManager.init, State.tableOf] at hmem

theorem Reachable.owned {condition : State Thread → Action Thread → Prop}
    (hcondition : ∀ s a, condition s a → Orderly s a) {s : State Thread} (h : Reachable condition s) :
    ∃ place stack, Owned s place stack := by
  induction h with
  | init threadPools contents => exact ⟨_, _, Owned.init threadPools contents⟩
  | step a _ hadmissible hok hstep ih =>
      obtain ⟨place, stack, howned⟩ := ih
      obtain ⟨stack', ⟨place', howned'⟩, -⟩ := howned.step hadmissible (hcondition _ a hok) hstep
      exact ⟨place', stack', howned'⟩

/-- In every run of orderly steps no live block is granted again or released, and no block is released
twice. -/
theorem safe_of_orderly {s : State Thread} (h : Reachable Orderly s) : Safe s.log := by
  obtain ⟨place, stack, howned⟩ := h.owned fun _ _ horderly => horderly
  exact howned.safe

/-! ## Two short runs

One thread allocates 64 bytes and exits, with and without freeing them first. -/

/-- Blocks of `malloc`, 16 KB apart. -/
def sampleBlock (bank hotClass i : ℕ) : ℕ :=
  ((bank * hotPathSizeClasses + hotClass) * hotPathCacheSize + i + 1) * 16384

/-- One class of a full table. -/
@[irreducible]
def sampleBlocks (bank hotClass : ℕ) : List ℕ :=
  (List.range hotPathCacheSize).map (sampleBlock bank hotClass)

/-- Full tables for thread number `bank`; `malloc` rounds the sizes up by `slack` bytes. -/
def samplePrewarm (bank slack : ℕ) : Prewarm where
  blocks := sampleBlocks bank
  usable p := hotPathSize ((p / 16384 - 1) / hotPathCacheSize % hotPathSizeClasses) + slack

theorem sampleBlock_bounds {bank hotClass i : ℕ} (hclass : hotClass < hotPathSizeClasses)
    (hi : i < hotPathCacheSize) :
    bank * 2 ^ 26 < sampleBlock bank hotClass i ∧ sampleBlock bank hotClass i ≤ (bank + 1) * 2 ^ 26 := by
  simp only [sampleBlock, hotPathSizeClasses, hotPathCacheSize] at *
  omega

theorem sampleBlock_inj {bank hotClass hotClass' i j : ℕ} (hi : i < hotPathCacheSize)
    (hj : j < hotPathCacheSize) (heq : sampleBlock bank hotClass i = sampleBlock bank hotClass' j) :
    hotClass = hotClass' ∧ i = j := by
  simp only [sampleBlock, hotPathSizeClasses, hotPathCacheSize] at *
  omega

theorem samplePrewarm_usable {bank slack hotClass i : ℕ} (hclass : hotClass < hotPathSizeClasses)
    (hi : i < hotPathCacheSize) :
    (samplePrewarm bank slack).usable (sampleBlock bank hotClass i) = hotPathSize hotClass + slack := by
  have hback : (sampleBlock bank hotClass i / 16384 - 1) / hotPathCacheSize % hotPathSizeClasses =
      hotClass := by
    simp only [sampleBlock, hotPathSizeClasses, hotPathCacheSize] at *
    omega
  simp only [samplePrewarm, hback]

theorem mem_sampleBlocks {bank hotClass p : ℕ} : p ∈ sampleBlocks bank hotClass ↔
    ∃ i < hotPathCacheSize, sampleBlock bank hotClass i = p := by
  unfold sampleBlocks
  simp only [List.mem_map, List.mem_range]

theorem mem_samplePrewarm {bank slack p : ℕ} : p ∈ allBlocks (samplePrewarm bank slack).blocks ↔
    ∃ hotClass < hotPathSizeClasses, ∃ i < hotPathCacheSize, sampleBlock bank hotClass i = p := by
  simp only [mem_allBlocks, samplePrewarm, mem_sampleBlocks]

theorem nodup_samplePrewarm (bank slack : ℕ) : (allBlocks (samplePrewarm bank slack).blocks).Nodup := by
  rw [allBlocks, List.nodup_flatMap]
  constructor
  · intro hotClass _
    simp only [samplePrewarm]
    unfold sampleBlocks
    refine List.Nodup.map_on (fun i hi j hj heq => ?_) List.nodup_range
    exact (sampleBlock_inj (List.mem_range.mp hi) (List.mem_range.mp hj) heq).2
  · refine List.pairwise_lt_range.imp fun {a b} hab p hp hp' => ?_
    obtain ⟨i, hi, rfl⟩ := mem_sampleBlocks.mp hp
    obtain ⟨j, hj, heq⟩ := mem_sampleBlocks.mp hp'
    exact hab.ne' (sampleBlock_inj hj hi heq).1

theorem samplePrewarm_length (bank slack hotClass : ℕ) :
    ((samplePrewarm bank slack).blocks hotClass).length ≤ hotPathCacheSize := by
  simp only [samplePrewarm]
  unfold sampleBlocks
  rw [List.length_map, List.length_range]

theorem samplePrewarm_ok {s : State ℕ} {bank slack : ℕ} (hbank : bank < maxThreads)
    (hpools : s.threadPools = 2 ^ 40) (hheld : ∀ p ∈ held s.log, p ≤ bank * 2 ^ 26) :
    PrewarmOk s (samplePrewarm bank slack) := by
  refine ⟨samplePrewarm_length bank slack, nodup_samplePrewarm bank slack, fun p hp => ?_,
    fun hotClass hclass p hp => ?_⟩
  · obtain ⟨hotClass, hclass, i, hi, rfl⟩ := mem_samplePrewarm.mp hp
    obtain ⟨hlow, hhigh⟩ := @sampleBlock_bounds bank hotClass i hclass hi
    refine ⟨by omega, fun hmem => absurd (hheld _ hmem) (not_le.mpr hlow), ?_⟩
    simp only [inThreadPools, hpools, decide_eq_false_iff_not]
    simp only [maxThreads] at hbank
    omega
  · obtain ⟨i, hi, rfl⟩ := mem_sampleBlocks.mp hp
    rw [samplePrewarm_usable hclass hi]
    exact Nat.le_add_right ..

/-- The block that the first request of up to 64 bytes gets. -/
def firstBlock : ℕ :=
  sampleBlock 0 0 0

/-- The initial state of the runs below. -/
def sampleInit : State ℕ :=
  init (2 ^ 40) fun _ => ⟨0, 0⟩

/-- Thread 0 has allocated 64 bytes. -/
def sampleAllocated (slack : ℕ) : State ℕ :=
  sampleInit.alloc 0 64 (.created (samplePrewarm 0 slack)) none

/-- Thread 0 has freed them again. -/
def sampleFreed (slack : ℕ) : State ℕ :=
  (sampleAllocated slack).free 0 firstBlock .unavailable

theorem sampleAllocated_eq (slack : ℕ) : sampleAllocated slack =
    ((sampleInit.prewarm 0 (samplePrewarm 0 slack)).setCache 0
      (some ⟨fun _ => [], (samplePrewarm 0 slack).blocks, update (fun _ => 0) 0 1⟩)).grant 0 firstBlock 64 := by
  have hentry : ((samplePrewarm 0 slack).blocks 0)[0]? = some firstBlock := by
    simp only [samplePrewarm]
    unfold sampleBlocks
    simp [hotPathCacheSize, firstBlock]
  simp only [sampleAllocated, State.alloc, maxHotSize, State.allocateUltraFast, getHotPathSizeClass]
  simp [State.getThreadCache, sampleInit, init, hotPathCacheSize, hentry, State.setCache, State.prewarm]

theorem sampleAllocated_log (slack : ℕ) : (sampleAllocated slack).log = .granted 0 firstBlock 64 ::
    BlockLog.acquireAll 0 (samplePrewarm 0 slack).usable (allBlocks (samplePrewarm 0 slack).blocks) [] := by
  rw [sampleAllocated_eq]
  rfl

theorem firstBlock_mem (slack : ℕ) : firstBlock ∈ allBlocks (samplePrewarm 0 slack).blocks :=
  mem_samplePrewarm.mpr ⟨0, by decide, 0, by decide, rfl⟩

theorem firstBlock_mem_live (slack : ℕ) : firstBlock ∈ live (sampleAllocated slack).log := by
  rw [sampleAllocated_log]
  exact Set.mem_insert _ _

theorem sampleAllocated_reachable {condition : State ℕ → Action ℕ → Prop} {slack : ℕ}
    (hcondition : condition sampleInit (.alloc 0 64 (.created (samplePrewarm 0 slack)) none)) :
    Reachable condition (sampleAllocated slack) := by
  have hadmissible : Admissible sampleInit (.alloc 0 64 (.created (samplePrewarm 0 slack)) none) := by
    refine ⟨samplePrewarm_ok (by decide) rfl ?_, ?_⟩
    · simp [sampleInit, init, held]
    · simp [MallocOk]
  exact .step _ (.init (2 ^ 40) fun _ => ⟨0, 0⟩) hadmissible hcondition rfl

theorem sampleAllocated_cache (slack : ℕ) : (sampleAllocated slack).cache 0 =
    some ⟨fun _ => [], (samplePrewarm 0 slack).blocks, update (fun _ => 0) 0 1⟩ := by
  rw [sampleAllocated_eq]
  simp [State.grant, State.goto, State.emit, State.setCache]

theorem sampleAllocated_pc (slack : ℕ) (t : ℕ) : (sampleAllocated slack).pc t = .idle := by
  rw [sampleAllocated_eq]
  simp [State.grant, State.goto, State.emit, State.setCache, State.prewarm, sampleInit, init]

theorem sampleAllocated_threadPools (slack : ℕ) : (sampleAllocated slack).threadPools = 2 ^ 40 := by
  rw [sampleAllocated_eq]
  rfl

theorem sampleFreed_eq (slack : ℕ) :
    sampleFreed slack = (sampleAllocated slack).emit (.returned 0 firstBlock) := by
  have hpools : inThreadPools (sampleAllocated slack).threadPools firstBlock = false := by
    rw [sampleAllocated_threadPools]
    decide
  simp [sampleFreed, State.free, hpools, State.getThreadCache, State.emit, sampleAllocated_cache,
    firstBlock_mem]

/-- A thread that frees what it has allocated, and then exits, is orderly. -/
theorem safe_after_free_and_exit : Reachable Orderly ((sampleFreed 8).exitThread 0) ∧
    Safe ((sampleFreed 8).exitThread 0).log := by
  have hallocated : Reachable Orderly (sampleAllocated 8) := by
    refine sampleAllocated_reachable fun hotClass _ hcount => ?_
    simp [State.nextFreeOf, sampleInit, init] at hcount
  have hfreed : Reachable Orderly (sampleFreed 8) := by
    refine .step (.free 0 firstBlock .unavailable) hallocated ⟨firstBlock_mem_live 8, trivial⟩ trivial ?_
    simp only [step, sampleAllocated_pc]
    rfl
  have htable : (sampleFreed 8).table 0 = allBlocks (samplePrewarm 0 8).blocks := by
    rw [sampleFreed_eq]
    exact State.table_of_cache (sampleAllocated_cache 8)
  have hhome : ∀ p ∈ (sampleFreed 8).table 0, AtHome (sampleFreed 8).log 0 p := by
    intro p hp
    rw [htable] at hp
    rw [sampleFreed_eq, State.emit, sampleAllocated_log]
    by_cases hfirst : p = firstBlock
    · rw [hfirst]
      exact atHome_returned.mpr rfl
    · refine Or.inl ⟨(samplePrewarm 0 8).usable p, ?_⟩
      rw [BlockLog.lastEvent_of_ne (Ne.symm hfirst), BlockLog.lastEvent_of_ne (Ne.symm hfirst)]
      exact (BlockLog.acquireAll_of_mem hp).1
  have hreach : Reachable Orderly ((sampleFreed 8).exitThread 0) := by
    refine .step (.exit 0) hfreed trivial hhome ?_
    have hpc : (sampleFreed 8).pc 0 = .idle := by
      rw [sampleFreed_eq]
      exact sampleAllocated_pc 8 0
    simp only [step, hpc]
  exact ⟨hreach, safe_of_orderly hreach⟩

/-- A thread that exits while a client still has a block of its hot path table frees that block. -/
theorem not_safe_of_exit_with_live : ¬ ∀ s : State ℕ, Reachable (fun _ _ => True) s → Safe s.log := by
  intro hall
  have hallocated : Reachable (fun _ _ => True) (sampleAllocated 8) := sampleAllocated_reachable trivial
  have hreach : Reachable (fun _ _ => True) ((sampleAllocated 8).exitThread 0) := by
    refine .step (.exit 0) hallocated trivial trivial ?_
    simp only [step, sampleAllocated_pc]
  have hsafe := hall _ hreach
  simp only [State.exitThread, sampleAllocated_cache] at hsafe
  refine hsafe.notMem_live_of_releaseAll (List.mem_append_right _ ?_) (firstBlock_mem_live 8)
  have hslots : State.slotFrees (sampleAllocated 8).threadPools
      ⟨fun _ => [], (samplePrewarm 0 8).blocks, update (fun _ => 0) 0 1⟩ = [] := by
    simp [State.slotFrees]
  have hpool : fromPool (sampleAllocated 8).threadPools firstBlock = false := by
    rw [sampleAllocated_threadPools]
    decide
  refine List.mem_filter.mpr ⟨mem_allBlocks.mpr ⟨0, by decide, ?_⟩, ?_⟩
  · rw [List.take_of_length_le (samplePrewarm_length 0 8 0)]
    exact mem_sampleBlocks.mpr ⟨0, by decide, rfl⟩
  · have hne : firstBlock ≠ 0 := by decide
    simp [hslots, hpool, hne]

end LgxRuntime.MemoryManager
