import LgxRuntime.HugePages.Regions

/-!
# Where memory goes back to

`lgx_memory_manager_init` decides by a flag whether to try huge pages, and `lgx_memory_manager_shutdown`
reads the same flag to choose between `lgx_hugepages_free` and `free`, although the pools may have come from
`malloc` with the flag set.  The exits of `lgx_memory_manager_init` after the pools have memory, and the one
of `allocate_slab` without a bitmap, call `free` even if the memory was mapped.
-/

namespace LgxRuntime.HugePages

open RegionLog (Event Settled held)

variable {state : HugepageState} {o : Outcomes} {rt : Runtime} {mgr ptr globalPool tracked : ℕ}
  {family back : Family} {useHugePages : Bool}

/-! ## The conditions -/

/-- `use_huge_pages`, as `lgx_memory_manager_init` sets it. -/
def usesHugePages (state : HugepageState) (o : Outcomes) : Bool :=
  if state.initialized then state.available else o.detected && o.adapter != some false

/-- What `lgx_hugepages_alloc_selective` returns for a huge page or more. -/
def mapped (state : HugepageState) (available : Bool) (mmapHuge mmapPlain : Option ℕ) : Option ℕ :=
  if available && state.strategy ≠ .never then mmapHuge.or mmapPlain else none

/-- Nothing fails after the pools have memory. -/
def Completes (o : Outcomes) : Prop :=
  (∀ i, o.poolMutex i = true) ∧ o.cacheKey = true ∧ o.cacheListMutex = true ∧ o.intentMutex = true ∧
    o.tracked ≠ none

/-- The memory of the manager goes back where it came from: there is no memory for the pools, or it is mapped
and nothing fails afterwards, or it comes from `malloc` and the flag is not set or something fails. -/
def ManagerFits (state : HugepageState) (o : Outcomes) : Prop :=
  o.manager = none ∨ o.lockFreePool = false ∨
    (mapped state (usesHugePages state o) o.mmapHuge o.mmapPlain ≠ none ∧ Completes o) ∨
      (mapped state (usesHugePages state o) o.mmapHuge o.mmapPlain = none ∧
        (o.pool = none ∨ usesHugePages state o = false ∨ ¬ Completes o))

/-- The memory of a slab goes back where it came from: the size is not that of a slab, or the slab gets no
memory, or the memory is not mapped, or there is a bitmap. -/
def SlabFits (state : HugepageState) (objectSize : ℕ) (o : SlabOutcomes) : Prop :=
  objectSize = 0 ∨ objectSize > slabSize ∨ objectSize &&& (objectSize - 1) ≠ 0 ∨ o.slab = none ∨
    mapped state (state.initialized && state.available) o.mmapHuge o.mmapPlain = none ∨ o.bitmap ≠ none

/-! ## Logs -/

/-- The log of an initialization that completes, and of a shutdown that gives the pools to `back`. -/
def completedLog (mgr globalPool tracked : ℕ) (family back : Family) : List (Event Family ℕ) :=
  [.released .malloc mgr, .released .malloc tracked, .released back globalPool,
    .acquired .malloc tracked, .acquired family globalPool, .acquired .malloc mgr]

/-- The log of a holder and its memory, both of which go to `free`. -/
def abandonedLog (holder memory : ℕ) (family : Family) : List (Event Family ℕ) :=
  [.released .malloc holder, .released .malloc memory, .acquired family memory, .acquired .malloc holder]

theorem settled_completedLog_iff :
    Settled (completedLog mgr globalPool tracked family back) ↔ family = back := by
  constructor
  · intro h
    have hcount := h.count_eq .hugePages globalPool
    cases family <;> cases back <;> simp [completedLog] at hcount ⊢
  · rintro rfl
    have hacquired : held [Event.acquired .malloc tracked, .acquired family globalPool,
        .acquired .malloc mgr] =
        some [(Family.malloc, tracked), (family, globalPool), (.malloc, mgr)] := rfl
    have hreleased : held (.released family globalPool :: [Event.acquired .malloc tracked,
        .acquired family globalPool, .acquired .malloc mgr]) =
        some [(Family.malloc, tracked), (.malloc, mgr)] := by
      rw [RegionLog.held_released hacquired (by simp)]
      by_cases hsame : (Family.malloc, tracked) = (family, globalPool)
      · rw [hsame, List.erase_cons_head]
      · rw [List.erase_cons_tail (by simpa using hsame), List.erase_cons_head]
    exact RegionLog.held_released_head (RegionLog.held_released_head hreleased)

theorem settled_abandonedLog_iff {holder memory : ℕ} :
    Settled (abandonedLog holder memory family) ↔ family = .malloc := by
  constructor
  · intro h
    have hcount := h.count_eq .hugePages memory
    cases family <;> simp [abandonedLog] at hcount ⊢
  · rintro rfl
    exact RegionLog.held_released_head (RegionLog.held_released_head rfl)

/-- What is acquired and released at once. -/
theorem settled_pair : Settled [Event.released family ptr, .acquired family ptr] :=
  RegionLog.held_released_head rfl

/-! ## Initialization and shutdown -/

/-- Long-lived memory on the hot path is mapped whatever its size. -/
theorem lgxHugepagesAllocSelective_eq (rt : Runtime) (size : ℕ) (mmapHuge mmapPlain : Option ℕ) :
    rt.lgxHugepagesAllocSelective size true true mmapHuge mmapPlain =
      (mapped rt.hugePages rt.lgxHugepagesAvailable mmapHuge mmapPlain,
        rt.acquire .hugePages (mapped rt.hugePages rt.lgxHugepagesAvailable mmapHuge mmapPlain)) := by
  by_cases havailable : rt.lgxHugepagesAvailable = true
  · obtain ⟨hinitialized, hfound⟩ := Bool.and_eq_true_iff.mp havailable
    have halloc : rt.lgxHugepagesAlloc mmapHuge mmapPlain =
        (mmapHuge.or mmapPlain, rt.acquire .hugePages (mmapHuge.or mmapPlain)) := by
      cases mmapHuge with
      | none => simp [Runtime.lgxHugepagesAlloc, hinitialized, hfound]
      | some ptr => simp [Runtime.lgxHugepagesAlloc, hinitialized, hfound]
    cases hstrategy : rt.hugePages.strategy with
    | always =>
        simp [Runtime.lgxHugepagesAllocSelective, mapped, havailable, hinitialized, hfound, hstrategy, halloc]
    | selective =>
        simp [Runtime.lgxHugepagesAllocSelective, mapped, havailable, hinitialized, hfound, hstrategy, halloc]
    | never =>
        simp [Runtime.lgxHugepagesAllocSelective, mapped, havailable, hinitialized, hfound, hstrategy,
          Runtime.acquire]
  · have hnone : (!rt.hugePages.initialized || !rt.hugePages.available) = true := by
      simpa [Runtime.lgxHugepagesAvailable, Bool.or_eq_true, imp_iff_not_or] using havailable
    simp [Runtime.lgxHugepagesAllocSelective, mapped, havailable, hnone, Runtime.acquire]

theorem log_lgxHugepagesInit (rt : Runtime) (detected : Bool) (adapter : Option Bool) :
    (rt.lgxHugepagesInit detected adapter).log = rt.log := by
  unfold Runtime.lgxHugepagesInit
  split_ifs
  · rfl
  · rfl
  · rfl

/-- The flag, and what is mapped, by the state before the initialization. -/
theorem available_lgxHugepagesInit (rt : Runtime) (o : Outcomes) :
    (rt.lgxHugepagesInit o.detected o.adapter).lgxHugepagesAvailable = usesHugePages rt.hugePages o ∧
      mapped (rt.lgxHugepagesInit o.detected o.adapter).hugePages (usesHugePages rt.hugePages o) o.mmapHuge
        o.mmapPlain = mapped rt.hugePages (usesHugePages rt.hugePages o) o.mmapHuge o.mmapPlain := by
  unfold Runtime.lgxHugepagesInit usesHugePages
  by_cases hinitialized : rt.hugePages.initialized = true
  · simp [hinitialized, Runtime.lgxHugepagesAvailable]
  · by_cases hadapter : o.adapter = some false
    · simp [hinitialized, hadapter, Runtime.lgxHugepagesAvailable, mapped]
    · simp [hinitialized, hadapter, Runtime.lgxHugepagesAvailable, mapped]

theorem initPools_of_not_completes (h : ¬ Completes o) :
    rt.initPools o mgr globalPool useHugePages =
      Runtime.abandon { rt with poolBase := some globalPool } globalPool mgr := by
  unfold Runtime.initPools
  split_ifs with hmutex hkey hlist hintent
  · rfl
  · rfl
  · rfl
  · rfl
  · cases htracked : o.tracked with
    | none => rfl
    | some tracked =>
        refine absurd ⟨fun i => ?_, ?_, ?_, ?_, ?_⟩ h
        · simpa using not_exists.mp hmutex i
        · simpa using hkey
        · simpa using hlist
        · simpa using hintent
        · simp [htracked]

theorem initPools_of_completes (h : Completes o) : ∃ tracked,
    rt.initPools o mgr globalPool useHugePages =
      (some { ptr := mgr, useHugePages := useHugePages, trackedAllocations := some tracked },
        Runtime.acquire { rt with poolBase := some globalPool } .malloc (some tracked)) := by
  obtain ⟨hmutex, hkey, hlist, hintent, htracked⟩ := h
  obtain ⟨tracked, htracked⟩ := Option.ne_none_iff_exists'.mp htracked
  refine ⟨tracked, ?_⟩
  have hnone : ¬ ∃ i, o.poolMutex i = false := by
    rintro ⟨i, hi⟩
    simp [hmutex i] at hi
  simp [Runtime.initPools, hnone, hkey, hlist, hintent, htracked]

/-- What becomes of pools that came from a family. -/
theorem settled_initPools_iff
    (hlog : rt.log = [.acquired family globalPool, .acquired .malloc mgr]) :
    Settled (Runtime.finish (rt.initPools o mgr globalPool useHugePages)).log ↔
      (Completes o ∧ family = if useHugePages then .hugePages else .malloc) ∨
        (¬ Completes o ∧ family = .malloc) := by
  by_cases hcompletes : Completes o
  · obtain ⟨tracked, hinit⟩ := @initPools_of_completes o rt mgr globalPool useHugePages hcompletes
    rw [hinit]
    have hsame : (Runtime.finish
        (some { ptr := mgr, useHugePages := useHugePages, trackedAllocations := some tracked },
          Runtime.acquire { rt with poolBase := some globalPool } .malloc (some tracked))).log =
        completedLog mgr globalPool tracked family (if useHugePages then .hugePages else .malloc) := by
      cases useHugePages with
      | false => exact congrArg (_ :: _ :: _ :: _ :: ·) hlog
      | true => exact congrArg (_ :: _ :: _ :: _ :: ·) hlog
    rw [hsame, settled_completedLog_iff]
    simp [hcompletes]
  · rw [initPools_of_not_completes hcompletes]
    have hsame : (Runtime.finish
        (Runtime.abandon { rt with poolBase := some globalPool } globalPool mgr)).log =
        abandonedLog mgr globalPool family := congrArg (_ :: _ :: ·) hlog
    rw [hsame, settled_abandonedLog_iff]
    simp [hcompletes]

/-- The flag is all that the pools ask for, because without it nothing is mapped. -/
theorem tryHugePages_eq (rt : Runtime) (o : Outcomes) :
    rt.tryHugePages o = (mapped rt.hugePages rt.lgxHugepagesAvailable o.mmapHuge o.mmapPlain,
      rt.acquire .hugePages (mapped rt.hugePages rt.lgxHugepagesAvailable o.mmapHuge o.mmapPlain)) := by
  rw [Runtime.tryHugePages, lgxHugepagesAllocSelective_eq]
  by_cases havailable : rt.lgxHugepagesAvailable = true
  · rw [if_pos havailable]
  · simp [havailable, mapped, Runtime.acquire]

theorem settled_initThenShutdown_iff (hlog : rt.log = []) :
    Settled (rt.initThenShutdown o).log ↔ ManagerFits rt.hugePages o := by
  unfold ManagerFits
  cases hmanager : o.manager with
  | none =>
      have hinit : (rt.initThenShutdown o).log = [] := by
        rw [Runtime.initThenShutdown, Runtime.lgxMemoryManagerInit, hmanager]
        exact hlog
      rw [hinit]
      exact iff_of_true rfl (Or.inl rfl)
  | some mgr =>
      by_cases hpool : o.lockFreePool = true
      swap
      · have hinit : (rt.initThenShutdown o).log = [.released .malloc mgr, .acquired .malloc mgr] := by
          simp [Runtime.initThenShutdown, Runtime.lgxMemoryManagerInit, hmanager, hpool, Runtime.finish,
            Runtime.release, Runtime.acquire, hlog]
        rw [hinit]
        exact iff_of_true settled_pair (Or.inr (Or.inl (by simpa using hpool)))
      have hinit : rt.initThenShutdown o =
          Runtime.finish (Runtime.fallBack o mgr
            ((rt.acquire .malloc (some mgr)).lgxHugepagesInit o.detected o.adapter).lgxHugepagesAvailable
            (((rt.acquire .malloc (some mgr)).lgxHugepagesInit o.detected o.adapter).tryHugePages o)) := by
        simp [Runtime.initThenShutdown, Runtime.lgxMemoryManagerInit, hmanager, hpool]
      obtain ⟨havailable, hmapped⟩ := available_lgxHugepagesInit (rt.acquire .malloc (some mgr)) o
      have hlog₁ : ((rt.acquire .malloc (some mgr)).lgxHugepagesInit o.detected o.adapter).log =
          [.acquired .malloc mgr] := by
        rw [log_lgxHugepagesInit]
        exact congrArg (_ :: ·) hlog
      have hsame : (rt.acquire .malloc (some mgr)).hugePages = rt.hugePages := rfl
      rw [hinit, tryHugePages_eq, havailable, hmapped, hsame]
      generalize (rt.acquire .malloc (some mgr)).lgxHugepagesInit o.detected o.adapter = rt₁ at hlog₁ ⊢
      cases hpages : mapped rt.hugePages (usesHugePages rt.hugePages o) o.mmapHuge o.mmapPlain with
      | some globalPool =>
          have huses : usesHugePages rt.hugePages o = true := by
            by_contra hoff
            simp [mapped, hoff] at hpages
          have hpools := @settled_initPools_iff o (rt₁.acquire .hugePages (some globalPool)) mgr globalPool
            .hugePages (usesHugePages rt.hugePages o) (congrArg (_ :: ·) hlog₁)
          refine hpools.trans ?_
          simp [huses, hpool]
      | none =>
          cases hmalloc : o.pool with
          | none =>
              have hout : (Runtime.finish (Runtime.fallBack o mgr (usesHugePages rt.hugePages o)
                  (none, rt₁.acquire .hugePages none))).log =
                  [.released .malloc mgr, .acquired .malloc mgr] := by
                rw [Runtime.fallBack, hmalloc]
                exact congrArg (_ :: ·) hlog₁
              rw [hout]
              exact iff_of_true settled_pair (by simp)
          | some globalPool =>
              have hpools := @settled_initPools_iff o (rt₁.acquire .malloc (some globalPool)) mgr globalPool
                .malloc (usesHugePages rt.hugePages o) (congrArg (_ :: ·) hlog₁)
              have hout : Runtime.fallBack o mgr (usesHugePages rt.hugePages o)
                  (none, rt₁.acquire .hugePages none) =
                  (rt₁.acquire .malloc (some globalPool)).initPools o mgr globalPool
                    (usesHugePages rt.hugePages o) := by
                rw [Runtime.fallBack, hmalloc]
                rfl
              rw [hout]
              refine hpools.trans ?_
              cases huses : usesHugePages rt.hugePages o with
              | false => simp [hpool, em]
              | true => simp [hpool]

/-! ## Slabs -/

/-- The log of a slab that is allocated and freed. -/
def slabLog (slab memory bitmap : ℕ) (family : Family) : List (Event Family ℕ) :=
  [.released .malloc slab, .released family memory, .released .malloc bitmap, .acquired .malloc bitmap,
    .acquired family memory, .acquired .malloc slab]

theorem settled_slabLog {slab memory bitmap : ℕ} : Settled (slabLog slab memory bitmap family) :=
  RegionLog.held_released_head (RegionLog.held_released_head (RegionLog.held_released_head rfl))

/-- The checks of the capacity and of the bitmap size never fail. -/
theorem initSlab_eq {objectSize slab memory : ℕ} {o : SlabOutcomes} {usesPages : Bool}
    (hpos : objectSize ≠ 0) (hle : ¬ objectSize > slabSize) :
    rt.initSlab objectSize o slab memory usesPages =
      o.bitmap.elim (none, (rt.release .malloc (some memory)).release .malloc (some slab)) fun bitmap =>
        (some
          { ptr := slab
            memory := memory
            usesHugePages := usesPages
            objectSize := objectSize
            capacity := slabSize / objectSize
            bitmap := some bitmap },
          rt.acquire .malloc (some bitmap)) := by
  have hcapacity : 0 < slabSize / objectSize := Nat.div_pos (by omega) (by omega)
  have hmost : slabSize / objectSize ≤ slabSize := Nat.div_le_self ..
  have hbitmap : ¬ (slabSize / objectSize + 7) / 8 > slabSize / 8 := by
    unfold slabSize at *
    omega
  rw [Runtime.initSlab]
  simp only [if_neg hbitmap, if_neg (show ¬ (slabSize / objectSize = 0 ∨ slabSize / objectSize > slabSize) by omega)]
  cases o.bitmap with
  | none => rfl
  | some bitmap => rfl

/-- What becomes of the memory of a slab that came from a family. -/
theorem settled_initSlab_iff {objectSize slab memory : ℕ} {o : SlabOutcomes} {usesPages : Bool}
    (hpos : objectSize ≠ 0) (hle : ¬ objectSize > slabSize)
    (hfamily : family = if usesPages then .hugePages else .malloc)
    (hlog : rt.log = [.acquired family memory, .acquired .malloc slab]) :
    Settled (Runtime.freeSlab (rt.initSlab objectSize o slab memory usesPages)).log ↔
      family = .malloc ∨ o.bitmap ≠ none := by
  rw [initSlab_eq hpos hle]
  cases o.bitmap with
  | none =>
      have hout : (Runtime.freeSlab
          (none, (rt.release .malloc (some memory)).release .malloc (some slab))).log =
          abandonedLog slab memory family := congrArg (_ :: _ :: ·) hlog
      rw [Option.elim_none, hout, settled_abandonedLog_iff]
      simp
  | some bitmap =>
      have hout : (Runtime.freeSlab
          (some
            { ptr := slab
              memory := memory
              usesHugePages := usesPages
              objectSize := objectSize
              capacity := slabSize / objectSize
              bitmap := some bitmap },
            rt.acquire .malloc (some bitmap))).log = slabLog slab memory bitmap family := by
        subst hfamily
        cases usesPages with
        | false => exact congrArg (_ :: _ :: _ :: _ :: ·) hlog
        | true => exact congrArg (_ :: _ :: _ :: _ :: ·) hlog
      rw [Option.elim_some, hout]
      exact iff_of_true settled_slabLog (Or.inr (Option.some_ne_none _))

theorem settled_allocateThenFree_iff {objectSize : ℕ} {o : SlabOutcomes} (hlog : rt.log = []) :
    Settled (rt.allocateThenFree objectSize o).log ↔ SlabFits rt.hugePages objectSize o := by
  unfold SlabFits
  by_cases hpos : objectSize = 0
  · refine iff_of_true ?_ (Or.inl hpos)
    rw [Runtime.allocateThenFree, Runtime.allocateSlab, if_pos hpos]
    exact congrArg held hlog
  by_cases hle : objectSize > slabSize
  · refine iff_of_true ?_ (Or.inr (Or.inl hle))
    rw [Runtime.allocateThenFree, Runtime.allocateSlab, if_neg hpos, if_pos hle]
    exact congrArg held hlog
  by_cases hpower : objectSize &&& (objectSize - 1) ≠ 0
  · refine iff_of_true ?_ (Or.inr (Or.inr (Or.inl hpower)))
    rw [Runtime.allocateThenFree, Runtime.allocateSlab, if_neg hpos, if_neg hle, if_pos hpower]
    exact congrArg held hlog
  cases hslab : o.slab with
  | none =>
      refine iff_of_true ?_ (by simp)
      rw [Runtime.allocateThenFree, Runtime.allocateSlab, if_neg hpos, if_neg hle, if_neg hpower, hslab]
      exact congrArg held hlog
  | some slab =>
      have hcall : rt.allocateThenFree objectSize o =
          Runtime.freeSlab (Runtime.fallBackSlab objectSize o slab
            (mapped rt.hugePages rt.lgxHugepagesAvailable o.mmapHuge o.mmapPlain,
              (rt.acquire .malloc (some slab)).acquire .hugePages
                (mapped rt.hugePages rt.lgxHugepagesAvailable o.mmapHuge o.mmapPlain))) := by
        rw [Runtime.allocateThenFree, Runtime.allocateSlab, if_neg hpos, if_neg hle, if_neg hpower, hslab]
        simp only [lgxHugepagesAllocSelective_eq]
        rfl
      have hlog₁ : (rt.acquire .malloc (some slab)).log = [.acquired .malloc slab] :=
        congrArg (_ :: ·) hlog
      have hflag : (rt.hugePages.initialized && rt.hugePages.available) = rt.lgxHugepagesAvailable := rfl
      rw [hcall, hflag]
      cases mapped rt.hugePages rt.lgxHugepagesAvailable o.mmapHuge o.mmapPlain with
      | some memory =>
          have hinit := @settled_initSlab_iff
            ((rt.acquire .malloc (some slab)).acquire .hugePages (some memory)) .hugePages objectSize slab
            memory o true hpos hle rfl (congrArg (_ :: ·) hlog₁)
          refine hinit.trans ?_
          simp [hpos, hle, hpower]
      | none =>
          refine iff_of_true ?_ (by simp)
          cases hmemory : o.memory with
          | none =>
              have hout : (Runtime.freeSlab (Runtime.fallBackSlab objectSize o slab
                  (none, (rt.acquire .malloc (some slab)).acquire .hugePages none))).log =
                  [.released .malloc slab, .acquired .malloc slab] := by
                rw [Runtime.fallBackSlab, hmemory]
                exact congrArg (_ :: ·) hlog₁
              rw [hout]
              exact settled_pair
          | some memory =>
              have hinit := @settled_initSlab_iff
                ((rt.acquire .malloc (some slab)).acquire .malloc (some memory)) .malloc objectSize slab
                memory o false hpos hle rfl (congrArg (_ :: ·) hlog₁)
              rw [Runtime.fallBackSlab, hmemory]
              exact hinit.mpr (Or.inl rfl)

/-- Before the calls, with no memory acquired. -/
def started (state : HugepageState) (poolBase : Option ℕ) : Runtime :=
  ⟨state, poolBase, []⟩

/-- Exactly when memory goes back where it came from, for the memory manager and for slabs. -/
theorem settled_iff (state : HugepageState) (poolBase : Option ℕ) :
    (∀ o, Settled ((started state poolBase).initThenShutdown o).log ↔ ManagerFits state o) ∧
      ∀ objectSize o, Settled ((started state poolBase).allocateThenFree objectSize o).log ↔
        SlabFits state objectSize o :=
  ⟨fun _ => settled_initThenShutdown_iff rfl, fun _ _ => settled_allocateThenFree_iff rfl⟩

/-- The pools are mapped, and the key of the thread caches cannot be created. -/
def noKey : Outcomes where
  manager := some 4096
  lockFreePool := true
  detected := true
  adapter := none
  mmapHuge := none
  mmapPlain := some 65536
  pool := none
  poolMutex := fun _ => true
  cacheKey := false
  cacheListMutex := true
  intentMutex := true
  tracked := none

/-- The mapped pools are passed to `free`. -/
theorem not_settled_noKey :
    ¬ ∀ (state : HugepageState) (poolBase : Option ℕ) (o : Outcomes),
      Settled ((started state poolBase).initThenShutdown o).log := by
  intro hall
  exact absurd (hall ⟨false, false, .selective⟩ none noKey) (by decide)

end LgxRuntime.HugePages
