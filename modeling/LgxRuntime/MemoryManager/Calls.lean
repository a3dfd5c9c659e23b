import LgxRuntime.MemoryManager.IntentTracking

/-!
# Calls that nobody interrupts

A call of `lgx_memory_manager_alloc` or `lgx_memory_manager_free` that one thread makes alone is a
sequence of steps of the memory manager, so that what holds of blocks over all interleavings holds over
runs of calls.  Until the pointer is returned such a call is quiet: no block changes hands, and a block of
the hot path table that is not live is at home.
-/

namespace LgxRuntime.MemoryManager

open Function (update update_self update_of_ne)
open BlockLog (live held lastEvent)
open State (CacheOutcome Prewarm allBlocks)
open Intent (AllocationIntent)

variable {Thread : Type} [DecidableEq Thread]

/-! ## One thread and its program counter -/

namespace State

variable (s : State Thread) (t : Thread)

@[simp]
theorem goto_goto (pc pc' : Pc) : (s.goto t pc).goto t pc' = s.goto t pc' := by
  simp [goto]

@[simp]
theorem goto_pc (pc : Pc) : (s.goto t pc).pc t = pc := by
  simp [goto]

variable {s t} in
theorem goto_eq_self {pc : Pc} (h : s.pc t = pc) : s.goto t pc = s := by
  simp [goto, ← h]

theorem setCache_goto (pc : Pc) (cache : Option ThreadCache) :
    (s.goto t pc).setCache t cache = (s.setCache t cache).goto t pc :=
  rfl

theorem grant_goto (pc : Pc) (ptr size : ℕ) : (s.goto t pc).grant t ptr size = s.grant t ptr size :=
  (s.emit (.granted t ptr size)).goto_goto t pc .idle

/-- `get_thread_cache` does not look at program counters. -/
theorem getThreadCache_goto (pc : Pc) (outcome : CacheOutcome) :
    (s.goto t pc).getThreadCache t outcome =
      ((s.getThreadCache t outcome).1, (s.getThreadCache t outcome).2.goto t pc) := by
  unfold getThreadCache
  have hcache : (s.goto t pc).cache t = s.cache t := rfl
  rw [hcache]
  cases s.cache t with
  | some cache => rfl
  | none => cases outcome <;> rfl

theorem getThreadCache_unavailable : (s.getThreadCache t .unavailable).2 = s := by
  unfold getThreadCache
  cases s.cache t <;> rfl

/-- The hot path as a step: it returns a block or calls `allocate_small`. -/
theorem allocateUltraFast_eq (size : ℕ) (outcome : CacheOutcome) :
    s.allocateUltraFast t size outcome = match s.takeHot t size outcome with
      | (some ptr, s₁) => s₁.grant t ptr size
      | (none, s₁) => s₁.goto t (.small size false) := by
  unfold allocateUltraFast takeHot
  cases getHotPathSizeClass size with
  | none => rfl
  | some hotClass =>
      simp only
      generalize s.getThreadCache t outcome = result
      obtain ⟨found, s₁⟩ := result
      cases found with
      | none => rfl
      | some cache =>
          simp only
          split
          · rfl
          · cases (cache.hotPath.preallocatedBlocks hotClass)[
              cache.hotPath.nextFree hotClass % 2 ^ 32]? <;> rfl

end State

/-- The state without the top block of pool `c`. -/
def State.popped (s : State Thread) (c : ℕ) : State Thread :=
  { s with
    poolHead := update s.poolHead c (s.block (s.poolHead c)).next
    block := update s.block (s.poolHead c) { s.block (s.poolHead c) with next := 0 } }

omit [DecidableEq Thread] in
/-- How often an attempt fails for no reason does not matter. -/
theorem State.lockfreePop_eq (s : State Thread) (c spurious : ℕ) : s.lockfreePop c spurious =
    if s.poolHead c = 0 then (none, s) else (some (s.poolHead c), s.popped c) := by
  induction spurious with
  | zero => rfl
  | succ spurious ih =>
      rw [lockfreePop, ih]
      split <;> rfl

/-! ## Calls as steps -/

theorem OutcomeOk.goto {s : State Thread} {outcome : CacheOutcome} (h : OutcomeOk s outcome) (t : Thread)
    (pc : Pc) : OutcomeOk (s.goto t pc) outcome := by
  cases outcome with
  | unavailable => trivial
  | unregistered w => exact ⟨h.length_le, h.nodup, h.fresh, h.room⟩
  | created w => exact ⟨h.length_le, h.nodup, h.fresh, h.room⟩

omit [DecidableEq Thread] in
/-- A failing `malloc` breaks no promise. -/
theorem mallocOk_none {s : State Thread} {size : ℕ} : MallocOk s none size :=
  fun _ _ heq => by cases heq

/-- What is decided outside during a call of `allocate_small` in state `s` can happen. -/
structure SmallOk (s : State Thread) (t : Thread) (a : SmallAnswers) : Prop where
  outcome : OutcomeOk s a.outcome
  malloc : ∀ request, MallocOk (s.getThreadCache t a.outcome).2 (a.malloc request) request

/-- A call that thread `t` makes alone comes back, with a block that is granted or at `otherwise`. -/
def Returns (t : Thread) (size : ℕ) (otherwise : Pc) (result : Option ℕ × State Thread) : Prop :=
  match result with
  | (some ptr, s) => Reachable Orderly (s.grant t ptr size)
  | (none, s) => Reachable Orderly (s.goto t otherwise)

section

variable {s : State Thread} {t : Thread} {size c : ℕ} {again : Bool} {answer : Option (ℕ × ℕ)}

theorem Returns.of_grantMalloc {m : Manager Thread} {pc otherwise : Pc}
    (h : Reachable Orderly ((m.state.goto t pc).grantMalloc t size answer otherwise)) :
    Returns t size otherwise ((m.malloc t answer).1, (m.malloc t answer).2.state) := by
  cases answer with
  | none =>
      simp only [State.grantMalloc, State.goto_goto] at h
      exact h
  | some block =>
      obtain ⟨ptr, usable⟩ := block
      have hsame : ((m.state.goto t pc).emit (.acquired t ptr usable)).grant t ptr size =
          (m.state.emit (.acquired t ptr usable)).grant t ptr size :=
        (m.state.emit (.acquired t ptr usable)).grant_goto t pc ptr size
      simp only [State.grantMalloc, hsame] at h
      exact h

theorem reachable_popped
    (h : Reachable Orderly (s.goto t (.popNext size c again (s.poolHead c)))) :
    Reachable Orderly ((s.popped c).grant t (s.poolHead c) size) := by
  have hnext : Reachable Orderly
      (s.goto t (.popCas size c again (s.poolHead c) (s.block (s.poolHead c)).next)) := by
    refine h.step (.popNext t) trivial trivial ?_
    simp only [step, State.goto_pc, State.goto_goto]
    rfl
  have hswap : Reachable Orderly
      ({ s with poolHead := update s.poolHead c (s.block (s.poolHead c)).next }.goto t
        (.popClear size (s.poolHead c))) := by
    refine hnext.step (.popCas t false none) ?_ ?_ ?_
    · exact fun _ _ _ _ _ _ _ _ heq => absurd heq (by simp)
    · intro size' c' again' head next hpc _ _
      rw [State.goto_pc] at hpc
      cases hpc
      rfl
    · have hhead' : (s.goto t (.popCas size c again (s.poolHead c)
          (s.block (s.poolHead c)).next)).poolHead c = s.poolHead c := rfl
      simp only [step, State.goto_pc, State.popCas, hhead', Bool.false_eq_true, not_false_eq_true,
        and_self, if_true]
      simp [State.goto]
  refine hswap.step (.popClear t) trivial trivial ?_
  simp only [step, State.goto_pc]
  exact congrArg some (State.grant_goto (s.popped c) t _ _ _)

/-- `allocate_small` from the load of the head on. -/
theorem returns_of_popLoad (hanswer : MallocOk s answer (classSize c))
    (h : Reachable Orderly (s.goto t (.popLoad size c again))) :
    if s.poolHead c = 0 then
      Reachable Orderly ((s.goto t (.popLoad size c again)).grantMalloc t size answer
        (.refused size again))
    else Reachable Orderly ((s.popped c).grant t (s.poolHead c) size) := by
  have hload : ∀ answer, MallocOk s answer (classSize c) →
      Reachable Orderly ((s.goto t (.popLoad size c again)).popWith t size c again (s.poolHead c)
        answer) := by
    intro answer hanswer
    refine h.step (.popLoad t answer) ?_ trivial ?_
    · intro size' c' again' hpc
      rw [State.goto_pc] at hpc
      cases hpc
      exact hanswer
    · simp only [step, State.goto_pc]
      rfl
  split
  · rename_i hempty
    have hmalloc := hload answer hanswer
    rwa [State.popWith, if_pos hempty] at hmalloc
  · rename_i hhead
    have hnext := hload none mallocOk_none
    rw [State.popWith, if_neg hhead, State.goto_goto] at hnext
    exact reachable_popped hnext

/-- A request that is passed on to `malloc`, or refused. -/
theorem allocateDirect_returns {m : Manager Thread} {intent : Option AllocationIntent} {chaos : Bool}
    {k : Tracking} {otherwise : Pc} (hanswer : MallocOk m.state answer size)
    (h : ∀ answer, MallocOk m.state answer size →
      Returns t size otherwise ((m.malloc t answer).1, (m.malloc t answer).2.state)) :
    Returns t size otherwise ((m.allocateDirect t size intent chaos answer k).1,
      (m.allocateDirect t size intent chaos answer k).2.state) := by
  unfold Manager.allocateDirect
  split
  · exact h none mallocOk_none
  · rw [Manager.track_fst, Manager.track_state]
    exact h answer hanswer

theorem reachable_small {chaos : Bool} {outcome : CacheOutcome} (ho : OutcomeOk s outcome)
    (hanswer : MallocOk (s.getThreadCache t outcome).2 answer size)
    (h : Reachable Orderly (s.goto t (.small size again))) :
    Reachable Orderly ((s.goto t (.small size again)).allocateSmall t size again chaos outcome answer) := by
  refine h.step (.small t chaos outcome answer) ⟨ho.goto t _, ?_⟩ trivial ?_
  · intro size' again' hpc
    rw [State.goto_pc] at hpc
    cases hpc
    rw [State.getThreadCache_goto]
    exact hanswer
  · simp only [step, State.goto_pc]

/-- `allocate_small`, whatever intent it gets. -/
theorem allocateSmall_returns {m : Manager Thread} {intent : Option AllocationIntent} {a : SmallAnswers}
    {k : Tracking} (ha : SmallOk m.state t a)
    (h : Reachable Orderly (m.state.goto t (.small size again))) :
    Returns t size (.refused size again) ((m.allocateSmall t size intent a k).1,
      (m.allocateSmall t size intent a k).2.state) := by
  unfold Manager.allocateSmall
  split
  · have hchaos := @reachable_small _ _ _ t size again none true .unavailable trivial mallocOk_none h
    rw [State.allocateSmall, if_pos rfl, State.goto_goto] at hchaos
    exact hchaos
  cases hclass : getSizeClassIndex size with
  | none =>
      refine allocateDirect_returns ((ha.malloc size).of_getThreadCache ha.outcome) fun answer hanswer => ?_
      have hmedium := @reachable_small _ _ _ t size again answer false .unavailable trivial
        (by rwa [State.getThreadCache_unavailable]) h
      simp only [State.allocateSmall, Bool.false_eq_true, if_false, hclass] at hmedium
      exact Returns.of_grantMalloc hmedium
  | some c =>
      have hstep := fun answer hanswer =>
        @reachable_small _ _ _ t size again answer false a.outcome ha.outcome hanswer h
      have hmalloc := ha.malloc
      simp only [State.allocateSmall, Bool.false_eq_true, if_false, hclass,
        State.getThreadCache_goto] at hstep
      simp only
      generalize m.state.getThreadCache t a.outcome = result at hstep hmalloc ⊢
      obtain ⟨found, s₁⟩ := result
      cases found with
      | none =>
          simp only [Manager.track_fst, Manager.track_state] at hstep hmalloc ⊢
          exact @Returns.of_grantMalloc _ _ t size _ { m with state := s₁ } _ _
            (hstep _ (hmalloc size))
      | some cache =>
          cases hslots : cache.slots c with
          | cons ptr rest =>
              have hslot := hstep none mallocOk_none
              simp only [hslots, State.setCache_goto, State.grant_goto] at hslot ⊢
              exact hslot
          | nil =>
              have hload := hstep none mallocOk_none
              simp only [hslots, State.goto_goto] at hload
              have hpop := returns_of_popLoad (hmalloc (classSize c)) hload
              simp only [hslots, State.lockfreePop_eq]
              by_cases hempty : s₁.poolHead c = 0
              · rw [if_pos hempty] at hpop
                simp only [hempty, if_true, Manager.track_fst, Manager.track_state]
                exact @Returns.of_grantMalloc _ _ t size _ { m with state := s₁ } _ _ hpop
              · rw [if_neg hempty] at hpop
                simp only [hempty, if_false]
                exact hpop

end

/-- What is decided outside during a call of `lgx_memory_manager_alloc` can happen. -/
structure AllocOk (m : Manager Thread) (t : Thread) (size : ℕ) (a : AllocAnswers) : Prop where
  hot : OutcomeOk m.state a.hot
  inner : SmallOk (m.state.takeHot t size a.hot).2 t a.inner
  outer : SmallOk (m.allocateUltraFast t size a).2.state t a.outer
  malloc : ∀ request, MallocOk m.state (a.malloc request) request

section

variable {m : Manager Thread} {t : Thread} {size : ℕ} {a : AllocAnswers}

/-- `allocate_ultra_fast` on the whole. -/
theorem allocateUltraFast_returns (ha : AllocOk m t size a) (hpos : size ≠ 0) (hsize : size ≤ maxHotSize)
    (hpc : m.state.pc t = .idle) (hwrap : WrapsHome m.state t size) (h : Reachable Orderly m.state) :
    Returns t size (.refused size false) ((m.allocateUltraFast t size a).1,
      (m.allocateUltraFast t size a).2.state) := by
  have hstep : Reachable Orderly (m.state.alloc t size a.hot none) := by
    refine h.step (.alloc t size a.hot none) ⟨ha.hot, mallocOk_none⟩ hwrap ?_
    simp only [step, hpc]
  rw [State.alloc, if_neg hpos, if_pos hsize, State.allocateUltraFast_eq] at hstep
  have hinner := ha.inner
  unfold Manager.allocateUltraFast
  generalize m.state.takeHot t size a.hot = result at hstep hinner ⊢
  obtain ⟨found, s₁⟩ := result
  cases found with
  | some ptr => exact hstep
  | none => exact @allocateSmall_returns _ _ t size false { m with state := s₁ } none _ _ hinner hstep

/-- What happens after a `NULL`. -/
theorem reachable_retry {s : State Thread} {again : Bool} {answer : Option (ℕ × ℕ)}
    (hanswer : MallocOk s answer size) (h : Reachable Orderly (s.goto t (.refused size again))) :
    Reachable Orderly ((s.goto t (.refused size again)).retry t size again answer) := by
  refine h.step (.retry t answer) ?_ trivial ?_
  · intro size' again' hpc
    rw [State.goto_pc] at hpc
    cases hpc
    exact hanswer
  · simp only [step, State.goto_pc]

/-- A call of `lgx_memory_manager_alloc` on the whole. -/
theorem alloc_returns {intent : Option AllocationIntent} (ha : AllocOk m t size a)
    (hpc : m.state.pc t = .idle) (hwrap : 0 < size → WrapsHome m.state t size)
    (h : Reachable Orderly m.state) :
    Returns t size .idle ((m.alloc t size intent a).1, (m.alloc t size intent a).2.state) := by
  unfold Manager.alloc
  split
  · have hidle := State.goto_eq_self hpc
    simp only [Returns, hidle]
    exact h
  rename_i hpos
  split
  · rename_i hsize
    have hultra := allocateUltraFast_returns ha hpos hsize hpc (hwrap (Nat.pos_of_ne_zero hpos)) h
    have houter := ha.outer
    generalize m.allocateUltraFast t size a = result at hultra houter ⊢
    obtain ⟨found, m₁⟩ := result
    cases found with
    | some ptr =>
        rw [Manager.track_fst, Manager.track_state]
        exact hultra
    | none =>
        have hmalloc : ¬ size ≤ maxSmallSize → ∀ answer, MallocOk m₁.state answer size →
            Returns t size .idle ((m₁.malloc t answer).1, (m₁.malloc t answer).2.state) := by
          intro hlarge answer hanswer
          have hretry := reachable_retry hanswer hultra
          simp only [State.retry, Bool.false_eq_true, if_false, if_neg hlarge] at hretry
          exact Returns.of_grantMalloc hretry
        have hanswer := (houter.malloc size).of_getThreadCache houter.outcome
        simp only
        split
        · rename_i hsmall
          have hretry := @reachable_retry _ _ t size _ false none (mallocOk_none) hultra
          simp only [State.retry, Bool.false_eq_true, if_false, if_pos hsmall, State.goto_goto] at hretry
          have hagain := @allocateSmall_returns _ _ t size true m₁ intent _ a.tracking houter hretry
          generalize m₁.allocateSmall t size intent a.outer a.tracking = result at hagain ⊢
          obtain ⟨found, m₂⟩ := result
          cases found with
          | some ptr => exact hagain
          | none =>
              have hlast := @reachable_retry _ _ t size _ true none (mallocOk_none) hagain
              simp only [State.retry, if_true, State.goto_goto] at hlast
              exact hlast
        · rename_i hlarge
          split
          · exact allocateDirect_returns hanswer (hmalloc hlarge)
          · exact allocateDirect_returns hanswer (hmalloc hlarge)
  · rename_i hlarge
    have hstep : Reachable Orderly (m.state.alloc t size .unavailable (a.malloc size)) := by
      refine h.step (.alloc t size .unavailable (a.malloc size)) ⟨trivial, ha.malloc size⟩
        (hwrap (Nat.pos_of_ne_zero hpos)) ?_
      simp only [step, hpc]
    rw [State.alloc, if_neg hpos, if_neg hlarge, ← State.goto_eq_self hpc] at hstep
    rw [Manager.track_fst, Manager.track_state]
    exact Returns.of_grantMalloc hstep

end

/-! ## Blocks of the table that are not live -/

/-- A block of the hot path table of thread `t` that is not live is at home. -/
def TableSettled (s : State Thread) (t : Thread) : Prop :=
  ∀ p ∈ s.table t, p ∉ live s.log → AtHome s.log t p

/-- A step inside a call: no block is handed out or taken back. -/
structure Quiet (t : Thread) (s s' : State Thread) : Prop where
  pc : s'.pc = s.pc
  live : live s'.log = live s.log
  settled : TableSettled s t → TableSettled s' t

omit [DecidableEq Thread] in
theorem atHome_of_ne {log : List (BlockLog.Event Thread ℕ)} {e : BlockLog.Event Thread ℕ} {t : Thread}
    {p : ℕ} (hne : e.block ≠ p) : AtHome (e :: log) t p ↔ AtHome log t p := by
  rw [AtHome, BlockLog.lastEvent_of_ne hne, AtHome]

section

variable {s s' s'' : State Thread} {t : Thread}

omit [DecidableEq Thread] in
theorem TableSettled.congr (h : TableSettled s t) (htable : s'.table t = s.table t)
    (hlog : s'.log = s.log) : TableSettled s' t := by
  intro p hp hlive
  rw [htable] at hp
  rw [hlog] at hlive ⊢
  exact h p hp hlive

omit [DecidableEq Thread] in
/-- An event about a block that is live afterwards, at home, or not in the table. -/
theorem TableSettled.emit (h : TableSettled s t) {e : BlockLog.Event Thread ℕ}
    (he : e.block ∈ s.table t → e.block ∉ live (e :: s.log) → AtHome (e :: s.log) t e.block) :
    TableSettled (s.emit e) t := by
  intro p hp hlive
  by_cases hne : e.block = p
  · subst hne
    exact he hp hlive
  · have hold : p ∉ live s.log := fun hmem => hlive ((BlockLog.mem_live_of_ne hne).mpr hmem)
    exact (atHome_of_ne hne).mpr (h p hp hold)

omit [DecidableEq Thread] in
theorem Quiet.trans (h : Quiet t s s') (h' : Quiet t s' s'') : Quiet t s s'' :=
  ⟨h'.pc.trans h.pc, h'.live.trans h.live, fun hsettled => h'.settled (h.settled hsettled)⟩

omit [DecidableEq Thread] in
theorem Quiet.of_eq (hpc : s'.pc = s.pc) (htable : s'.table t = s.table t) (hlog : s'.log = s.log) :
    Quiet t s s' :=
  ⟨hpc, by rw [hlog], fun h => h.congr htable hlog⟩

omit [DecidableEq Thread] in
theorem Quiet.refl (s : State Thread) (t : Thread) : Quiet t s s :=
  .of_eq rfl rfl rfl

omit [DecidableEq Thread] in
theorem State.table_of_none (hnone : s.cache t = none) : s.table t = [] := by
  have htable : s.tableOf t = fun _ => [] := by
    funext hotClass
    simp [State.tableOf, hnone]
  rw [State.table, htable, allBlocks_nil]

theorem quiet_getThreadCache (s : State Thread) (t : Thread) (outcome : CacheOutcome) :
    Quiet t s (s.getThreadCache t outcome).2 := by
  obtain ⟨-, hpc, -, -, -, hlive⟩ := s.getThreadCache_frame t outcome
  refine ⟨hpc, hlive, fun h => ?_⟩
  unfold State.getThreadCache
  cases hcache : s.cache t with
  | some cache => exact h
  | none =>
      cases outcome with
      | unavailable => exact h
      | unregistered w =>
          intro p hp
          rw [State.table_of_none (s := s.prewarm t w) hcache] at hp
          simp at hp
      | created w =>
          -- the blocks of the new table have just been acquired
          intro p hp _
          rw [State.table_setCache, if_pos rfl] at hp
          exact Or.inl ⟨w.usable p, (BlockLog.acquireAll_of_mem hp).1⟩

/-- Slots and counters of thread `t` change. -/
theorem quiet_setCache {cache cache' : ThreadCache} (hcache : s.cache t = some cache)
    (htable : cache'.hotPath.preallocatedBlocks = cache.hotPath.preallocatedBlocks) :
    Quiet t s (s.setCache t (some cache')) := by
  refine .of_eq rfl ?_ rfl
  rw [State.table, State.tableOf_setCache_of_eq cache' hcache htable, State.table]

omit [DecidableEq Thread] in
theorem quiet_acquired (s : State Thread) (t : Thread) (p room : ℕ) :
    Quiet t s (s.emit (.acquired t p room)) :=
  ⟨rfl, rfl, fun h => h.emit fun _ _ => Or.inl ⟨room, BlockLog.lastEvent_self⟩⟩

theorem quiet_takeHot (s : State Thread) (t : Thread) (size : ℕ) (outcome : CacheOutcome) :
    Quiet t s (s.takeHot t size outcome).2 := by
  unfold State.takeHot
  cases getHotPathSizeClass size with
  | none => exact .refl s t
  | some hotClass =>
      have hcreate := quiet_getThreadCache s t outcome
      obtain ⟨hcache, -⟩ := s.getThreadCache_frame t outcome
      simp only
      generalize s.getThreadCache t outcome = result at hcreate hcache ⊢
      obtain ⟨found, s₁⟩ := result
      cases found with
      | none => exact hcreate
      | some cache =>
          simp only
          split
          · exact hcreate.trans (quiet_setCache hcache.symm rfl)
          · exact hcreate.trans (quiet_setCache hcache.symm rfl)

omit [DecidableEq Thread] in
theorem quiet_malloc (m : Manager Thread) (t : Thread) (answer : Option (ℕ × ℕ)) :
    Quiet t m.state (m.malloc t answer).2.state := by
  cases answer with
  | none => exact .refl ..
  | some block => exact quiet_acquired ..

omit [DecidableEq Thread] in
theorem quiet_allocateDirect (m : Manager Thread) (t : Thread) (size : ℕ)
    (intent : Option AllocationIntent) (chaos : Bool) (answer : Option (ℕ × ℕ)) (k : Tracking) :
    Quiet t m.state (m.allocateDirect t size intent chaos answer k).2.state := by
  unfold Manager.allocateDirect
  split
  · exact .refl ..
  · rw [Manager.track_state]
    exact quiet_malloc m t answer

theorem quiet_allocateSmall (m : Manager Thread) (t : Thread) (size : ℕ)
    (intent : Option AllocationIntent) (a : SmallAnswers) (k : Tracking) :
    Quiet t m.state (m.allocateSmall t size intent a k).2.state := by
  unfold Manager.allocateSmall
  split
  · exact .refl ..
  cases getSizeClassIndex size with
  | none => exact quiet_allocateDirect ..
  | some c =>
      have hcreate := quiet_getThreadCache m.state t a.outcome
      obtain ⟨hcache, -⟩ := m.state.getThreadCache_frame t a.outcome
      simp only
      generalize m.state.getThreadCache t a.outcome = result at hcreate hcache ⊢
      obtain ⟨found, s₁⟩ := result
      cases found with
      | none =>
          rw [Manager.track_state]
          exact hcreate.trans (quiet_malloc { m with state := s₁ } t _)
      | some cache =>
          cases hslots : cache.slots c with
          | cons ptr rest =>
              simp only [hslots]
              rw [Manager.track_state]
              exact hcreate.trans (quiet_setCache hcache.symm rfl)
          | nil =>
              simp only [hslots, State.lockfreePop_eq]
              by_cases hempty : s₁.poolHead c = 0
              · rw [if_pos hempty, Manager.track_state]
                exact hcreate.trans (quiet_malloc { m with state := s₁ } t _)
              · rw [if_neg hempty, Manager.track_state]
                exact hcreate.trans (.of_eq rfl rfl rfl)

/-- `allocate_ultra_fast` on the whole. -/
theorem quiet_allocateUltraFast (m : Manager Thread) (t : Thread) (size : ℕ) (a : AllocAnswers) :
    Quiet t m.state (m.allocateUltraFast t size a).2.state := by
  have hhot := quiet_takeHot m.state t size a.hot
  unfold Manager.allocateUltraFast
  generalize m.state.takeHot t size a.hot = result at hhot ⊢
  obtain ⟨found, s₁⟩ := result
  cases found with
  | some ptr => exact hhot
  | none => exact hhot.trans (quiet_allocateSmall { m with state := s₁ } ..)

/-- Up to the return of the pointer, `lgx_memory_manager_alloc` hands out nothing. -/
theorem quiet_alloc (m : Manager Thread) (t : Thread) (size : ℕ) (intent : Option AllocationIntent)
    (a : AllocAnswers) : Quiet t m.state (m.alloc t size intent a).2.state := by
  have hultra := quiet_allocateUltraFast m t size a
  unfold Manager.alloc
  split
  · exact .refl ..
  split
  · generalize m.allocateUltraFast t size a = result at hultra ⊢
    obtain ⟨found, m₁⟩ := result
    cases found with
    | some ptr => exact hultra
    | none =>
        simp only
        split
        · exact hultra.trans (quiet_allocateSmall ..)
        split
        · exact hultra.trans (quiet_allocateDirect ..)
        · exact hultra.trans (quiet_allocateDirect ..)
  · rw [Manager.track_state]
    exact quiet_malloc ..

end

/-! ## Deallocation -/

/-- `lgx_memory_manager_free` up to a call of `lgx_lockfree_push`: the client no longer has the block. -/
structure Freed (t : Thread) (ptr : ℕ) (s s' : State Thread) : Prop where
  pc : s'.pc t = .idle ∨ ∃ c, s'.pc t = .pushLoad c ptr
  live : live s'.log = live s.log \ {ptr}
  settled : TableSettled s t → TableSettled s' t

section

variable {s : State Thread} {t : Thread} {ptr c : ℕ}

theorem freed_free (hpc : s.pc t = .idle) (outcome : CacheOutcome) :
    Freed t ptr s (s.free t ptr outcome) := by
  have hreturned : TableSettled s t → TableSettled (s.emit (.returned t ptr)) t :=
    fun h => h.emit fun _ _ => Or.inr BlockLog.lastEvent_self
  have hcreate := quiet_getThreadCache (s.emit (.returned t ptr)) t outcome
  obtain ⟨hcache, -⟩ := (s.emit (.returned t ptr)).getThreadCache_frame t outcome
  unfold State.free
  simp only
  split
  · exact ⟨Or.inl hpc, rfl, hreturned⟩
  generalize (s.emit (.returned t ptr)).getThreadCache t outcome = result at hcreate hcache ⊢
  obtain ⟨found, s₁⟩ := result
  have hidle : s₁.pc t = .idle := by rw [hcreate.pc]; exact hpc
  -- a block that is passed to `free` is not in the table
  have hrelease : ptr ∉ s₁.table t → Freed t ptr s (s₁.emit (.released ptr)) := fun hnot =>
    ⟨Or.inl hidle, hcreate.live, fun h => (hcreate.settled (hreturned h)).emit fun hmem => absurd hmem hnot⟩
  cases found with
  | none =>
      refine hrelease ?_
      rw [State.table_of_none hcache.symm]
      simp
  | some cache =>
      simp only
      have hslots : ∀ slots, Quiet t (s.emit (.returned t ptr))
          (s₁.setCache t (some { cache with slots := slots })) :=
        fun _ => hcreate.trans (quiet_setCache hcache.symm rfl)
      split
      · exact ⟨Or.inl hidle, hcreate.live, fun h => hcreate.settled (hreturned h)⟩
      rename_i hnot
      rw [← State.table_of_cache hcache.symm] at hnot
      split
      · exact hrelease hnot
      · split
        · exact ⟨Or.inl hidle, hcreate.live, fun h => (hslots _).settled (hreturned h)⟩
        · exact ⟨Or.inr ⟨_, State.goto_pc ..⟩, hcreate.live,
            fun h => (hcreate.settled (hreturned h)).congr rfl rfl⟩

theorem reachable_pushCas (h : Reachable Orderly s) (hpc : s.pc t = .pushCas c ptr (s.poolHead c))
    (spurious : Bool) : Reachable Orderly (s.pushCas t c ptr (s.poolHead c) spurious) := by
  refine h.step (.pushCas t spurious) trivial trivial ?_
  simp only [step, hpc]

/-- The loop of a push that nobody interrupts ends with the block in the pool. -/
theorem reachable_pushLoop (h : Reachable Orderly s) (hpc : s.pc t = .pushCas c ptr (s.poolHead c))
    (spurious : ℕ) : Reachable Orderly (s.pushLoop t c ptr spurious) ∧
      (s.pushLoop t c ptr spurious).pc t = .idle := by
  induction spurious generalizing s with
  | zero =>
      refine ⟨reachable_pushCas h hpc false, ?_⟩
      simp [State.pushLoop, State.pushCas]
  | succ spurious ih =>
      have hfailed : s.pushCas t c ptr (s.poolHead c) true = s.link t c ptr := by
        simp [State.pushCas]
      have hlinked := reachable_pushCas h hpc true
      rw [State.pushLoop, hfailed]
      rw [hfailed] at hlinked
      exact ih hlinked (State.goto_pc ..)

theorem pushCas_frame (head : ℕ) (spurious : Bool) :
    (s.pushCas t c ptr head spurious).log = s.log ∧ (s.pushCas t c ptr head spurious).cache = s.cache := by
  unfold State.pushCas
  split <;> exact ⟨rfl, rfl⟩

theorem pushLoop_frame (spurious : ℕ) : (s.pushLoop t c ptr spurious).log = s.log ∧
    (s.pushLoop t c ptr spurious).cache = s.cache := by
  induction spurious generalizing s with
  | zero => exact pushCas_frame ..
  | succ spurious ih =>
      obtain ⟨hlog, hcache⟩ := @ih (s.pushCas t c ptr (s.poolHead c) true)
      obtain ⟨hlog', hcache'⟩ := @pushCas_frame _ _ s t ptr c (s.poolHead c) true
      exact ⟨hlog.trans hlog', hcache.trans hcache'⟩

theorem lockfreePush_frame (spurious : ℕ) : (s.lockfreePush t spurious).log = s.log ∧
    (s.lockfreePush t spurious).cache = s.cache := by
  unfold State.lockfreePush
  split
  · exact pushLoop_frame spurious
  · exact ⟨rfl, rfl⟩

theorem reachable_lockfreePush (h : Reachable Orderly s)
    (hpc : s.pc t = .idle ∨ ∃ c, s.pc t = .pushLoad c ptr) (spurious : ℕ) :
    Reachable Orderly (s.lockfreePush t spurious) ∧ (s.lockfreePush t spurious).pc t = .idle := by
  unfold State.lockfreePush
  rcases hpc with hidle | ⟨c, hload⟩
  · simp only [hidle]
    exact ⟨h, trivial⟩
  · simp only [hload]
    have hlink : Reachable Orderly (s.link t c ptr) := by
      refine h.step (.pushLoad t) trivial trivial ?_
      simp only [step, hload]
    exact reachable_pushLoop hlink (State.goto_pc ..) spurious

end

end LgxRuntime.MemoryManager
