import LgxRuntime.MemoryManager.Manager
import LgxRuntime.Lib.Linked
import Mathlib.Data.List.Pairwise
import Mathlib.Data.List.Nodup

/-!
# Who has a block

At every moment a block that the memory manager got from `malloc` is with a client, in the slots of one
thread, in one lock-free pool, in the hands of a thread that moves it, or with nobody.  `Owned` says that
the state agrees with such an assignment.  A hot path table names its blocks for as long as the cache
exists, whoever has them meanwhile; a block of the table that the thread has not handed out, or that was
freed last on the thread itself, is *at home*.

Every operation moves one block from one place to another; `Owned.move` is the lemma about that.
-/

namespace LgxRuntime.MemoryManager

open Function (update update_self update_of_ne)
open BlockLog (Event live held usable lastEvent Safe)
open State (CacheOutcome Prewarm allBlocks)

variable {Thread : Type}

/-! ## What `malloc` promises -/

/-- `malloc` may hand out `ptr`. -/
def Fresh (s : State Thread) (ptr : ℕ) : Prop :=
  ptr ≠ 0 ∧ ptr ∉ held s.log ∧ inThreadPools s.threadPools ptr = false

/-- An answer of `malloc` to a request of `size` bytes: `malloc_usable_size` reports at least that. -/
def MallocOk (s : State Thread) (answer : Option (ℕ × ℕ)) (size : ℕ) : Prop :=
  ∀ ptr room, answer = some (ptr, room) → Fresh s ptr ∧ size ≤ room

/-- The blocks of a new hot path table. -/
structure PrewarmOk (s : State Thread) (w : Prewarm) : Prop where
  length_le : ∀ hotClass, (w.blocks hotClass).length ≤ hotPathCacheSize
  nodup : (allBlocks w.blocks).Nodup
  fresh : ∀ p ∈ allBlocks w.blocks, Fresh s p
  room : ∀ hotClass < hotPathSizeClasses, ∀ p ∈ w.blocks hotClass, hotPathSize hotClass ≤ w.usable p

/-- How the creation of a cache may end. -/
def OutcomeOk (s : State Thread) : CacheOutcome → Prop
  | .unavailable => True
  | .unregistered w => PrewarmOk s w
  | .created w => PrewarmOk s w

/-- Freeing a block changes nothing for `malloc`. -/
theorem OutcomeOk.emit_returned [DecidableEq Thread] {s : State Thread} {outcome : CacheOutcome}
    (h : OutcomeOk s outcome) (t : Thread) (p : ℕ) : OutcomeOk (s.emit (.returned t p)) outcome := by
  cases outcome with
  | unavailable => trivial
  | unregistered w => exact ⟨h.length_le, h.nodup, h.fresh, h.room⟩
  | created w => exact ⟨h.length_le, h.nodup, h.fresh, h.room⟩

/-! ## The invariant -/

/-- Where a block can be. -/
inductive Place (Thread : Type)
  | client
  | slot (t : Thread) (c : ℕ)
  | pool (c : ℕ)
  | flight (t : Thread)

/-- A C pointer as an optional address. -/
def toPtr (address : ℕ) : Option ℕ :=
  if address = 0 then none else some address

namespace State

/-- The slots of thread `t` for class `c`. -/
def slotsOf (s : State Thread) (t : Thread) (c : ℕ) : List ℕ :=
  (s.cache t).elim [] fun cache => cache.slots c

/-- The hot path table of thread `t` for a hot class. -/
def tableOf (s : State Thread) (t : Thread) (hotClass : ℕ) : List ℕ :=
  (s.cache t).elim [] fun cache => cache.hotPath.preallocatedBlocks hotClass

/-- The hot path counter of thread `t` for a hot class. -/
def nextFreeOf (s : State Thread) (t : Thread) (hotClass : ℕ) : ℕ :=
  (s.cache t).elim 0 fun cache => cache.hotPath.nextFree hotClass

/-- The whole hot path table of thread `t`. -/
def table (s : State Thread) (t : Thread) : List ℕ :=
  allBlocks (s.tableOf t)

section

variable {s : State Thread} {t : Thread} {cache : ThreadCache} (hcache : s.cache t = some cache)
include hcache

theorem slotsOf_of_cache : s.slotsOf t = cache.slots := by
  funext c
  simp [slotsOf, hcache]

theorem tableOf_of_cache : s.tableOf t = cache.hotPath.preallocatedBlocks := by
  funext hotClass
  simp [tableOf, hcache]

theorem nextFreeOf_of_cache : s.nextFreeOf t = cache.hotPath.nextFree := by
  funext hotClass
  simp [nextFreeOf, hcache]

theorem table_of_cache : s.table t = allBlocks cache.hotPath.preallocatedBlocks := by
  rw [table, tableOf_of_cache hcache]

end

/-- Slots, tables and counters are read off the caches. -/
theorem views_of_cache {s s' : State Thread} (hcache : s'.cache = s.cache) :
    s'.slotsOf = s.slotsOf ∧ s'.tableOf = s.tableOf ∧ s'.nextFreeOf = s.nextFreeOf := by
  refine ⟨?_, ?_, ?_⟩
  · funext t c
    rw [slotsOf, hcache, slotsOf]
  · funext t hotClass
    rw [tableOf, hcache, tableOf]
  · funext t hotClass
    rw [nextFreeOf, hcache, nextFreeOf]

end State

/-- The last that happened to a block is that thread `t` acquired it or that it was freed on `t`. -/
def AtHome (log : List (Event Thread ℕ)) (t : Thread) (p : ℕ) : Prop :=
  (∃ room, lastEvent log p = some (.acquired t p room)) ∨ lastEvent log p = some (.returned t p)

/-- What a thread in the middle of a push or a pop relies on: a head that it has loaded is a block, and
the block that it is about to push is linked to the head that it has loaded. -/
def PcOk (block : ℕ → FreeBlock) : Pc → Prop
  | .popNext _ _ _ head => head ≠ 0
  | .popCas _ _ _ head _ => head ≠ 0
  | .pushCas _ ptr head => (block ptr).next = head
  | _ => True

/-- The state agrees with the assignment `place` of blocks to places; `stack c` lists pool `c`. -/
structure Owned (s : State Thread) (place : ℕ → Option (Place Thread)) (stack : ℕ → List ℕ) :
    Prop where
  safe : Safe s.log
  live_iff : ∀ p, p ∈ live s.log ↔ place p = some .client
  slots_nodup : ∀ t c, (s.slotsOf t c).Nodup
  slots_place : ∀ t c, ∀ p ∈ s.slotsOf t c, place p = some (.slot t c)
  linked : ∀ c, Linked (fun p => toPtr (s.block p).next) (toPtr (s.poolHead c)) (stack c)
  stack_place : ∀ c, ∀ p ∈ stack c, place p = some (.pool c)
  carried : ∀ t p, (s.pc t).carries = some p → place p = some (.flight t)
  pcOk : ∀ t, PcOk s.block (s.pc t)
  held_of_place : ∀ p, place p ≠ none → p ∈ held s.log
  valid : ∀ p ∈ held s.log, p ≠ 0 ∧ inThreadPools s.threadPools p = false
  table_nodup : ∀ t, (s.table t).Nodup
  untouched : ∀ t, ∀ hotClass < hotPathSizeClasses, ∀ i p, (s.tableOf t hotClass)[i]? = some p →
    s.nextFreeOf t hotClass ≤ i → ∃ room, lastEvent s.log p = some (.acquired t p room)
  atHome : ∀ t, ∀ p ∈ s.table t, AtHome s.log t p → place p = none ∧ p ∈ held s.log

theorem mem_allBlocks {blocks : ℕ → List ℕ} {p : ℕ} :
    p ∈ allBlocks blocks ↔ ∃ hotClass < hotPathSizeClasses, p ∈ blocks hotClass := by
  simp [allBlocks]

theorem allBlocks_nil : allBlocks (fun _ => []) = [] :=
  List.flatMap_eq_nil_iff.mpr fun _ _ => rfl

/-- The slots change by the block `p` alone, which is there only if `y` says so. -/
def SlotsMove (s s' : State Thread) (p : ℕ) (y : Option (Place Thread)) : Prop :=
  ∀ t c, (s'.slotsOf t c).Nodup ∧ ∀ q ∈ s'.slotsOf t c,
    q ∈ s.slotsOf t c ∧ q ≠ p ∨ q = p ∧ y = some (.slot t c)

/-- The pools are linked and change by the block `p` alone, which is there only if `y` says so. -/
def PoolsMove (stack : ℕ → List ℕ) (s' : State Thread) (stack' : ℕ → List ℕ) (p : ℕ)
    (y : Option (Place Thread)) : Prop :=
  ∀ c, Linked (fun p => toPtr (s'.block p).next) (toPtr (s'.poolHead c)) (stack' c) ∧
    ∀ q ∈ stack' c, q ∈ stack c ∧ q ≠ p ∨ q = p ∧ y = some (.pool c)

/-- What threads carry changes by the block `p` alone, which one carries only if `y` says so. -/
def CarriedMove (s s' : State Thread) (p : ℕ) (y : Option (Place Thread)) : Prop :=
  ∀ t q, (s'.pc t).carries = some q →
    (s.pc t).carries = some q ∧ q ≠ p ∨ q = p ∧ y = some (.flight t)

namespace Owned

variable {s s' : State Thread} {place : ℕ → Option (Place Thread)} {stack stack' : ℕ → List ℕ}
variable {p : ℕ} {t : Thread} {y : Option (Place Thread)}

/-- A block that somebody has is not waiting in a hot path table. -/
theorem not_untouched (h : Owned s place stack) (hplace : place p ≠ none) {hotClass i : ℕ}
    (hclass : hotClass < hotPathSizeClasses) (hentry : (s.tableOf t hotClass)[i]? = some p)
    (hnext : s.nextFreeOf t hotClass ≤ i) : False := by
  have hlast := h.untouched t hotClass hclass i p hentry hnext
  have hmem : p ∈ s.table t := mem_allBlocks.mpr ⟨hotClass, hclass, List.mem_of_getElem? hentry⟩
  exact hplace (h.atHome t p hmem (Or.inl hlast)).1

/-- A position of a hot path table is determined by its block. -/
theorem table_inj (h : Owned s place stack) {hotClass hotClass' i j : ℕ}
    (hclass : hotClass < hotPathSizeClasses) (hclass' : hotClass' < hotPathSizeClasses)
    (hi : (s.tableOf t hotClass)[i]? = some p) (hj : (s.tableOf t hotClass')[j]? = some p) :
    hotClass = hotClass' ∧ i = j := by
  have hnodup := h.table_nodup t
  rw [State.table, allBlocks, List.nodup_flatMap] at hnodup
  have hmem := List.mem_of_getElem? hi
  have hmem' := List.mem_of_getElem? hj
  have heq : hotClass = hotClass' := by
    by_contra hne
    have : Std.Symm (Function.onFun List.Disjoint (s.tableOf t)) :=
      ⟨fun _ _ hxy _ hx hy => hxy hy hx⟩
    have hdisjoint := hnodup.2.forall (List.mem_range.mpr hclass) (List.mem_range.mpr hclass') hne
    exact hdisjoint hmem hmem'
  subst heq
  obtain ⟨hlt, -⟩ := List.getElem?_eq_some_iff.mp hi
  exact ⟨rfl, (List.getElem?_inj hlt (hnodup.1 _ (List.mem_range.mpr hclass))).mp (hi.trans hj.symm)⟩

/-- The block `p` moves to `y`, with the events that this leaves in the log. -/
theorem move (h : Owned s place stack) (y : Option (Place Thread)) (events : List (Event Thread ℕ))
    (hlog : s'.log = events ++ s.log) (hevents : ∀ e ∈ events, e.block = p)
    (hpools : s'.threadPools = s.threadPools) (htable : s'.tableOf = s.tableOf)
    (hnext : ∀ t hotClass, s.nextFreeOf t hotClass ≤ s'.nextFreeOf t hotClass)
    (hslots : SlotsMove s s' p y) (hstack : PoolsMove stack s' stack' p y)
    (hcarried : CarriedMove s s' p y) (hpc : ∀ t, PcOk s'.block (s'.pc t))
    (hsafe : Safe s'.log) (hlive : p ∈ live s'.log ↔ y = some .client)
    (hheld : y ≠ none → p ∈ held s'.log)
    (hvalid : p ∈ held s'.log → p ≠ 0 ∧ inThreadPools s.threadPools p = false)
    (huntouched : ∀ t, ∀ hotClass < hotPathSizeClasses, ∀ i, (s.tableOf t hotClass)[i]? = some p →
      s'.nextFreeOf t hotClass ≤ i → ∃ room, lastEvent s'.log p = some (.acquired t p room))
    (hhome : ∀ t, p ∈ s.table t → AtHome s'.log t p → y = none ∧ p ∈ held s'.log) :
    Owned s' (update place p y) stack' := by
  have htables : s'.table = s.table := by
    funext t
    rw [State.table, htable, State.table]
  -- for the other blocks neither the log nor the assignment has changed
  have hother : ∀ q, q ≠ p → (q ∈ live s'.log ↔ q ∈ live s.log) ∧
      (q ∈ held s'.log ↔ q ∈ held s.log) ∧
      lastEvent s'.log q = lastEvent s.log q := by
    intro q hne
    rw [hlog]
    obtain ⟨hl, hh, -, he⟩ := @BlockLog.append_of_ne _ _ s.log events q _
      fun e he heq => hne (heq.symm.trans (hevents e he))
    exact ⟨hl, hh, he⟩
  constructor
  · exact hsafe
  · intro q
    by_cases hqp : q = p
    · subst hqp
      rw [update_self]
      exact hlive
    · rw [update_of_ne hqp, (hother q hqp).1]
      exact h.live_iff q
  · exact fun t c => (hslots t c).1
  · intro t c q hq
    rcases (hslots t c).2 q hq with ⟨hold, hqp⟩ | ⟨hqp, hy⟩
    · rw [update_of_ne hqp]
      exact h.slots_place t c q hold
    · rw [hqp, update_self, hy]
  · exact fun c => (hstack c).1
  · intro c q hq
    rcases (hstack c).2 q hq with ⟨hold, hqp⟩ | ⟨hqp, hy⟩
    · rw [update_of_ne hqp]
      exact h.stack_place c q hold
    · rw [hqp, update_self, hy]
  · intro t q hq
    rcases hcarried t q hq with ⟨hold, hqp⟩ | ⟨hqp, hy⟩
    · rw [update_of_ne hqp]
      exact h.carried t q hold
    · rw [hqp, update_self, hy]
  · exact hpc
  · intro q hq
    by_cases hqp : q = p
    · subst hqp
      rw [update_self] at hq
      exact hheld hq
    · rw [update_of_ne hqp] at hq
      exact (hother q hqp).2.1.mpr (h.held_of_place q hq)
  · intro q hq
    rw [hpools]
    by_cases hqp : q = p
    · subst hqp
      exact hvalid hq
    · exact h.valid q ((hother q hqp).2.1.mp hq)
  · intro t
    rw [htables]
    exact h.table_nodup t
  · intro t hotClass hclass i q hentry hle
    rw [htable] at hentry
    by_cases hqp : q = p
    · subst hqp
      exact huntouched t hotClass hclass i hentry hle
    · rw [(hother q hqp).2.2]
      exact h.untouched t hotClass hclass i q hentry ((hnext t hotClass).trans hle)
  · intro t q hq hhome'
    rw [htables] at hq
    by_cases hqp : q = p
    · subst hqp
      rw [update_self]
      exact hhome t hq hhome'
    · rw [update_of_ne hqp, (hother q hqp).2.1]
      rw [AtHome, (hother q hqp).2.2] at hhome'
      exact h.atHome t q hq hhome'

/-- Acquiring fresh blocks gives nobody anything. -/
theorem prewarm (h : Owned s place stack) {w : Prewarm} (hw : PrewarmOk s w) (hnone : s.cache t = none) :
    Owned (s.prewarm t w) place stack := by
  have hother : ∀ q ∈ held s.log, q ∉ allBlocks w.blocks := fun q hq hmem => (hw.fresh q hmem).2.1 hq
  have hlast : ∀ q ∈ held s.log,
      lastEvent (s.prewarm t w).log q = lastEvent s.log q := fun q hq =>
    (BlockLog.acquireAll_of_notMem (hother q hq)).1
  have hheld : ∀ q, q ∈ held (s.prewarm t w).log ↔
      q ∈ allBlocks w.blocks ∨ q ∈ held s.log := fun q => BlockLog.mem_held_acquireAll
  refine ⟨h.safe.acquireAll, fun q => ?_, h.slots_nodup, h.slots_place, h.linked, h.stack_place,
    h.carried, h.pcOk, fun q hq => (hheld q).mpr (Or.inr (h.held_of_place q hq)),
    fun q hq => ?_, h.table_nodup, ?_, ?_⟩
  · rw [State.prewarm, BlockLog.live_acquireAll]
    exact h.live_iff q
  · rcases (hheld q).mp hq with hmem | hold
    · exact ⟨(hw.fresh q hmem).1, (hw.fresh q hmem).2.2⟩
    · exact h.valid q hold
  · intro t' hotClass hclass i q hentry hnext
    have hold := h.untouched t' hotClass hclass i q hentry hnext
    have hmem : q ∈ s.table t' := mem_allBlocks.mpr ⟨hotClass, hclass, List.mem_of_getElem? hentry⟩
    rw [hlast q (h.atHome t' q hmem (Or.inl hold)).2]
    exact hold
  · intro t' q hmem hhome
    by_cases hnew : q ∈ allBlocks w.blocks
    · -- the last event names thread `t`, which has no table
      have hevent : lastEvent (s.prewarm t w).log q = some (.acquired t q (w.usable q)) :=
        (BlockLog.acquireAll_of_mem hnew).1
      have htt : t' = t := by
        rcases hhome with ⟨room, heq⟩ | heq
        · rw [hevent] at heq
          exact (Event.acquired.inj (Option.some.inj heq)).1.symm
        · rw [hevent] at heq
          simp at heq
      subst htt
      obtain ⟨hotClass, -, hmem⟩ := mem_allBlocks.mp hmem
      simp [State.tableOf, State.prewarm, hnone] at hmem
    · have hsame : lastEvent (s.prewarm t w).log q = lastEvent s.log q :=
        (BlockLog.acquireAll_of_notMem hnew).1
      rw [AtHome, hsame] at hhome
      obtain ⟨hplace, hold⟩ := h.atHome t' q hmem hhome
      exact ⟨hplace, (hheld q).mpr (Or.inr hold)⟩

theorem slots_keep (h : Owned s place stack) (hp : ∀ t c, place p ≠ some (.slot t c))
    (hslots : s'.slotsOf = s.slotsOf) : SlotsMove s s' p y := by
  intro t c
  rw [hslots]
  refine ⟨h.slots_nodup t c, fun q hq => Or.inl ⟨hq, ?_⟩⟩
  rintro rfl
  exact hp t c (h.slots_place t c q hq)

theorem notMem_stack (h : Owned s place stack) (hp : ∀ c, place p ≠ some (.pool c)) (c : ℕ) :
    p ∉ stack c :=
  fun hmem => hp c (h.stack_place c p hmem)

/-- The pools stay linked when only the words of a block outside them change. -/
theorem stack_keep (h : Owned s place stack) (hp : ∀ c, place p ≠ some (.pool c))
    (hhead : s'.poolHead = s.poolHead) (hblock : ∀ q ≠ p, s'.block q = s.block q) :
    PoolsMove stack s' stack p y := by
  intro c
  rw [hhead]
  have hne : ∀ q ∈ stack c, q ≠ p := fun q hq heq => h.notMem_stack hp c (heq ▸ hq)
  refine ⟨(h.linked c).congr fun q hq => ?_, fun q hq => Or.inl ⟨hq, hne q hq⟩⟩
  rw [hblock q (hne q hq)]

/-- `malloc` hands out a fresh block, which nobody has yet. -/
theorem acquire (h : Owned s place stack) (hp : Fresh s p) (room : ℕ) :
    Owned (s.emit (.acquired t p room)) place stack := by
  have hplace : place p = none := by
    by_contra hne
    exact hp.2.1 (h.held_of_place p hne)
  have hmove : Owned (s.emit (.acquired t p room)) (update place p none) stack := by
    refine h.move none [.acquired t p room] rfl (by simp [Event.block]) rfl rfl (fun _ _ => le_rfl)
      (h.slots_keep (by simp [hplace]) rfl) (h.stack_keep (by simp [hplace]) rfl fun _ _ => rfl)
      (fun t' q hq => Or.inl ⟨hq, ?_⟩) h.pcOk h.safe ?_ (by simp) (fun _ => ⟨hp.1, hp.2.2⟩) ?_ ?_
    · rintro rfl
      have hflight := h.carried t' q hq
      simp [hplace] at hflight
    · refine iff_of_false (fun hmem => ?_) (by simp)
      have hclient := (h.live_iff p).mp hmem
      simp [hplace] at hclient
    · intro t' hotClass hclass i hentry hle
      have hmem : p ∈ s.table t' := mem_allBlocks.mpr ⟨hotClass, hclass, List.mem_of_getElem? hentry⟩
      have hlast := h.untouched t' hotClass hclass i p hentry hle
      exact absurd (h.atHome t' p hmem (Or.inl hlast)).2 hp.2.1
    · exact fun _ _ _ => ⟨rfl, Set.mem_insert _ _⟩
  rwa [← hplace, Function.update_eq_self] at hmove

end Owned

/-! ## What the last event says -/

section

variable {log : List (Event Thread ℕ)} {p n : ℕ} {t t' : Thread}

theorem not_atHome_granted : ¬ AtHome (.granted t p n :: log) t' p := by
  simp [AtHome, lastEvent, Event.block]

theorem not_atHome_released : ¬ AtHome (.released p :: log) t' p := by
  simp [AtHome, lastEvent, Event.block]

theorem atHome_returned : AtHome (.returned t p :: log) t' p ↔ t = t' := by
  simp [AtHome, lastEvent, Event.block]

end

namespace Owned

variable {s s' : State Thread} {place : ℕ → Option (Place Thread)} {stack stack' : ℕ → List ℕ}
variable {p : ℕ} {t : Thread}

/-- A block that no client has is granted, and leaves the place where it was. -/
theorem grant (h : Owned s place stack) {size : ℕ}
    (hlog : s'.log = .granted t p size :: s.log) (hpools : s'.threadPools = s.threadPools)
    (htable : s'.tableOf = s.tableOf)
    (hnext : ∀ t hotClass, s.nextFreeOf t hotClass ≤ s'.nextFreeOf t hotClass)
    (hslots : SlotsMove s s' p (some .client)) (hstack : PoolsMove stack s' stack' p (some .client))
    (hcarried : CarriedMove s s' p (some .client)) (hpc : ∀ t, PcOk s'.block (s'.pc t))
    (hclient : place p ≠ some .client) (hheld : p ∈ held s.log)
    (huntouched : ∀ t, ∀ hotClass < hotPathSizeClasses, ∀ i, (s.tableOf t hotClass)[i]? = some p →
      ¬ s'.nextFreeOf t hotClass ≤ i) :
    Owned s' (update place p (some .client)) stack' := by
  refine h.move _ [.granted t p size] hlog (by simp [Event.block]) hpools htable hnext hslots hstack
    hcarried hpc ?_ ?_ (fun _ => ?_) (fun _ => h.valid p hheld)
    (fun t' hotClass hclass i hentry hle => absurd hle (huntouched t' hotClass hclass i hentry)) ?_
  · rw [hlog]
    refine ⟨?_, h.safe⟩
    rw [h.live_iff]
    exact hclient
  · rw [hlog]
    exact iff_of_true (Set.mem_insert _ _) rfl
  · rw [hlog]
    exact hheld
  · intro t' _ hhome
    rw [hlog] at hhome
    exact absurd hhome not_atHome_granted

end Owned

variable [DecidableEq Thread]

/-- Clients free and write only what is live, and `malloc` keeps its promises. -/
def Admissible (s : State Thread) : Action Thread → Prop
  | .alloc _ size outcome answer => OutcomeOk s outcome ∧ MallocOk s answer size
  | .allocAligned _ size _ answer => MallocOk s answer size
  | .small t _ outcome answer => OutcomeOk s outcome ∧ ∀ size again, s.pc t = .small size again →
      MallocOk (s.getThreadCache t outcome).2 answer size
  | .retry t answer => ∀ size again, s.pc t = .refused size again → MallocOk s answer size
  | .popLoad t answer => ∀ size c again, s.pc t = .popLoad size c again →
      MallocOk s answer (classSize c)
  | .popCas t _ answer => ∀ size c again head next, s.pc t = .popCas size c again head next →
      MallocOk s answer (classSize c)
  | .free _ ptr outcome => ptr ∈ live s.log ∧ OutcomeOk s outcome
  | .write ptr _ => ptr ∈ live s.log
  | _ => True

/-! ## The cache of a thread -/

namespace State

variable (s : State Thread) (t t' : Thread) (cache : Option ThreadCache)

theorem slotsOf_setCache (c : ℕ) : (s.setCache t cache).slotsOf t' c =
    if t' = t then cache.elim [] fun cache => cache.slots c else s.slotsOf t' c := by
  by_cases htt : t' = t
  · subst htt
    simp [slotsOf, setCache]
  · simp [slotsOf, setCache, htt]

theorem tableOf_setCache (hotClass : ℕ) : (s.setCache t cache).tableOf t' hotClass =
    if t' = t then cache.elim [] fun cache => cache.hotPath.preallocatedBlocks hotClass
    else s.tableOf t' hotClass := by
  by_cases htt : t' = t
  · subst htt
    simp [tableOf, setCache]
  · simp [tableOf, setCache, htt]

theorem nextFreeOf_setCache (hotClass : ℕ) : (s.setCache t cache).nextFreeOf t' hotClass =
    if t' = t then cache.elim 0 fun cache => cache.hotPath.nextFree hotClass
    else s.nextFreeOf t' hotClass := by
  by_cases htt : t' = t
  · subst htt
    simp [nextFreeOf, setCache]
  · simp [nextFreeOf, setCache, htt]

theorem table_setCache : (s.setCache t cache).table t' =
    if t' = t then cache.elim [] fun cache => allBlocks cache.hotPath.preallocatedBlocks
    else s.table t' := by
  rw [table, funext (s.tableOf_setCache t t' cache)]
  by_cases htt : t' = t
  · cases cache <;> simp [htt, allBlocks]
  · simp only [htt, if_false]
    rfl

section

variable {s t} {cache : ThreadCache} (cache' : ThreadCache) (hcache : s.cache t = some cache)
include hcache

theorem slotsOf_setCache_of_eq (hslots : cache'.slots = cache.slots) :
    (s.setCache t (some cache')).slotsOf = s.slotsOf := by
  funext t' c
  rw [slotsOf_setCache]
  split
  · rename_i htt
    simp [htt, slotsOf, hcache, hslots]
  · rfl

theorem tableOf_setCache_of_eq
    (htable : cache'.hotPath.preallocatedBlocks = cache.hotPath.preallocatedBlocks) :
    (s.setCache t (some cache')).tableOf = s.tableOf := by
  funext t' hotClass
  rw [tableOf_setCache]
  split
  · rename_i htt
    simp [htt, tableOf, hcache, htable]
  · rfl

theorem nextFreeOf_setCache_of_eq (hnext : cache'.hotPath.nextFree = cache.hotPath.nextFree) :
    (s.setCache t (some cache')).nextFreeOf = s.nextFreeOf := by
  funext t' hotClass
  rw [nextFreeOf_setCache]
  split
  · rename_i htt
    simp [htt, nextFreeOf, hcache, hnext]
  · rfl

/-- The slots of one thread and one class are replaced. -/
theorem slotsOf_setSlots (c : ℕ) (l : List ℕ) (t' : Thread) (c' : ℕ) :
    (s.setCache t (some { cache with slots := update cache.slots c l })).slotsOf t' c' =
      if t' = t ∧ c' = c then l else s.slotsOf t' c' := by
  rw [slotsOf_setCache]
  by_cases htt : t' = t
  · subst htt
    by_cases hcc : c' = c
    · subst hcc
      simp
    · simp [hcc, slotsOf_of_cache hcache]
  · simp [htt]

end

/-- `get_thread_cache` changes nothing that another thread can see, and returns the cache that thread
`t` has afterwards. -/
theorem getThreadCache_frame (outcome : CacheOutcome) :
    (s.getThreadCache t outcome).1 = (s.getThreadCache t outcome).2.cache t ∧
      (s.getThreadCache t outcome).2.pc = s.pc ∧
      (s.getThreadCache t outcome).2.poolHead = s.poolHead ∧
      (s.getThreadCache t outcome).2.block = s.block ∧
      (s.getThreadCache t outcome).2.threadPools = s.threadPools ∧
      live (s.getThreadCache t outcome).2.log = live s.log := by
  unfold getThreadCache
  cases hcache : s.cache t with
  | some cache => exact ⟨hcache.symm, rfl, rfl, rfl, rfl, rfl⟩
  | none =>
      cases outcome with
      | unavailable => exact ⟨hcache.symm, rfl, rfl, rfl, rfl, rfl⟩
      | unregistered w => exact ⟨hcache.symm, rfl, rfl, rfl, rfl, BlockLog.live_acquireAll⟩
      | created w =>
          refine ⟨?_, rfl, rfl, rfl, rfl, BlockLog.live_acquireAll⟩
          simp [setCache]

end State

/-- `get_thread_cache` leaves the blocks alone that the manager holds already. -/
theorem State.getThreadCache_log {s : State Thread} {outcome : CacheOutcome} (ho : OutcomeOk s outcome)
    (t : Thread) {p : ℕ} (hp : p ∈ held s.log) :
    lastEvent (s.getThreadCache t outcome).2.log p = lastEvent s.log p ∧
      usable (s.getThreadCache t outcome).2.log p = usable s.log p ∧
      p ∈ held (s.getThreadCache t outcome).2.log := by
  have hprewarm : ∀ w, PrewarmOk s w →
      lastEvent (s.prewarm t w).log p = lastEvent s.log p ∧
        usable (s.prewarm t w).log p = usable s.log p ∧ p ∈ held (s.prewarm t w).log := by
    intro w hw
    have hnew : p ∉ allBlocks w.blocks := fun hmem => (hw.fresh p hmem).2.1 hp
    obtain ⟨hlast, husable⟩ := @BlockLog.acquireAll_of_notMem _ _ s.log p _ t w.usable _ hnew
    exact ⟨hlast, husable, BlockLog.mem_held_acquireAll.mpr (Or.inr hp)⟩
  unfold State.getThreadCache
  cases hcache : s.cache t with
  | some cache => exact ⟨rfl, rfl, hp⟩
  | none =>
      cases outcome with
      | unavailable => exact ⟨rfl, rfl, hp⟩
      | unregistered w => exact hprewarm w ho
      | created w => exact hprewarm w ho

namespace Owned

variable {s : State Thread} {place : ℕ → Option (Place Thread)} {stack : ℕ → List ℕ}
variable {p : ℕ} {t : Thread}

/-- A new cache has empty slots, and all blocks of its table are at home. -/
theorem create (h : Owned s place stack) {w : Prewarm} (hw : PrewarmOk s w) (hnone : s.cache t = none) :
    Owned ((s.prewarm t w).setCache t (some ⟨fun _ => [], ⟨w.blocks, fun _ => 0⟩⟩)) place stack := by
  have h₁ := h.prewarm hw hnone
  set s₁ := s.prewarm t w with hs₁
  have hevent : ∀ q ∈ allBlocks w.blocks, lastEvent s₁.log q = some (.acquired t q (w.usable q)) :=
    fun q hq => (BlockLog.acquireAll_of_mem hq).1
  refine ⟨h₁.safe, h₁.live_iff, fun t' c => ?_, fun t' c q hq => ?_, h₁.linked, h₁.stack_place,
    h₁.carried, h₁.pcOk, h₁.held_of_place, h₁.valid, fun t' => ?_,
    fun t' hotClass hclass i q hentry hnext => ?_, fun t' q hmem hhome => ?_⟩
  · rw [State.slotsOf_setCache]
    split
    · exact List.nodup_nil
    · exact h₁.slots_nodup t' c
  · rw [State.slotsOf_setCache] at hq
    split at hq
    · simp at hq
    · exact h₁.slots_place t' c q hq
  · rw [State.table_setCache]
    split
    · exact hw.nodup
    · exact h₁.table_nodup t'
  · rw [State.tableOf_setCache] at hentry
    rw [State.nextFreeOf_setCache] at hnext
    split at hentry
    · rename_i htt
      subst htt
      have hmem : q ∈ allBlocks w.blocks :=
        mem_allBlocks.mpr ⟨hotClass, hclass, List.mem_of_getElem? hentry⟩
      exact ⟨w.usable q, hevent q hmem⟩
    · rename_i htt
      rw [if_neg htt] at hnext
      exact h₁.untouched t' hotClass hclass i q hentry hnext
  · rw [State.table_setCache] at hmem
    split at hmem
    · have hfresh := hw.fresh q hmem
      refine ⟨?_, BlockLog.mem_held_acquireAll.mpr (Or.inl hmem)⟩
      by_contra hplace
      exact hfresh.2.1 (h.held_of_place q hplace)
    · exact h₁.atHome t' q hmem hhome

theorem getThreadCache (h : Owned s place stack) {outcome : CacheOutcome} (ho : OutcomeOk s outcome) :
    Owned (s.getThreadCache t outcome).2 place stack := by
  unfold State.getThreadCache
  cases hcache : s.cache t with
  | some cache => exact h
  | none =>
      cases outcome with
      | unavailable => exact h
      | unregistered w => exact h.prewarm ho hcache
      | created w => exact h.create ho hcache

end Owned

end LgxRuntime.MemoryManager
