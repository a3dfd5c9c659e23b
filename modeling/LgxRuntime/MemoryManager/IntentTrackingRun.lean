import LgxRuntime.MemoryManager.Calls

/-!
# The table over runs of one thread

In a run of calls of one thread the only way to get a live block again is a hot path counter: it is read
into 32 bits, and after 2^32 requests of one class it comes back to the blocks that the first ones got.
While it comes back to blocks that are not live, the table has one entry for each live pointer that was
allocated with an intent.
-/

namespace LgxRuntime.MemoryManager

open Function (update update_self update_of_ne)
open BlockLog (live held)
open State (CacheOutcome Prewarm allBlocks)
open Intent (AllocationIntent)

variable {Thread : Type} [DecidableEq Thread]

/-! ## Runs -/

/-- The block that the hot path would hand out is not live.  The counter is read into 32 bits. -/
def HotBlockFree (m : Manager Thread) (t : Thread) (size : ℕ) : Prop :=
  0 < size → ∀ hotClass, getHotPathSizeClass size = some hotClass → ∀ p,
    (m.state.tableOf t hotClass)[m.state.nextFreeOf t hotClass % 2 ^ 32]? = some p →
      p ∉ live m.state.log

/-- What the client has, by pointer, if it allocated the pointer with an intent: the size and the intent. -/
abbrev Requests : Type :=
  ℕ → Option (ℕ × AllocationIntent)

/-- The client gets what `lgx_memory_manager_alloc` returns. -/
def receive (t : Thread) (size : ℕ) (intent : Option AllocationIntent) (requests : Requests)
    (result : Option ℕ × Manager Thread) : Manager Thread × Requests :=
  match result with
  | (none, m) => (m, requests)
  | (some ptr, m) =>
      ({ m with state := m.state.grant t ptr size },
        update requests ptr (intent.map fun intent => (size, intent)))

/-- The runs of thread `t` alone: calls of `lgx_memory_manager_alloc`, calls of `lgx_memory_manager_free`
with what is live, and writes to what is live.  `malloc` keeps its promises, and the table grows when it
has to; requests are made where `condition` holds. -/
inductive Run (t : Thread) (condition : Manager Thread → Thread → ℕ → Prop) :
    Manager Thread × Requests → Prop
  | init (threadPools : ℕ) (contents : ℕ → FreeBlock) :
      Run t condition (Manager.init threadPools contents, fun _ => none)
  | alloc {m : Manager Thread} {requests : Requests} (size : ℕ) (intent : Option AllocationIntent)
      (a : AllocAnswers) (hrun : Run t condition (m, requests)) (ha : AllocOk m t size a)
      (hgrows : m.intents.Full → a.tracking.grows = true) (hcondition : condition m t size) :
      Run t condition (receive t size intent requests (m.alloc t size intent a))
  | free {m : Manager Thread} {requests : Requests} (ptr : ℕ) (outcome : CacheOutcome) (spurious : ℕ)
      (hrun : Run t condition (m, requests)) (hlive : ptr ∈ live m.state.log)
      (ho : OutcomeOk m.state outcome) :
      Run t condition (m.free t ptr outcome spurious, update requests ptr none)
  | write {m : Manager Thread} {requests : Requests} (ptr : ℕ) (contents : FreeBlock)
      (hrun : Run t condition (m, requests)) (hlive : ptr ∈ live m.state.log) :
      Run t condition
        ({ m with state := { m.state with block := update m.state.block ptr contents } }, requests)

/-- What holds between the calls of a run. -/
structure Settled (t : Thread) (m : Manager Thread) (requests : Requests) : Prop where
  reachable : Reachable Orderly m.state
  idle : m.state.pc t = .idle
  settled : TableSettled m.state t
  tracks : m.intents.Tracks requests
  requests_live : ∀ p, requests p ≠ none → p ∈ live m.state.log

section

variable {m : Manager Thread} {requests : Requests} {t : Thread}

omit [DecidableEq Thread] in
/-- In a run of one thread a block of the table that is not live is at home. -/
theorem HotBlockFree.wrapsHome {size : ℕ} (h : HotBlockFree m t size) (hsettled : TableSettled m.state t)
    (hpos : 0 < size) : WrapsHome m.state t size := by
  intro hotClass hclass _ p hentry
  refine hsettled p (mem_allBlocks.mpr ⟨hotClass, ?_, List.mem_of_getElem? hentry⟩)
    (h hpos hotClass hclass p hentry)
  exact (getHotPathSizeClass_spec hclass).1

theorem Settled.init (t : Thread) (threadPools : ℕ) (contents : ℕ → FreeBlock) :
    Settled t (Manager.init threadPools contents) fun _ => none where
  reachable := .init threadPools contents
  idle := rfl
  settled := by
    intro p hp
    rw [State.table_of_none rfl] at hp
    simp at hp
  tracks := KeyTable.Holds.nil
  requests_live := by simp

theorem Settled.alloc (h : Settled t m requests) {size : ℕ} {intent : Option AllocationIntent}
    {a : AllocAnswers} (ha : AllocOk m t size a) (hgrows : m.intents.Full → a.tracking.grows = true)
    (hfree : HotBlockFree m t size) :
    Settled t (receive t size intent requests (m.alloc t size intent a)).1
      (receive t size intent requests (m.alloc t size intent a)).2 := by
  have hreturns := @alloc_returns _ _ m t size a intent ha h.idle (hfree.wrapsHome h.settled) h.reachable
  have hquiet := quiet_alloc m t size intent a
  have hintents := m.alloc_intents t size intent a
  generalize m.alloc t size intent a = result at hreturns hquiet hintents ⊢
  obtain ⟨found, m₁⟩ := result
  have hidle : m₁.state.pc t = .idle := by rw [hquiet.pc, h.idle]
  have hlive : ∀ p, requests p ≠ none → p ∈ live m₁.state.log := by
    rw [hquiet.live]
    exact h.requests_live
  cases found with
  | none =>
      have hsame : m₁.state.goto t .idle = m₁.state := State.goto_eq_self hidle
      simp only [Returns, hsame] at hreturns
      have htable : m₁.intents = m.intents := hintents
      exact ⟨hreturns, hidle, hquiet.settled h.settled, htable ▸ h.tracks, hlive⟩
  | some ptr =>
      -- the block was not live, so the client has not asked for it yet
      have hnot : ptr ∉ live m₁.state.log := (safe_of_orderly hreturns).1
      have hnew : requests ptr = none := by
        by_contra hne
        exact hnot (hlive ptr hne)
      have htable : m₁.intents = m.intents.trackAllocation ptr size intent a.tracking := hintents
      refine ⟨hreturns, State.goto_pc .., ?_, htable ▸ h.tracks.trackAllocation intent hgrows hnew,
        fun p hp => ?_⟩
      · exact ((hquiet.settled h.settled).emit fun _ hdead => absurd (Set.mem_insert _ _) hdead).congr
          rfl rfl
      · by_cases hpp : p = ptr
        · exact Or.inl hpp
        · have hold : update requests ptr (intent.map fun intent => (size, intent)) p ≠ none := hp
          rw [update_of_ne hpp] at hold
          exact Or.inr (hlive p hold)

theorem Settled.free (h : Settled t m requests) {ptr : ℕ} {outcome : CacheOutcome} {spurious : ℕ}
    (hlive : ptr ∈ live m.state.log) (ho : OutcomeOk m.state outcome) :
    Settled t (m.free t ptr outcome spurious) (update requests ptr none) := by
  have hstep : Reachable Orderly (m.state.free t ptr outcome) := by
    refine h.reachable.step (.free t ptr outcome) ⟨hlive, ho⟩ trivial ?_
    simp only [step, h.idle]
  have hfreed := @freed_free _ _ m.state t ptr h.idle outcome
  obtain ⟨hreach, hidle⟩ := reachable_lockfreePush hstep hfreed.pc spurious
  obtain ⟨hlog, hcache⟩ := @lockfreePush_frame _ _ (m.state.free t ptr outcome) t spurious
  have htable := (State.views_of_cache hcache).2.1
  refine ⟨hreach, hidle, (hfreed.settled h.settled).congr ?_ hlog, h.tracks.untrackAllocation ptr,
    fun p hp => ?_⟩
  · rw [State.table, State.table]
    exact congrArg (fun table => allBlocks (table t)) htable
  · have hpp : p ≠ ptr := by
      rintro rfl
      exact hp (update_self ..)
    rw [update_of_ne hpp] at hp
    have hmem : p ∈ live (m.state.free t ptr outcome).log := by
      rw [hfreed.live]
      exact ⟨h.requests_live p hp, hpp⟩
    rwa [← hlog] at hmem

theorem Settled.write (h : Settled t m requests) {ptr : ℕ} (hlive : ptr ∈ live m.state.log)
    (contents : FreeBlock) : Settled t
      { m with state := { m.state with block := update m.state.block ptr contents } } requests where
  reachable := h.reachable.step (.write ptr contents) hlive trivial rfl
  idle := h.idle
  settled := h.settled
  tracks := h.tracks
  requests_live := h.requests_live

theorem Run.settled {r : Manager Thread × Requests} (h : Run t HotBlockFree r) : Settled t r.1 r.2 := by
  induction h with
  | init threadPools contents => exact Settled.init t threadPools contents
  | alloc size intent a _ ha hgrows hfree ih => exact ih.alloc ha hgrows hfree
  | free ptr outcome spurious _ hlive ho ih => exact ih.free hlive ho
  | write ptr contents _ hlive ih => exact ih.write hlive contents

/-- In every run of one thread in which the hot path hands out no live block, the table has exactly one
entry for each live pointer allocated with an intent, with its size and intent, and no other entry. -/
theorem tracks_of_run {r : Manager Thread × Requests} (h : Run t HotBlockFree r) :
    r.1.intents.Tracks r.2 ∧ ∀ p, r.2 p ≠ none → p ∈ live r.1.state.log :=
  ⟨h.settled.tracks, h.settled.requests_live⟩

end

/-! ## A counter that comes back

`malloc` has given the hot path table of thread 0 one block.  The first request gets it; all others fail,
and count. -/

/-- The block of the table. -/
def hotBlock : ℕ := 16384

/-- The answers of `malloc` for the table. -/
def oneBlock : Prewarm where
  blocks hotClass := if hotClass = 0 then [hotBlock] else []
  usable _ := 64

/-- The chaos mode injects a failure. -/
def refusing : SmallAnswers :=
  ⟨true, true, .unavailable, fun _ => none, 0⟩

/-- A call in which everything fails but the hot path. -/
def hotOnly (outcome : CacheOutcome) : AllocAnswers :=
  ⟨outcome, refusing, refusing, fun _ => none, ⟨true, 0⟩⟩

/-- The manager after `n` requests of 64 bytes. -/
def counted (n : ℕ) : Manager ℕ where
  state :=
    { cache := update (fun _ => none) 0
        (some ⟨fun _ => [], ⟨oneBlock.blocks, update (fun _ => 0) 0 n⟩⟩)
      pc := fun _ => .idle
      poolHead := fun _ => 0
      poolGeneration := fun _ => 1
      block := fun _ => ⟨0, 0⟩
      threadPools := 2 ^ 40
      log := [.granted 0 hotBlock 64, .acquired 0 hotBlock 64] }
  intents :=
    ⟨[⟨1, 64, 3, 0xDEADBEEF, Intent.persistentIntent 64, 0, hotBlock⟩], 10000, 2⟩

/-- The one live pointer. -/
def countedRequests : Requests :=
  update (fun _ => none) hotBlock (some (64, Intent.persistentIntent 64))

theorem smallOk_refusing (s : State ℕ) (t : ℕ) : SmallOk s t refusing :=
  ⟨trivial, fun _ => mallocOk_none⟩

theorem allocOk_hotOnly {m : Manager ℕ} {t size : ℕ} {outcome : CacheOutcome}
    (ho : OutcomeOk m.state outcome) : AllocOk m t size (hotOnly outcome) :=
  ⟨ho, smallOk_refusing _ _, smallOk_refusing _ _, fun _ => mallocOk_none⟩

theorem allBlocks_oneBlock : allBlocks oneBlock.blocks = [hotBlock] :=
  rfl

theorem prewarmOk_oneBlock {contents : ℕ → FreeBlock} :
    PrewarmOk (Manager.init (2 ^ 40) contents : Manager ℕ).state oneBlock where
  length_le hotClass := by
    simp only [oneBlock]
    split <;> decide
  nodup := by
    rw [allBlocks_oneBlock]
    exact List.nodup_singleton hotBlock
  fresh p hp := by
    rw [allBlocks_oneBlock, List.mem_singleton] at hp
    subst hp
    have hpools : inThreadPools (2 ^ 40) hotBlock = false := by decide
    exact ⟨by decide, by simp [Manager.init, init, held], hpools⟩
  room hotClass hclass p hp := by
    simp only [oneBlock] at hp ⊢
    split at hp
    · rename_i hzero
      rw [hzero]
      decide
    · simp at hp

/-- Every other request only counts, until the counter comes back to `0` in 32 bits. -/
theorem takeHot_counted (n : ℕ) (outcome : CacheOutcome) :
    (counted n).state.takeHot 0 64 outcome = ([hotBlock][n % 2 ^ 32]?, (counted (n + 1)).state) := by
  have hclass : getHotPathSizeClass 64 = some 0 := rfl
  have hcreate : (counted n).state.getThreadCache 0 outcome =
      (some ⟨fun _ => [], ⟨oneBlock.blocks, update (fun _ => 0) 0 n⟩⟩, (counted n).state) := by
    simp [State.getThreadCache, counted]
  have hbump : (counted n).state.setCache 0
      (some ⟨fun _ => [], ⟨oneBlock.blocks, update (update (fun _ => 0) 0 n) 0 (n + 1)⟩⟩) =
        (counted (n + 1)).state := by
    simp [State.setCache, counted]
  simp only [State.takeHot, hclass, hcreate, update_self, hbump]
  split
  · rename_i hfull
    have hpast : [hotBlock].length ≤ n % 2 ^ 32 := (by decide : 1 ≤ hotPathCacheSize).trans hfull
    rw [List.getElem?_eq_none hpast]
  · rfl

/-- The first request creates the table. -/
theorem takeHot_init : (Manager.init (2 ^ 40) fun _ => ⟨0, 0⟩ : Manager ℕ).state.takeHot 0 64
    (.created oneBlock) = (some hotBlock, { (counted 1).state with log := [.acquired 0 hotBlock 64] }) := by
  have hcreate : (Manager.init (2 ^ 40) fun _ => ⟨0, 0⟩ : Manager ℕ).state.getThreadCache 0
      (.created oneBlock) = (some ⟨fun _ => [], ⟨oneBlock.blocks, fun _ => 0⟩⟩,
        ((Manager.init (2 ^ 40) fun _ => ⟨0, 0⟩ : Manager ℕ).state.prewarm 0 oneBlock).setCache 0
          (some ⟨fun _ => [], ⟨oneBlock.blocks, fun _ => 0⟩⟩)) := rfl
  have hclass : getHotPathSizeClass 64 = some 0 := rfl
  have hfirst : ¬ 0 % 2 ^ 32 ≥ hotPathCacheSize := by decide
  simp only [State.takeHot, hclass, hcreate, if_neg hfirst]
  have husable : oneBlock.usable hotBlock = 64 := rfl
  refine Prod.ext rfl ?_
  simp [State.setCache, State.prewarm, Manager.init, init, counted, allBlocks_oneBlock,
    BlockLog.acquireAll, husable]

/-- The first request gets the block. -/
theorem receive_init : receive 0 64 (some (Intent.persistentIntent 64)) (fun _ => none)
    ((Manager.init (2 ^ 40) fun _ => ⟨0, 0⟩ : Manager ℕ).alloc 0 64 (some (Intent.persistentIntent 64))
      (hotOnly (.created oneBlock))) = (counted 1, countedRequests) := by
  have hidle : (counted 1).state.goto 0 .idle = (counted 1).state := State.goto_eq_self rfl
  rw [Manager.alloc, Manager.allocateUltraFast]
  simp only [hotOnly, takeHot_init]
  exact congrArg (fun s => (({ counted 1 with state := s } : Manager ℕ), countedRequests)) hidle

/-- A later request is refused. -/
theorem alloc_counted {n : ℕ} (hpos : 0 < n) (hn : n < 2 ^ 32) (intent : Option AllocationIntent) :
    (counted n).alloc 0 64 intent (hotOnly .unavailable) = (none, counted (n + 1)) := by
  have hpast : [hotBlock].length ≤ n % 2 ^ 32 := by
    rw [Nat.mod_eq_of_lt hn]
    exact hpos
  have hultra : (counted n).allocateUltraFast 0 64 (hotOnly .unavailable) = (none, counted (n + 1)) := by
    rw [Manager.allocateUltraFast, takeHot_counted, List.getElem?_eq_none hpast]
    rfl
  rw [Manager.alloc, hultra]
  rfl

/-- After 2^32 requests the block is handed out again. -/
theorem alloc_wrapped (intent : Option AllocationIntent) :
    (counted (2 ^ 32)).alloc 0 64 intent (hotOnly .unavailable) =
      (some hotBlock, { counted (2 ^ 32 + 1) with
        intents := (counted 1).intents.trackAllocation hotBlock 64 intent ⟨true, 0⟩ }) := by
  have hultra : (counted (2 ^ 32)).allocateUltraFast 0 64 (hotOnly .unavailable) =
      (some hotBlock, counted (2 ^ 32 + 1)) := by
    rw [Manager.allocateUltraFast, takeHot_counted, Nat.mod_self]
    rfl
  rw [Manager.alloc, hultra]
  rfl

theorem run_counted {condition : Manager ℕ → ℕ → ℕ → Prop}
    (hcondition : condition (Manager.init (2 ^ 40) fun _ => ⟨0, 0⟩) 0 64) :
    Run 0 condition (counted 1, countedRequests) := by
  rw [← receive_init]
  exact .alloc 64 _ _ (.init _ _) (allocOk_hotOnly prewarmOk_oneBlock) (fun _ => rfl) hcondition

theorem run_counted_of_lt (n : ℕ) (hn : n < 2 ^ 32) :
    Run 0 (fun _ _ _ => True) (counted (n + 1), countedRequests) := by
  induction n with
  | zero => exact run_counted trivial
  | succ n ih =>
      have hrun := Run.alloc 64 none (hotOnly .unavailable) (ih (by omega)) (allocOk_hotOnly trivial)
        (fun _ => rfl) trivial
      rwa [alloc_counted n.succ_pos hn] at hrun

/-- The table is right after the first request. -/
theorem tracks_counted : (counted 1).intents.Tracks countedRequests ∧
    ∀ p, countedRequests p ≠ none → p ∈ live (counted 1).state.log := by
  refine tracks_of_run (@run_counted HotBlockFree fun _ hotClass _ p hentry => ?_)
  simp [State.tableOf, Manager.init, init] at hentry

/-- A live block that is handed out again has two entries. -/
theorem not_tracks_of_wrap : ¬ ∀ r : Manager ℕ × Requests, Run 0 (fun _ _ _ => True) r →
    r.1.intents.Tracks r.2 := by
  intro hall
  have hrun := Run.alloc 64 (some (Intent.persistentIntent 64)) (hotOnly .unavailable)
    (run_counted_of_lt (2 ^ 32 - 1) (by omega)) (allocOk_hotOnly trivial) (fun _ => rfl) trivial
  rw [show 2 ^ 32 - 1 + 1 = 2 ^ 32 by omega, alloc_wrapped] at hrun
  have htracks := hall _ hrun hotBlock
  simp [receive, KeyTable.valuesOf, IntentTable.trackAllocation, counted, countedRequests] at htracks

end LgxRuntime.MemoryManager
