import LgxRuntime.MemorySafety.Lists
import LgxRuntime.Lib.Interleaving

/-!
# Runs of the safety allocator

A run is a sequence of calls with the answers of `malloc`, and of clients that write over the canaries of
their blocks.  Beside the state it is recorded which blocks clients have and under which configuration each
was allocated, which the allocator does not do.

`Tidy` is what holds as long as no free comes under a configuration that the block does not fit
(`Steady`): the list of active allocations and the queue are lists of allocated blocks, and each block that
a client has is on the list if tracking was enabled for it.
-/

namespace LgxRuntime.MemorySafety

open Function (update update_self update_of_ne)

/-- The configuration that a block was allocated under, and whether its canaries have not been
overwritten. -/
structure Birth where
  config : Config
  intact : Bool

/-- The state, the blocks that clients have, whether a tracked block has been freed while tracking was
disabled, and the blocks that were passed to `lgx_memory_safety_free`. -/
structure World where
  state : State
  live : ℕ → Option Birth
  stale : Bool
  passed : List ℕ

/-- The calls, and the writes of clients over canaries.  A pointer of a client is given by its block. -/
inductive Call
  | alloc (size : ℕ) (answer : Option ℕ)
  | free (fuel raw behind : ℕ) (answer : Option ℕ)
  | advanceFrame (fuel : ℕ)
  | setConfig (config : Config)
  | overwrite (raw canaryPrefix canarySuffix trailing : ℕ)
  | init
  | shutdown (fuel : ℕ)

/-- A client writes over the canaries of a block. -/
def State.overwrite (s : State) (raw canaryPrefix canarySuffix trailing : ℕ) : State :=
  { s with
    block := update s.block raw ((s.block raw).map fun b =>
      { metadata := { b.metadata with canaryPrefix := canaryPrefix, canarySuffix := canarySuffix }
        trailing := b.trailing.map fun _ => trailing }) }

namespace World

/-- Whether a block was tracked, and tracking is disabled. -/
def losesTrack (w : World) (raw : ℕ) : Bool :=
  !w.state.config.trackingEnabled && (w.live raw).any fun birth => birth.config.trackingEnabled

/-- One call. -/
def step (pageSize : ℕ) (w : World) : Call → Option World
  | .alloc size answer =>
      (w.state.alloc pageSize size answer).map fun result =>
        { w with
          state := result.2
          live := result.1.elim w.live fun ptr =>
            update w.live (ptr - metadataSize) (some ⟨w.state.config, true⟩) }
  | .free fuel raw behind answer =>
      (w.state.free fuel (raw + metadataSize) behind answer).map fun s =>
        { state := s
          live := update w.live raw none
          stale := w.stale || w.losesTrack raw
          passed := raw :: w.passed }
  | .advanceFrame fuel => (w.state.advanceFrame fuel).map fun s => { w with state := s }
  | .setConfig config => some { w with state := w.state.setConfig config }
  | .overwrite raw canaryPrefix canarySuffix trailing =>
      some { w with
        state := w.state.overwrite raw canaryPrefix canarySuffix trailing
        live := update w.live raw ((w.live raw).map fun birth => { birth with intact := false }) }
  | .init => some { w with state := w.state.init }
  | .shutdown fuel => (w.state.shutdown fuel).map fun s => { w with state := s }

/-- What the allocator is promised: `malloc` returns memory that is not in use, and clients free and write
over blocks that they have. -/
def Admissible (w : World) : Call → Prop
  | .alloc _ answer => ∀ raw, answer = some raw → w.state.block raw = none
  | .free _ raw _ answer =>
      w.live raw ≠ none ∧ ∀ node, answer = some node → w.state.node node = none
  | .overwrite raw _ _ _ => w.live raw ≠ none
  | .advanceFrame _ | .setConfig _ | .init | .shutdown _ => True

/-- A free under a configuration that the block fits.  If canaries are enabled then they were so for the
block, or what lies behind it is a canary by chance.  If tracking is enabled then it was so for the block,
and no tracked block has been freed without it. -/
def Steady (w : World) : Call → Prop
  | .free _ raw behind _ => ∀ birth, w.live raw = some birth →
      (w.state.config.canariesEnabled → birth.config.canariesEnabled ∨ behind = canarySuffix) ∧
        (w.state.config.trackingEnabled → birth.config.trackingEnabled ∧ w.stale = false)
  | .alloc _ _ | .advanceFrame _ | .setConfig _ | .overwrite _ _ _ _ | .init | .shutdown _ => True

end World

/-! ## What holds of the lists and the blocks -/

/-- The guards of a block that has just been laid out. -/
def mint (raw : ℕ) (config : Config) : Guards :=
  ⟨canaryPrefix, canarySuffix, raw + metadataSize,
    if config.canariesEnabled then some canarySuffix else none⟩

/-- The lists are lists of allocated blocks, apart from each other and from what clients have. -/
structure Tidy (w : World) (active : List ℕ) (queue : List Entry) : Prop where
  delayed : w.state.DelayedList queue
  count : w.state.delayedCount = queue.length
  bound : queue.length ≤ maxDelayedAllocs
  distinct : (queue.map Entry.ptr).Nodup
  queued : ∀ raw ∈ queue.map Entry.ptr, w.state.guards raw ≠ none ∧ w.live raw = none ∧
    (w.stale = false → raw ∉ active)
  userPtr : ∀ raw g, w.state.guards raw = some g → g.userPtr = raw + metadataSize
  live : ∀ raw birth, w.live raw = some birth →
    ∃ g, w.state.guards raw = some g ∧ (birth.intact = true → g = mint raw birth.config)
  active : w.stale = false → w.state.ActiveList active ∧
    ∀ raw birth, w.live raw = some birth → (raw ∈ active ↔ birth.config.trackingEnabled = true)

/-! ## Allocation -/

section

variable {pageSize size raw ptr fuel behind : ℕ} {s s' : State} {w w' : World} {answer : Option ℕ}
  {birth : Birth} {active : List ℕ} {queue : List Entry}

/-- `lgx_memory_safety_alloc` returns no pointer, or one to a block that it has laid out and tracked. -/
theorem alloc_cases {result : Option ℕ × State} (h : s.alloc pageSize size answer = some result) :
    result = (none, s) ∨ ∃ raw b, answer = some raw ∧ b.guards = mint raw s.config ∧
      result = (some (raw + metadataSize),
        { s with block := update s.block raw (some b) }.trackAllocation raw) := by
  cases answer with
  | none =>
      rw [State.alloc, ite_self] at h
      exact Or.inl (Option.some.inj h).symm
  | some raw =>
      rw [State.alloc] at h
      by_cases hsize : size = 0
      · rw [if_pos hsize] at h
        exact Or.inl (Option.some.inj h).symm
      · rw [if_neg hsize] at h
        obtain ⟨-, hresult⟩ := Option.ite_none_right_eq_some.mp h
        exact Or.inr ⟨raw, _, rfl, rfl, (Option.some.inj hresult).symm⟩

/-- What `track_allocation` leaves alone. -/
theorem exists_trackAllocation_eq (s : State) (raw : ℕ) :
    ∃ head count total block, s.trackAllocation raw =
      { s with
        activeAllocations := head
        activeCount := count
        totalAllocations := total
        block := block } := by
  unfold State.trackAllocation
  split_ifs
  · exact ⟨_, _, _, _, rfl⟩
  · exact ⟨_, _, _, _, rfl⟩

theorem guards_trackAllocation (s : State) (raw : ℕ) : (s.trackAllocation raw).guards = s.guards := by
  unfold State.trackAllocation
  split_ifs
  · rfl
  · exact State.guards_setMetadata (f := fun metadata => { metadata with next := s.activeAllocations })
      fun b => rfl

/-- A new block is laid out. -/
def State.lay (s : State) (raw : ℕ) (b : Block) : State :=
  { s with block := update s.block raw (some b) }

theorem guards_lay (s : State) (raw : ℕ) (b : Block) :
    (s.lay raw b).guards = update s.guards raw (some b.guards) := by
  funext a
  by_cases ha : a = raw
  · rw [ha, update_self, State.guards]
    simp [State.lay]
  · rw [update_of_ne ha, State.guards, State.guards]
    simp [State.lay, ha]

/-- The list of active allocations with a new block, which is on it if tracking is enabled. -/
theorem activeList_trackAllocation_lay {b : Block} (h : s.ActiveList active) (hraw : raw ∉ active) :
    ((s.lay raw b).trackAllocation raw).ActiveList
      (if s.config.trackingEnabled then raw :: active else active) := by
  have hne : ∀ a ∈ active, a ≠ raw := by
    rintro a ha rfl
    exact hraw ha
  have hlaid : (s.lay raw b).ActiveList active := by
    refine h.congr rfl (fun a ha => ?_) fun a ha => ?_
    · rw [guards_lay, update_of_ne (hne a ha)]
    · rw [State.nextActive, State.nextActive]
      simp [State.lay, hne a ha]
  by_cases htracking : s.config.trackingEnabled = true
  · rw [if_pos htracking]
    refine hlaid.track hraw ?_ htracking
    rw [guards_lay, update_self]
    exact Option.some_ne_none _
  · have hsame : (s.lay raw b).trackAllocation raw = s.lay raw b := by
      rw [State.trackAllocation, if_pos]
      simpa [State.lay] using htracking
    rw [if_neg htracking, hsame]
    exact hlaid

/-- Nothing that is known about blocks is about one that is not allocated. -/
theorem Tidy.unknown (h : Tidy w active queue) (hfresh : w.state.block raw = none) :
    w.live raw = none ∧ raw ∉ queue.map Entry.ptr ∧ (w.stale = false → raw ∉ active) := by
  have hnone : w.state.guards raw = none := by
    rw [State.guards, hfresh]
    rfl
  refine ⟨?_, fun hmem => (h.queued raw hmem).1 hnone,
    fun hstale hmem => (h.active hstale).1.allocated raw hmem hnone⟩
  cases hbirth : w.live raw with
  | none => rfl
  | some birth =>
      obtain ⟨g, hg, -⟩ := h.live raw birth hbirth
      rw [hnone] at hg
      cases hg

/-- A block that is laid out anew belongs to a client. -/
theorem Tidy.lay {b : Block} (h : Tidy w active queue) (hfresh : w.state.block raw = none)
    (hb : b.guards = mint raw w.state.config) :
    Tidy
      { w with
        state := (w.state.lay raw b).trackAllocation raw
        live := update w.live raw (some ⟨w.state.config, true⟩) }
      (if w.state.config.trackingEnabled then raw :: active else active) queue := by
  obtain ⟨-, hqueue, hactive⟩ := h.unknown hfresh
  have hguards : ((w.state.lay raw b).trackAllocation raw).guards =
      update w.state.guards raw (some b.guards) := by
    rw [guards_trackAllocation, guards_lay]
  obtain ⟨head, count, total, block, htrack⟩ := exists_trackAllocation_eq (w.state.lay raw b) raw
  refine ⟨h.delayed.congr (by rw [htrack]; rfl) (by rw [htrack]; rfl), ?_, h.bound, h.distinct, ?_, ?_, ?_,
    fun hstale => ⟨activeList_trackAllocation_lay (h.active hstale).1 (hactive hstale), ?_⟩⟩
  · rw [htrack]
    exact h.count
  · intro a ha
    have hne : a ≠ raw := by
      rintro rfl
      exact hqueue ha
    obtain ⟨hblock, hdead, hother⟩ := h.queued a ha
    refine ⟨?_, (update_of_ne hne ..).trans hdead, fun hstale => ?_⟩
    · rw [hguards, update_of_ne hne]
      exact hblock
    · split_ifs
      · simpa [hne] using hother hstale
      · exact hother hstale
  · intro a g hg
    rw [hguards] at hg
    by_cases ha : a = raw
    · subst ha
      rw [update_self] at hg
      rw [← Option.some.inj hg, hb]
      rfl
    · rw [update_of_ne ha] at hg
      exact h.userPtr a g hg
  · intro a birth (hbirth : update w.live raw _ a = some birth)
    rw [hguards]
    by_cases ha : a = raw
    · subst ha
      rw [update_self] at hbirth ⊢
      cases hbirth
      exact ⟨b.guards, rfl, fun _ => hb⟩
    · rw [update_of_ne ha] at hbirth ⊢
      exact h.live a birth hbirth
  · intro a birth (hbirth : update w.live raw _ a = some birth)
    by_cases ha : a = raw
    · subst ha
      rw [update_self] at hbirth
      cases hbirth
      split_ifs with htracking
      · simpa using htracking
      · simpa [htracking] using hactive hstale
    · rw [update_of_ne ha] at hbirth
      rw [← (h.active hstale).2 a birth hbirth]
      split_ifs
      · simp [ha]
      · exact Iff.rfl

theorem Tidy.alloc (h : Tidy w active queue) (hfresh : ∀ raw, answer = some raw → w.state.block raw = none)
    (hstep : w.step pageSize (.alloc size answer) = some w') :
    ∃ active', Tidy w' active' queue ∧ w'.state.log = w.state.log ∧
      w'.state.config = w.state.config := by
  obtain ⟨result, hcall, rfl⟩ := Option.map_eq_some_iff.mp hstep
  rcases alloc_cases hcall with rfl | ⟨raw, b, rfl, hb, rfl⟩
  · exact ⟨active, h, rfl, rfl⟩
  obtain ⟨head, count, total, block, htrack⟩ := exists_trackAllocation_eq (w.state.lay raw b) raw
  have hlog : ((w.state.lay raw b).trackAllocation raw).log = w.state.log := by
    rw [htrack]
    rfl
  have hconfig : ((w.state.lay raw b).trackAllocation raw).config = w.state.config := by
    rw [htrack]
    rfl
  exact ⟨_, h.lay (hfresh raw rfl) hb, hlog, hconfig⟩

/-! ## Deallocation -/

theorem checkCanaries_cases (s : State) (b : Block) (behind : ℕ) :
    s.checkCanaries b behind = (true, s) ∨
      s.checkCanaries b behind =
        (false, { s with canaryViolations := wrap64 (s.canaryViolations + 1) }) := by
  unfold State.checkCanaries
  split_ifs
  all_goals first
    | exact Or.inl rfl
    | exact Or.inr rfl

/-- A block as it was laid out passes the check if a canary is behind it. -/
theorem checkCanaries_of_mint {b : Block} {config : Config} (hb : b.guards = mint raw config)
    (hcanary : s.config.canariesEnabled = true →
      config.canariesEnabled = true ∨ behind = canarySuffix) :
    s.checkCanaries b behind = (true, s) := by
  obtain ⟨hfront, hsuffix, -, htrailing⟩ := Guards.mk.inj hb
  by_cases hcanaries : s.config.canariesEnabled = true
  · have hbehind : b.trailing.getD behind = canarySuffix := by
      rw [htrailing]
      rcases hcanary hcanaries with hconfig | hbehind
      · rw [if_pos hconfig, Option.getD_some]
      · split_ifs
        · rw [Option.getD_some]
        · rw [Option.getD_none, hbehind]
    simp [State.checkCanaries, hcanaries, hfront, hsuffix, hbehind]
  · simp [State.checkCanaries, hcanaries]

/-- The queue, the frame, the configuration and the log stay as they are. -/
structure SameQueue (s s' : State) : Prop where
  node : s'.node = s.node
  delayedQueue : s'.delayedQueue = s.delayedQueue
  delayedCount : s'.delayedCount = s.delayedCount
  currentFrame : s'.currentFrame = s.currentFrame
  config : s'.config = s.config
  log : s'.log = s.log

/-- What taking a block off the list of active allocations, and marking it, leaves alone. -/
structure Kept (s s' : State) : Prop extends SameQueue s s' where
  guards : s'.guards = s.guards
  canaryViolations : s'.canaryViolations = s.canaryViolations
  doubleFreeAttempts : s'.doubleFreeAttempts = s.doubleFreeAttempts

theorem kept_untracked (s : State) (current : Option ℕ) (raw : ℕ) : Kept s (s.untracked current raw) := by
  have hguards := State.guards_storeActive (s := s) (s.nextActive raw) current
  cases current with
  | none => exact ⟨⟨rfl, rfl, rfl, rfl, rfl, rfl⟩, hguards, rfl, rfl⟩
  | some p => exact ⟨⟨rfl, rfl, rfl, rfl, rfl, rfl⟩, hguards, rfl, rfl⟩

/-- The block is marked with the frame in which it was freed. -/
def State.mark (s : State) (raw : ℕ) : State :=
  s.setMetadata raw fun metadata => { metadata with frameFreed := s.currentFrame }

theorem guards_mark (s : State) (raw : ℕ) : (s.mark raw).guards = s.guards :=
  State.guards_setMetadata (f := fun metadata => { metadata with frameFreed := s.currentFrame })
    fun _ => rfl

theorem nextActive_mark (s : State) (raw : ℕ) : (s.mark raw).nextActive = s.nextActive := by
  funext a
  have hnext := @State.nextActive_setMetadata s raw
    (fun metadata => { metadata with frameFreed := s.currentFrame }) a
  exact hnext.trans (ite_self _)

theorem Kept.mark (h : Kept s s') (raw : ℕ) : Kept s (s'.mark raw) :=
  ⟨⟨h.node, h.delayedQueue, h.delayedCount, h.currentFrame, h.config, h.log⟩,
    (guards_mark s' raw).trans h.guards, h.canaryViolations, h.doubleFreeAttempts⟩

theorem activeList_mark (h : s.ActiveList active) (raw : ℕ) : (s.mark raw).ActiveList active :=
  h.congr rfl (fun a _ => congrFun (guards_mark s raw) a) fun a _ => congrFun (nextActive_mark s raw) a

/-- A free of a block that passes the check, under a configuration that it fits, takes the block off the
list and releases it. -/
theorem Tidy.exists_free_eq {b : Block} (h : Tidy w active queue) (answer : Option ℕ)
    (hlive : w.live raw = some birth)
    (htracking : w.state.config.trackingEnabled = true →
      birth.config.trackingEnabled = true ∧ w.stale = false)
    (hb : w.state.block raw = some b) (hcheck : w.state.checkCanaries b behind = (true, w.state)) :
    ∃ s₂, Kept w.state s₂ ∧
      ((w.stale || w.losesTrack raw) = false → s₂.ActiveList (active.erase raw)) ∧
        ∀ fuel, active.length < fuel →
          w.state.free fuel (raw + metadataSize) behind answer = some (s₂.release raw answer) := by
  have hptr : ¬ raw + metadataSize = 0 := by simp [metadataSize]
  by_cases hon : w.state.config.trackingEnabled = true
  · obtain ⟨hborn, hstale⟩ := htracking hon
    obtain ⟨hlist, hmem⟩ := h.active hstale
    obtain ⟨kept, rest, rfl⟩ := List.append_of_mem ((hmem raw birth hlive).mpr hborn)
    have hnodup := hlist.linked.nodup
    have hraw : raw ∉ kept := fun hin => List.disjoint_of_nodup_append hnodup hin (List.mem_cons_self ..)
    have herase : (kept ++ raw :: rest).erase raw = kept ++ rest := by
      rw [List.erase_append_right _ hraw, List.erase_cons_head]
    have huntrack : ∀ fuel, (kept ++ raw :: rest).length < fuel →
        w.state.untrackAllocation fuel (raw + metadataSize) =
          some (true, w.state.untracked kept.getLast? raw) := by
      intro fuel hfuel
      have hlt : kept.length < fuel := by
        simp only [List.length_append, List.length_cons] at hfuel
        omega
      have hlist' : w.state.ActiveList ([] ++ kept ++ raw :: rest) := hlist
      have hfound := State.untrackLoop_eq hlist' h.userPtr hlt
      rw [State.untrackAllocation, hon]
      exact hfound
    refine ⟨(w.state.untracked kept.getLast? raw).mark raw, (kept_untracked ..).mark raw, fun _ => ?_,
      fun fuel hfuel => ?_⟩
    · rw [herase]
      exact activeList_mark hlist.untracked raw
    · simp only [State.free, if_neg hptr, Nat.add_sub_cancel, hb, hcheck, huntrack fuel hfuel,
        Option.bind_eq_bind, Option.bind_some]
      rfl
  · refine ⟨w.state.mark raw, Kept.mark ⟨⟨rfl, rfl, rfl, rfl, rfl, rfl⟩, rfl, rfl, rfl⟩ raw, fun hfresh => ?_,
      fun fuel _ => ?_⟩
    · obtain ⟨hstale, hloses⟩ := Bool.or_eq_false_iff.mp hfresh
      obtain ⟨hlist, hmem⟩ := h.active hstale
      have hraw : raw ∉ active := by
        rw [hmem raw birth hlive]
        simpa [World.losesTrack, hlive, hon] using hloses
      rw [List.erase_of_not_mem hraw]
      exact activeList_mark hlist raw
    · have hoff : w.state.untrackAllocation fuel (raw + metadataSize) = some (true, w.state) := by
        simp [State.untrackAllocation, hon]
      simp only [State.free, if_neg hptr, Nat.add_sub_cancel, hb, hcheck, hoff, Option.bind_eq_bind,
        Option.bind_some]
      rfl

/-- A block is released into the queue, or to `free`. -/
theorem release_cases (s : State) (raw : ℕ) (answer : Option ℕ) :
    (∃ node, s.config.delayedReclamationEnabled = true ∧ s.delayedCount < maxDelayedAllocs ∧
        answer = some node ∧ s.release raw answer = s.enqueue raw node) ∨
      s.release raw answer = (s.libcFree raw).emit (.freed raw) := by
  unfold State.release
  split_ifs with hqueue
  · cases answer with
    | none => exact Or.inr rfl
    | some node => exact Or.inl ⟨node, hqueue.1, hqueue.2, rfl, rfl⟩
  · exact Or.inr rfl

theorem update_none_eq_some {live : ℕ → Option Birth} {a : ℕ} (h : update live raw none a = some birth) :
    a ≠ raw ∧ live a = some birth := by
  by_cases ha : a = raw
  · rw [ha, update_self] at h
    cases h
  · rw [update_of_ne ha] at h
    exact ⟨ha, h⟩

theorem update_none_eq_none {live : ℕ → Option Birth} {a : ℕ} (h : live a = none) :
    update live raw none a = none := by
  by_cases ha : a = raw
  · rw [ha]
    exact update_self ..
  · rw [update_of_ne ha]
    exact h

/-- The client of a block gives it up, and the state becomes `s`. -/
def World.give (w : World) (raw : ℕ) (s : State) : World where
  state := s
  live := update w.live raw none
  stale := w.stale || w.losesTrack raw
  passed := raw :: w.passed

theorem not_stale_of_give (h : (w.give raw s).stale = false) : w.stale = false :=
  (Bool.or_eq_false_iff.mp h).1

/-- A refused free changes a counter. -/
theorem Tidy.refuse {violations : ℕ} (h : Tidy w active queue) (raw : ℕ) :
    Tidy (w.give raw { w.state with canaryViolations := violations }) active queue := by
  refine ⟨h.delayed.congr rfl rfl, h.count, h.bound, h.distinct, fun a ha => ?_, h.userPtr,
    fun a birth hbirth => h.live a birth (update_none_eq_some hbirth).2, fun hfresh => ?_⟩
  · obtain ⟨hblock, hdead, hother⟩ := h.queued a ha
    exact ⟨hblock, update_none_eq_none hdead, fun hfresh => hother (not_stale_of_give hfresh)⟩
  · obtain ⟨hlist, hmem⟩ := h.active (not_stale_of_give hfresh)
    exact ⟨hlist.congr rfl (fun _ _ => rfl) fun _ _ => rfl,
      fun a birth hbirth => hmem a birth (update_none_eq_some hbirth).2⟩

/-- The blocks that were passed to `free`. -/
def handed (log : List Event) : List ℕ :=
  log.filterMap fun
    | .freed raw => some raw
    | .reclaimed raw => some raw
    | .queued _ => none
    | .frame => none

/-- The blocks that were passed to `free`, and those that wait in the queue. -/
def gone (s : State) (queue : List Entry) : List ℕ :=
  handed s.log ++ queue.map Entry.ptr

section

variable {s₂ : State} (h : Tidy w active queue)
include h

/-- The list without a block lists the other tracked blocks. -/
theorem Tidy.mem_erase_iff (hstale : (w.give raw s₂).stale = false) {a : ℕ}
    (hbirth : (w.give raw s₂).live a = some birth) :
    a ∈ active.erase raw ↔ birth.config.trackingEnabled = true := by
  obtain ⟨ha, hbirth⟩ := update_none_eq_some hbirth
  rw [List.mem_erase_of_ne ha]
  exact (h.active (not_stale_of_give hstale)).2 a birth hbirth

theorem Tidy.ne_of_mem_erase (hstale : (w.give raw s₂).stale = false) {a : ℕ}
    (ha : a ∈ active.erase raw) : a ≠ raw :=
  ((h.active (not_stale_of_give hstale)).1.linked.nodup.mem_erase_iff.mp ha).1

theorem Tidy.queued_give {a : ℕ} (ha : a ∈ queue.map Entry.ptr) : w.state.guards a ≠ none ∧
    (w.give raw s₂).live a = none ∧ ((w.give raw s₂).stale = false → a ∉ active.erase raw) := by
  obtain ⟨hblock, hnone, hnot⟩ := h.queued a ha
  exact ⟨hblock, update_none_eq_none hnone,
    fun hstale hin => hnot (not_stale_of_give hstale) (List.mem_of_mem_erase hin)⟩

/-- A block is released into the queue. -/
theorem Tidy.enqueue {node : ℕ} (hlive : w.live raw = some birth) (hkept : Kept w.state s₂)
    (hlist : (w.give raw s₂).stale = false → s₂.ActiveList (active.erase raw))
    (hfresh : w.state.node node = none) (hcount : queue.length < maxDelayedAllocs) :
    Tidy (w.give raw (s₂.enqueue raw node)) (active.erase raw)
      (⟨node, raw, s₂.currentFrame⟩ :: queue) := by
  obtain ⟨g, hg, -⟩ := h.live raw birth hlive
  have hqueue : raw ∉ queue.map Entry.ptr := fun hmem => by simpa [hlive] using (h.queued raw hmem).2.1
  have hdelayed : s₂.DelayedList queue := h.delayed.congr hkept.delayedQueue hkept.node
  have hguards : (w.give raw (s₂.enqueue raw node)).state.guards = w.state.guards := hkept.guards
  refine ⟨hdelayed.enqueue ?_, ?_, hcount, List.nodup_cons.mpr ⟨hqueue, h.distinct⟩, fun a ha => ?_, ?_, ?_,
    fun hstale => ?_⟩
  · rw [hkept.node]
    exact hfresh
  · show wrap64 (s₂.delayedCount + 1) = queue.length + 1
    rw [hkept.delayedCount, h.count]
    exact wrap64_of_lt (by unfold maxDelayedAllocs at hcount; omega)
  · rw [hguards]
    rcases List.mem_cons.mp ha with rfl | ha
    · exact ⟨by simp [hg], update_self .., fun hstale hin => h.ne_of_mem_erase hstale hin rfl⟩
    · exact h.queued_give ha
  · rw [hguards]
    exact h.userPtr
  · rw [hguards]
    exact fun a birth' hbirth' => h.live a birth' (update_none_eq_some hbirth').2
  · exact ⟨(hlist hstale).congr rfl (fun _ _ => rfl) fun _ _ => rfl, fun a _ => h.mem_erase_iff hstale⟩

/-- A block is released to `free`. -/
theorem Tidy.libcFree (hlive : w.live raw = some birth) (hkept : Kept w.state s₂)
    (hlist : (w.give raw s₂).stale = false → s₂.ActiveList (active.erase raw)) :
    Tidy (w.give raw ((s₂.libcFree raw).emit (.freed raw))) (active.erase raw) queue := by
  have hqueue : raw ∉ queue.map Entry.ptr := fun hmem => by simpa [hlive] using (h.queued raw hmem).2.1
  have hguards : ((s₂.libcFree raw).emit (.freed raw)).guards = update w.state.guards raw none := by
    rw [← hkept.guards]
    funext a
    by_cases ha : a = raw
    · rw [ha, update_self, State.guards]
      simp [State.emit, State.libcFree]
    · rw [update_of_ne ha, State.guards, State.guards]
      simp [State.emit, State.libcFree, ha]
  have hother : ∀ a, a ≠ raw →
      (w.give raw ((s₂.libcFree raw).emit (.freed raw))).state.guards a = w.state.guards a := by
    intro a ha
    rw [World.give, hguards, update_of_ne ha]
  refine ⟨h.delayed.congr hkept.delayedQueue hkept.node, hkept.delayedCount.trans h.count, h.bound,
    h.distinct, fun a ha => ?_, fun a g hg => ?_, fun a birth' hbirth' => ?_, fun hstale => ?_⟩
  · have hne : a ≠ raw := by
      rintro rfl
      exact hqueue ha
    rw [hother a hne]
    exact h.queued_give ha
  · by_cases ha : a = raw
    · rw [World.give, hguards, ha, update_self] at hg
      cases hg
    · rw [hother a ha] at hg
      exact h.userPtr a g hg
  · obtain ⟨ha, hbirth'⟩ := update_none_eq_some hbirth'
    rw [hother a ha]
    exact h.live a birth' hbirth'
  · refine ⟨(hlist hstale).congr rfl (fun a ha => ?_) fun a ha => ?_, fun a _ => h.mem_erase_iff hstale⟩
    · rw [hother a (h.ne_of_mem_erase hstale ha), hkept.guards]
    · show (update s₂.block raw none a).bind _ = _
      rw [update_of_ne (h.ne_of_mem_erase hstale ha)]
      rfl

/-- A block that has left the list of active allocations can be released. -/
theorem Tidy.release (hlive : w.live raw = some birth) (hkept : Kept w.state s₂)
    (hlist : (w.stale || w.losesTrack raw) = false → s₂.ActiveList (active.erase raw))
    (hfresh : ∀ node, answer = some node → w.state.node node = none) :
    ∃ queue', Tidy (w.give raw (s₂.release raw answer)) (active.erase raw) queue' ∧
      (gone (s₂.release raw answer) queue').Perm (raw :: gone w.state queue) := by
  rcases release_cases s₂ raw answer with ⟨node, -, hcount, rfl, hrelease⟩ | hrelease
  · rw [hkept.delayedCount, h.count] at hcount
    have hlog : handed (s₂.enqueue raw node).log = handed w.state.log := by
      show handed (.queued raw :: s₂.log) = _
      rw [hkept.log]
      rfl
    rw [hrelease]
    refine ⟨_, h.enqueue hlive hkept hlist (hfresh node rfl) hcount, ?_⟩
    rw [gone, hlog]
    exact List.perm_middle
  · have hlog : handed ((s₂.libcFree raw).emit (.freed raw)).log = raw :: handed w.state.log := by
      show handed (.freed raw :: s₂.log) = _
      rw [hkept.log]
      rfl
    rw [hrelease]
    refine ⟨queue, h.libcFree hlive hkept hlist, ?_⟩
    rw [gone, hlog]
    exact List.Perm.refl _

end

/-! ## Frames -/

theorem State.advanceFrame_mono {fuel' : ℕ} (h : s.advanceFrame fuel = some s') (hle : fuel ≤ fuel') :
    s.advanceFrame fuel' = some s' := by
  simp only [State.advanceFrame] at h ⊢
  split_ifs at h ⊢ with hdelayed
  · exact State.sweepLoop_mono h hle
  · exact h

theorem handed_reclaimed (entries : List Entry) (log : List Event) :
    handed ((entries.map fun e => Event.reclaimed e.ptr).reverse ++ log) =
      (entries.map Entry.ptr).reverse ++ handed log := by
  simp only [handed, List.filterMap_append, List.filterMap_reverse, List.filterMap_map]
  congr 2
  simp

theorem dueEntries_append_perm (now : ℕ) (queue : List Entry) :
    (dueEntries now queue ++ heldEntries now queue).Perm queue :=
  List.filter_append_perm _ _

section

variable {due held : List Entry} {head : Option ℕ} {node : ℕ → Option DelayedFree}

theorem guards_swept (s : State) {a : ℕ} (ha : a ∉ due.map Entry.ptr) :
    (s.swept due head node).guards a = s.guards a := by
  show ((if a ∈ due.map Entry.ptr then none else s.block a)).map Block.guards = _
  rw [if_neg ha]
  rfl

theorem guards_swept_of_mem (s : State) {a : ℕ} (ha : a ∈ due.map Entry.ptr) :
    (s.swept due head node).guards a = none := by
  show ((if a ∈ due.map Entry.ptr then none else s.block a)).map Block.guards = _
  rw [if_pos ha]
  rfl

theorem nextActive_swept (s : State) {a : ℕ} (ha : a ∉ due.map Entry.ptr) :
    (s.swept due head node).nextActive a = s.nextActive a := by
  show ((if a ∈ due.map Entry.ptr then none else s.block a)).bind _ = _
  rw [if_neg ha]
  rfl

/-- Part of the queue has left it to `free`. -/
theorem Tidy.sweep (h : Tidy w active queue) (hperm : (due ++ held).Perm queue)
    (hlist : (w.state.swept due head node).DelayedList held) :
    Tidy { w with state := w.state.swept due head node } active held ∧
      (gone (w.state.swept due head node) held).Perm (gone w.state queue) := by
  have hptrs : (due.map Entry.ptr ++ held.map Entry.ptr).Perm (queue.map Entry.ptr) := by
    rw [← List.map_append]
    exact hperm.map _
  have hdistinct : (due.map Entry.ptr ++ held.map Entry.ptr).Nodup := hptrs.nodup_iff.mpr h.distinct
  have hqueued : ∀ a ∈ due.map Entry.ptr, a ∈ queue.map Entry.ptr :=
    fun a ha => hptrs.subset (List.mem_append_left _ ha)
  have hlength := hperm.length_eq
  rw [List.length_append] at hlength
  refine ⟨⟨hlist, ?_, ?_, hdistinct.of_append_right, fun a ha => ?_, fun a g hg => ?_,
    fun a birth hbirth => ?_, fun hstale => ?_⟩, ?_⟩
  · show decrement^[due.length] w.state.delayedCount = held.length
    rw [h.count, decrement_iterate (by omega)]
    omega
  · have hbound := h.bound
    omega
  · obtain ⟨hblock, hrest⟩ := h.queued a (hptrs.subset (List.mem_append_right _ ha))
    refine ⟨?_, hrest⟩
    rw [guards_swept _ fun hdue => List.disjoint_of_nodup_append hdistinct hdue ha]
    exact hblock
  · by_cases ha : a ∈ due.map Entry.ptr
    · rw [guards_swept_of_mem _ ha] at hg
      cases hg
    · rw [guards_swept _ ha] at hg
      exact h.userPtr a g hg
  · have hlive : w.live a = some birth := hbirth
    have hnot : a ∉ due.map Entry.ptr := by
      intro hdue
      have hdead := (h.queued a (hqueued a hdue)).2.1
      rw [hlive] at hdead
      cases hdead
    rw [guards_swept _ hnot]
    exact h.live a birth hlive
  · obtain ⟨hactive, hmem⟩ := h.active hstale
    have hnot : ∀ a ∈ active, a ∉ due.map Entry.ptr :=
      fun a ha hdue => (h.queued a (hqueued a hdue)).2.2 hstale ha
    exact ⟨hactive.congr rfl (fun a ha => guards_swept _ (hnot a ha))
      fun a ha => nextActive_swept _ (hnot a ha), hmem⟩
  · show (handed ((due.map fun e => Event.reclaimed e.ptr).reverse ++ w.state.log) ++
      held.map Entry.ptr).Perm _
    rw [handed_reclaimed, gone]
    refine (List.perm_append_comm.append_right _).trans ?_
    rw [List.append_assoc]
    exact (((List.reverse_perm _).append_right _).trans hptrs).append_left _

end

/-- A new frame, as long as nothing leaves the queue. -/
def State.nextFrame (s : State) : State :=
  { s with currentFrame := (s.currentFrame + 1) % 2 ^ 32 }.emit .frame

theorem Tidy.nextFrame (h : Tidy w active queue) :
    Tidy { w with state := w.state.nextFrame } active queue := by
  refine ⟨h.delayed.congr rfl rfl, h.count, h.bound, h.distinct, h.queued, h.userPtr, h.live,
    fun hstale => ?_⟩
  obtain ⟨hactive, hmem⟩ := h.active hstale
  exact ⟨hactive.congr rfl (fun _ _ => rfl) fun _ _ => rfl, hmem⟩

/-- Blocks leave the queue to `free`. -/
theorem Tidy.advanceFrame (h : Tidy w active queue) (hfuel : queue.length < fuel) :
    ∃ s' queue', w.state.advanceFrame fuel = some s' ∧ Tidy { w with state := s' } active queue' ∧
      (gone s' queue').Perm (gone w.state queue) ∧ s'.config = w.state.config := by
  have hnext := h.nextFrame
  by_cases hon : w.state.config.delayedReclamationEnabled = true
  · have hdelayed : w.state.nextFrame.DelayedList ([] ++ queue) := hnext.delayed
    obtain ⟨head, node, hsweep, hlist⟩ := State.sweepLoop_eq hdelayed hfuel
    obtain ⟨htidy, hperm⟩ := hnext.sweep (dueEntries_append_perm w.state.nextFrame.currentFrame queue) hlist
    refine ⟨_, _, ?_, htidy, hperm, rfl⟩
    rw [State.advanceFrame]
    exact (if_pos hon).trans hsweep
  · refine ⟨w.state.nextFrame, queue, ?_, hnext, List.Perm.refl _, rfl⟩
    rw [State.advanceFrame]
    exact if_neg hon

/-! ## Canaries -/

section

variable {canaryPrefix canarySuffix trailing : ℕ}

/-- What a client that writes over the canaries of a block leaves alone. -/
theorem overwrite_block (s : State) (raw canaryPrefix canarySuffix trailing a : ℕ) :
    ∃ f : Block → Block,
      (s.overwrite raw canaryPrefix canarySuffix trailing).block a = (s.block a).map f ∧
        ∀ b, (f b).metadata.userPtr = b.metadata.userPtr ∧ (f b).metadata.next = b.metadata.next := by
  by_cases ha : a = raw
  · subst ha
    exact ⟨_, update_self .., fun b => ⟨rfl, rfl⟩⟩
  · exact ⟨id, (update_of_ne ha ..).trans Option.map_id_apply.symm, fun b => ⟨rfl, rfl⟩⟩

theorem guards_overwrite_ne_none (s : State) (a : ℕ) :
    (s.overwrite raw canaryPrefix canarySuffix trailing).guards a ≠ none ↔ s.guards a ≠ none := by
  obtain ⟨f, hf, -⟩ := overwrite_block s raw canaryPrefix canarySuffix trailing a
  rw [State.guards, State.guards, hf]
  simp

theorem nextActive_overwrite (s : State) (a : ℕ) :
    (s.overwrite raw canaryPrefix canarySuffix trailing).nextActive a = s.nextActive a := by
  obtain ⟨f, hf, hsame⟩ := overwrite_block s raw canaryPrefix canarySuffix trailing a
  rw [State.nextActive, State.nextActive, hf]
  cases s.block a with
  | none => rfl
  | some b => exact (hsame b).2

theorem guards_overwrite_of_ne (s : State) {a : ℕ} (ha : a ≠ raw) :
    (s.overwrite raw canaryPrefix canarySuffix trailing).guards a = s.guards a := by
  rw [State.guards, State.guards]
  exact congrArg _ (update_of_ne ha ..)

/-- The clients have the same blocks afterwards. -/
theorem spoiled_eq_some {live : ℕ → Option Birth} {a : ℕ}
    (h : update live raw ((live raw).map fun birth => { birth with intact := false }) a = some birth) :
    ∃ birth', live a = some birth' ∧ birth'.config = birth.config ∧
      (birth.intact = true → a ≠ raw ∧ birth' = birth) := by
  by_cases ha : a = raw
  · rw [ha, update_self] at h
    obtain ⟨birth', hbirth', rfl⟩ := Option.map_eq_some_iff.mp h
    exact ⟨birth', ha ▸ hbirth', rfl, fun hintact => by cases hintact⟩
  · rw [update_of_ne ha] at h
    exact ⟨birth, h, rfl, fun _ => ⟨ha, rfl⟩⟩

/-- A client that writes over the canaries of its block leaves the lists alone. -/
theorem Tidy.overwrite (h : Tidy w active queue)
    (hstep : w.step pageSize (.overwrite raw canaryPrefix canarySuffix trailing) = some w') :
    Tidy w' active queue := by
  obtain rfl := Option.some.inj hstep
  refine ⟨h.delayed.congr rfl rfl, h.count, h.bound, h.distinct, fun a ha => ?_, fun a g hg => ?_,
    fun a birth hbirth => ?_, fun hstale => ?_⟩
  · obtain ⟨halloc, hdead, hnot⟩ := h.queued a ha
    refine ⟨(guards_overwrite_ne_none _ a).mpr halloc, ?_, hnot⟩
    by_contra hne
    obtain ⟨birth, hbirth⟩ := Option.ne_none_iff_exists'.mp hne
    obtain ⟨birth', hbirth', -⟩ := spoiled_eq_some hbirth
    rw [hdead] at hbirth'
    cases hbirth'
  · obtain ⟨f, hf, hsame⟩ := overwrite_block w.state raw canaryPrefix canarySuffix trailing a
    rw [State.guards, hf] at hg
    obtain ⟨b', hb', rfl⟩ := Option.map_eq_some_iff.mp hg
    obtain ⟨b, hb, rfl⟩ := Option.map_eq_some_iff.mp hb'
    rw [← h.userPtr a b.guards (by rw [State.guards, hb]; rfl)]
    exact (hsame b).1
  · obtain ⟨birth', hbirth', -, hintact⟩ := spoiled_eq_some hbirth
    obtain ⟨g, hg, hmint⟩ := h.live a birth' hbirth'
    have hover : (w.state.overwrite raw canaryPrefix canarySuffix trailing).guards a ≠ none := by
      rw [guards_overwrite_ne_none, hg]
      exact Option.some_ne_none g
    obtain ⟨g', hg'⟩ := Option.ne_none_iff_exists'.mp hover
    refine ⟨g', hg', fun hb => ?_⟩
    obtain ⟨ha, rfl⟩ := hintact hb
    rw [← hmint hb]
    exact Option.some.inj (hg'.symm.trans ((guards_overwrite_of_ne _ ha).trans hg))
  · obtain ⟨hlist, hmem⟩ := h.active hstale
    refine ⟨⟨hlist.linked.congr fun a _ => nextActive_overwrite _ a,
      fun a ha => (guards_overwrite_ne_none _ a).mpr (hlist.allocated a ha)⟩, fun a birth hbirth => ?_⟩
    obtain ⟨birth', hbirth', hconfig, -⟩ := spoiled_eq_some hbirth
    rw [← hconfig]
    exact hmem a birth' hbirth'

end

/-! ## A step -/

theorem State.free_mono {fuel' : ℕ} (h : s.free fuel ptr behind answer = some s') (hle : fuel ≤ fuel') :
    s.free fuel' ptr behind answer = some s' := by
  unfold State.free at h ⊢
  split_ifs at h ⊢ with hptr
  · exact h
  simp only [Option.bind_eq_bind, Option.bind_eq_some_iff] at h ⊢
  obtain ⟨b, hb, h⟩ := h
  refine ⟨b, hb, ?_⟩
  rcases checkCanaries_cases s b behind with hcheck | hcheck
  · rw [hcheck] at h ⊢
    simp only [Option.bind_eq_some_iff] at h ⊢
    obtain ⟨result, huntrack, hresult⟩ := h
    refine ⟨result, ?_, hresult⟩
    unfold State.untrackAllocation at huntrack ⊢
    split_ifs at huntrack ⊢
    · exact huntrack
    · exact State.untrackLoop_mono huntrack hle
  · rw [hcheck] at h ⊢
    exact h

/-- A free under a configuration that the block fits keeps the lists.  If the canaries pass the check then
the block is released. -/
theorem Tidy.free (h : Tidy w active queue) (hadmissible : w.Admissible (.free fuel raw behind answer))
    (hsteady : w.Steady (.free fuel raw behind answer))
    (hstep : w.step pageSize (.free fuel raw behind answer) = some w') :
    ∃ active' queue', Tidy w' active' queue' ∧ w'.state.config = w.state.config ∧
      ((∀ b, w.state.block raw = some b → w.state.checkCanaries b behind = (true, w.state)) →
        (gone w'.state queue').Perm (raw :: gone w.state queue)) := by
  obtain ⟨s', hfree, rfl⟩ := Option.map_eq_some_iff.mp hstep
  obtain ⟨hlive, hfresh⟩ := hadmissible
  obtain ⟨birth, hlive⟩ := Option.ne_none_iff_exists'.mp hlive
  obtain ⟨g, hg, -⟩ := h.live raw birth hlive
  obtain ⟨b, hb, -⟩ := Option.map_eq_some_iff.mp hg
  rcases checkCanaries_cases w.state b behind with hcheck | hcheck
  · obtain ⟨s₂, hkept, hlist, hfree'⟩ :=
      h.exists_free_eq answer hlive (hsteady birth hlive).2 hb hcheck
    have henough : active.length < fuel + active.length + 1 := by omega
    obtain rfl : s₂.release raw answer = s' :=
      Option.some.inj ((hfree' _ henough).symm.trans (State.free_mono hfree (by omega)))
    obtain ⟨queue', htidy, hperm⟩ := h.release hlive hkept hlist hfresh
    refine ⟨_, queue', htidy, ?_, fun _ => hperm⟩
    rcases release_cases s₂ raw answer with ⟨node, -, -, -, hrelease⟩ | hrelease
    · rw [hrelease]
      exact hkept.config
    · rw [hrelease]
      exact hkept.config
  · have hrefused : w.state.free fuel (raw + metadataSize) behind answer =
        some { w.state with canaryViolations := wrap64 (w.state.canaryViolations + 1) } := by
      have hptr : ¬ raw + metadataSize = 0 := by simp [metadataSize]
      simp only [State.free, if_neg hptr, Nat.add_sub_cancel, hb, hcheck, Option.bind_eq_bind,
        Option.bind_some]
    obtain rfl := Option.some.inj (hrefused.symm.trans hfree)
    refine ⟨active, queue, h.refuse raw, rfl, fun hpass => ?_⟩
    have hboth := hcheck.symm.trans (hpass b hb)
    cases congrArg Prod.fst hboth

/-- Calls that come under a configuration the blocks fit keep the lists, if `lgx_memory_safety_shutdown` is
only called with an empty queue. -/
theorem Tidy.step {c : Call} (h : Tidy w active queue) (hadmissible : w.Admissible c) (hsteady : w.Steady c)
    (hquiet : ∀ fuel, c = .shutdown fuel → queue = []) (hstep : w.step pageSize c = some w') :
    ∃ active' queue', Tidy w' active' queue' := by
  cases c with
  | alloc size answer =>
      obtain ⟨active', htidy, -⟩ := h.alloc hadmissible hstep
      exact ⟨active', queue, htidy⟩
  | free fuel raw behind answer =>
      obtain ⟨active', queue', htidy, -⟩ := h.free hadmissible hsteady hstep
      exact ⟨active', queue', htidy⟩
  | advanceFrame fuel =>
      obtain ⟨s', hcall, rfl⟩ := Option.map_eq_some_iff.mp hstep
      have henough : queue.length < fuel + queue.length + 1 := by omega
      obtain ⟨s₂, queue', hcall', htidy, -⟩ := h.advanceFrame henough
      obtain rfl := Option.some.inj (hcall'.symm.trans (State.advanceFrame_mono hcall (by omega)))
      exact ⟨active, queue', htidy⟩
  | setConfig config =>
      obtain rfl := Option.some.inj hstep
      exact ⟨active, queue, h.delayed.congr rfl rfl, h.count, h.bound, h.distinct, h.queued, h.userPtr,
        h.live, fun hstale => ⟨(h.active hstale).1.congr rfl (fun _ _ => rfl) fun _ _ => rfl,
          (h.active hstale).2⟩⟩
  | overwrite raw canaryPrefix canarySuffix trailing => exact ⟨active, queue, h.overwrite hstep⟩
  | init =>
      obtain rfl := Option.some.inj hstep
      exact ⟨active, queue, h⟩
  | shutdown fuel =>
      obtain ⟨s', hcall, rfl⟩ := Option.map_eq_some_iff.mp hstep
      obtain rfl := hquiet fuel rfl
      -- there is no node to free
      have hpos : ([] : List Entry).length < fuel + 1 := Nat.succ_pos fuel
      have hsame := State.shutdownLoop_eq h.delayed.linked (by simp) hpos
      have hcall' := State.shutdownLoop_mono hcall (Nat.le_succ fuel)
      obtain rfl : w.state = s' := by simpa using hsame.symm.trans hcall'
      exact ⟨active, [], h⟩

end

end LgxRuntime.MemorySafety
