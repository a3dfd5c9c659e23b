import LgxRuntime.MemorySafety.SafetyRun

/-!
# Delayed reclamation

A block that `lgx_memory_safety_free` queues is passed to `free` by the third call of
`lgx_memory_safety_advance_frame` that follows.  What happened is read off the log: the blocks that were
queued after a number of frames, and the blocks that were reclaimed by a given call.

The frame counter has 32 bits and may start anywhere.  An entry has an age, the modular difference of the
current frame and its own, and the queue holds, for each age, what was queued that many frames ago.
-/

namespace LgxRuntime.MemorySafety

open Interleaving (Reachable)

/-! ## What the log says -/

/-- The number of calls of `lgx_memory_safety_advance_frame`. -/
def frames : List Event → ℕ
  | [] => 0
  | .frame :: log => frames log + 1
  | .queued _ :: log => frames log
  | .freed _ :: log => frames log
  | .reclaimed _ :: log => frames log

/-- The blocks of the events of one kind that came after the `k`-th frame and before the next one, with the
latest first. -/
def during (block : Event → Option ℕ) : List Event → ℕ → List ℕ
  | [], _ => []
  | e :: log, k => if frames log = k then (block e).toList ++ during block log k else during block log k

/-- The blocks that were queued after the `k`-th frame and before the next one. -/
def queuedAt (log : List Event) (k : ℕ) : List ℕ :=
  during (fun | .queued raw => some raw | .freed _ => none | .reclaimed _ => none | .frame => none) log k

/-- The blocks that the `k`-th call of `lgx_memory_safety_advance_frame` passed to `free`. -/
def reclaimedAt (log : List Event) (k : ℕ) : List ℕ :=
  during (fun | .reclaimed raw => some raw | .queued _ => none | .freed _ => none | .frame => none) log k

section

variable {block : Event → Option ℕ} {log : List Event} {e : Event} {k now frameFreed : ℕ}

/-- Nothing has happened yet after the frames to come. -/
theorem during_of_lt (hk : frames log < k) : during block log k = [] := by
  induction log with
  | nil => rfl
  | cons e log ih =>
      have hlt : frames log < k := by
        refine lt_of_le_of_lt ?_ hk
        cases e <;> simp [frames]
      rw [during, if_neg hlt.ne, ih hlt]

theorem during_cons_of_none (h : block e = none) : during block (e :: log) k = during block log k := by
  rw [during, h, Option.toList_none, List.nil_append, ite_self]

theorem frames_reclaimed (entries : List Entry) (log : List Event) :
    frames ((entries.map fun e => Event.reclaimed e.ptr).reverse ++ log) = frames log := by
  induction entries generalizing log with
  | nil => rfl
  | cons e entries ih =>
      rw [List.map_cons, List.reverse_cons, List.append_assoc, List.singleton_append]
      exact ih _

theorem queuedAt_reclaimed (entries : List Entry) (log : List Event) :
    queuedAt ((entries.map fun e => Event.reclaimed e.ptr).reverse ++ log) k = queuedAt log k := by
  induction entries generalizing log with
  | nil => rfl
  | cons e entries ih =>
      rw [List.map_cons, List.reverse_cons, List.append_assoc, List.singleton_append]
      exact (ih _).trans (during_cons_of_none rfl)

/-- The blocks of a sweep are all reclaimed by the same call. -/
theorem reclaimedAt_reclaimed (entries : List Entry) (log : List Event) :
    reclaimedAt ((entries.map fun e => Event.reclaimed e.ptr).reverse ++ log) k =
      if frames log = k then (entries.map Entry.ptr).reverse ++ reclaimedAt log k
      else reclaimedAt log k := by
  induction entries generalizing log with
  | nil => simp
  | cons e entries ih =>
      rw [List.map_cons, List.reverse_cons, List.append_assoc, List.singleton_append, ih]
      have hframes : frames (.reclaimed e.ptr :: log) = frames log := rfl
      rw [hframes]
      by_cases hk : frames log = k
      · have hself : reclaimedAt (.reclaimed e.ptr :: log) k = e.ptr :: reclaimedAt log k := by
          rw [reclaimedAt, during, if_pos hk]
          rfl
        rw [if_pos hk, if_pos hk, hself]
        simp
      · rw [if_neg hk, if_neg hk]
        rw [reclaimedAt, during, if_neg hk]
        rfl

/-! ## Ages -/

/-- How many frames ago `frameFreed` was, as the difference of two 32-bit words. -/
def age (now frameFreed : ℕ) : ℕ :=
  (now + (2 ^ 32 - frameFreed % 2 ^ 32)) % 2 ^ 32

theorem age_self (hnow : now < 2 ^ 32) : age now now = 0 := by
  have hmod := Nat.mod_eq_of_lt hnow
  unfold age
  omega

/-- Ages grow by one, also where the frame counter wraps. -/
theorem age_succ (hnow : now < 2 ^ 32) (hage : age now frameFreed < delayedFrames) :
    age ((now + 1) % 2 ^ 32) frameFreed = age now frameFreed + 1 := by
  have hmod := Nat.mod_eq_of_lt hnow
  unfold age delayedFrames at *
  omega

/-- The blocks of the entries of an age. -/
def aged (now i : ℕ) (queue : List Entry) : List ℕ :=
  (queue.filter fun e => age now e.frameFreed = i).map Entry.ptr

end

/-! ## The queue -/

section

variable {s s' : State} {queue : List Entry} {raw node fuel : ℕ} {answer : Option ℕ}

/-- The queue holds what was queued in the last three frames, and each call has reclaimed what was queued
three frames before. -/
structure Aged (s : State) (queue : List Entry) : Prop where
  delayed : s.DelayedList queue
  count : s.delayedCount = queue.length
  bound : queue.length ≤ maxDelayedAllocs
  enabled : s.config.delayedReclamationEnabled = true
  frame : s.currentFrame < 2 ^ 32
  young : ∀ e ∈ queue, age s.currentFrame e.frameFreed < delayedFrames
  waiting : ∀ i < delayedFrames, aged s.currentFrame i queue =
    if i ≤ frames s.log then queuedAt s.log (frames s.log - i) else []
  reclaimed : ∀ k ≤ frames s.log, reclaimedAt s.log k =
    if k < delayedFrames then [] else (queuedAt s.log (k - delayedFrames)).reverse

theorem Aged.congr (h : Aged s queue) (hsame : SameQueue s s') : Aged s' queue := by
  obtain ⟨hnode, hqueue, hcount, hframe, hconfig, hlog⟩ := hsame
  refine ⟨h.delayed.congr hqueue hnode, hcount.trans h.count, h.bound, ?_, ?_, ?_, ?_, ?_⟩
  · rw [hconfig]
    exact h.enabled
  · rw [hframe]
    exact h.frame
  · rw [hframe]
    exact h.young
  · rw [hframe, hlog]
    exact h.waiting
  · rw [hlog]
    exact h.reclaimed

/-- A block that is queued is the youngest. -/
theorem Aged.enqueue (h : Aged s queue) (hfresh : s.node node = none)
    (hcount : s.delayedCount < maxDelayedAllocs) :
    Aged (s.enqueue raw node) (⟨node, raw, s.currentFrame⟩ :: queue) := by
  have hself : age s.currentFrame s.currentFrame = 0 := age_self h.frame
  have hlog : (s.enqueue raw node).log = .queued raw :: s.log := rfl
  have hframes : frames (s.enqueue raw node).log = frames s.log := rfl
  have hqueued : ∀ k, queuedAt (s.enqueue raw node).log k =
      if frames s.log = k then raw :: queuedAt s.log k else queuedAt s.log k := by
    intro k
    rw [hlog, queuedAt, during]
    rfl
  rw [h.count] at hcount
  refine ⟨h.delayed.enqueue hfresh, ?_, hcount, h.enabled, h.frame, fun e he => ?_, fun i hi => ?_,
    fun k hk => ?_⟩
  · show wrap64 (s.delayedCount + 1) = queue.length + 1
    rw [h.count]
    exact wrap64_of_lt (by unfold maxDelayedAllocs at hcount; omega)
  · rcases List.mem_cons.mp he with rfl | he
    · show age s.currentFrame s.currentFrame < delayedFrames
      rw [hself]
      decide
    · exact h.young e he
  · show aged s.currentFrame i _ = _
    have hwaiting := h.waiting i hi
    rw [hframes, hqueued]
    unfold aged at hwaiting ⊢
    by_cases hzero : i = 0
    · subst hzero
      rw [if_pos (Nat.zero_le _), Nat.sub_zero] at hwaiting ⊢
      rw [List.filter_cons_of_pos (by simpa using hself), List.map_cons, hwaiting, if_pos rfl]
    · rw [List.filter_cons_of_neg (by simpa [hself] using Ne.symm hzero), hwaiting]
      split_ifs with hle hlast
      · omega
      · rfl
      · rfl
  · have hreclaimed : reclaimedAt (s.enqueue raw node).log k = reclaimedAt s.log k :=
      during_cons_of_none rfl
    rw [hframes] at hk
    rw [hreclaimed, h.reclaimed k hk, hqueued]
    split_ifs with hyoung hlast
    · rfl
    · unfold delayedFrames at *
      omega
    · rfl

/-- A block that goes to `free` at once is none of the queue's. -/
theorem Aged.freed (h : Aged s queue) : Aged ((s.libcFree raw).emit (.freed raw)) queue := by
  have hqueued : ∀ k, queuedAt (.freed raw :: s.log) k = queuedAt s.log k :=
    fun k => during_cons_of_none rfl
  have hreclaimed : ∀ k, reclaimedAt (.freed raw :: s.log) k = reclaimedAt s.log k :=
    fun k => during_cons_of_none rfl
  refine ⟨h.delayed.congr rfl rfl, h.count, h.bound, h.enabled, h.frame, h.young, fun i hi => ?_,
    fun k hk => ?_⟩
  · exact (h.waiting i hi).trans (by rw [← hqueued]; rfl)
  · show reclaimedAt (.freed raw :: s.log) k = if _ then _ else (queuedAt (.freed raw :: s.log) _).reverse
    rw [hreclaimed, hqueued]
    exact h.reclaimed k hk

theorem Aged.release (h : Aged s queue) (hfresh : ∀ node, answer = some node → s.node node = none) :
    ∃ queue', Aged (s.release raw answer) queue' := by
  rcases release_cases s raw answer with ⟨node, -, hcount, rfl, hrelease⟩ | hrelease
  · rw [hrelease]
    exact ⟨_, h.enqueue (hfresh node rfl) hcount⟩
  · rw [hrelease]
    exact ⟨queue, h.freed⟩

/-- The entries grow older by a frame. -/
theorem Aged.age_nextFrame (h : Aged s queue) : ∀ e ∈ queue,
    age s.nextFrame.currentFrame e.frameFreed = age s.currentFrame e.frameFreed + 1 :=
  fun e he => age_succ h.frame (h.young e he)

theorem Aged.due_nextFrame (h : Aged s queue) : ∀ e ∈ queue,
    due s.nextFrame.currentFrame e.frameFreed = decide (age s.currentFrame e.frameFreed = 2) := by
  intro e he
  have hlt := h.young e he
  have hsucc := h.age_nextFrame e he
  unfold delayedFrames at hlt
  refine decide_eq_decide.mpr ?_
  show age s.nextFrame.currentFrame e.frameFreed ≥ 3 ↔ _
  omega

theorem Aged.dueEntries_nextFrame (h : Aged s queue) :
    (dueEntries s.nextFrame.currentFrame queue).map Entry.ptr = aged s.currentFrame 2 queue :=
  congrArg (List.map Entry.ptr) (List.filter_congr h.due_nextFrame)

theorem Aged.heldEntries_nextFrame (h : Aged s queue) (i : ℕ) :
    aged s.nextFrame.currentFrame (i + 1) (heldEntries s.nextFrame.currentFrame queue) =
      if i = 2 then [] else aged s.currentFrame i queue := by
  rw [aged, heldEntries, List.filter_filter]
  by_cases hi : i = 2
  · rw [if_pos hi, List.map_eq_nil_iff, List.filter_eq_nil_iff]
    intro e he
    simp only [Bool.and_eq_true, decide_eq_true_eq, Bool.not_eq_true', h.due_nextFrame e he,
      decide_eq_false_iff_not, h.age_nextFrame e he]
    omega
  · rw [if_neg hi, aged]
    refine congrArg (List.map Entry.ptr) (List.filter_congr fun e he => ?_)
    rw [h.due_nextFrame e he, h.age_nextFrame e he, Bool.eq_iff_iff]
    simp only [Bool.and_eq_true, decide_eq_true_eq, Bool.not_eq_true', decide_eq_false_iff_not]
    omega

/-- Nothing has been queued since the frame began. -/
theorem Aged.heldEntries_nextFrame_zero (h : Aged s queue) :
    aged s.nextFrame.currentFrame 0 (heldEntries s.nextFrame.currentFrame queue) = [] := by
  rw [aged, List.map_eq_nil_iff, List.filter_eq_nil_iff]
  intro e he
  simp [h.age_nextFrame e (List.mem_of_mem_filter he)]

/-- The sweep of a new frame reclaims what is three frames old then, and the rest of the queue ages. -/
theorem Aged.sweep {head : Option ℕ} {nodes : ℕ → Option DelayedFree} (h : Aged s queue)
    (hlist : (s.nextFrame.swept (dueEntries s.nextFrame.currentFrame queue) head nodes).DelayedList
      (heldEntries s.nextFrame.currentFrame queue)) :
    Aged (s.nextFrame.swept (dueEntries s.nextFrame.currentFrame queue) head nodes)
      (heldEntries s.nextFrame.currentFrame queue) := by
  let s' := s.nextFrame.swept (dueEntries s.nextFrame.currentFrame queue) head nodes
  have hlog : s'.log = ((dueEntries s.nextFrame.currentFrame queue).map fun e =>
      Event.reclaimed e.ptr).reverse ++ .frame :: s.log := rfl
  have hframes : frames s'.log = frames s.log + 1 := by
    rw [hlog, frames_reclaimed, frames]
  have hqueued : ∀ k, queuedAt s'.log k = queuedAt s.log k := by
    intro k
    rw [hlog, queuedAt_reclaimed]
    exact during_cons_of_none rfl
  have hreclaimed : ∀ k, reclaimedAt s'.log k =
      if frames s.log + 1 = k then (aged s.currentFrame 2 queue).reverse ++ reclaimedAt s.log k
      else reclaimedAt s.log k := by
    intro k
    have hframe : reclaimedAt (.frame :: s.log) k = reclaimedAt s.log k := during_cons_of_none rfl
    rw [hlog, reclaimedAt_reclaimed, h.dueEntries_nextFrame, hframe]
    rfl
  have hperm := (dueEntries_append_perm s.nextFrame.currentFrame queue).length_eq
  rw [List.length_append] at hperm
  refine ⟨hlist, ?_, ?_, h.enabled, Nat.mod_lt _ (by decide), fun e he => ?_, fun i hi => ?_,
    fun k hk => ?_⟩
  · show decrement^[(dueEntries s.nextFrame.currentFrame queue).length] s.delayedCount = _
    rw [h.count, decrement_iterate (by omega)]
    omega
  · exact (List.length_filter_le _ _).trans h.bound
  · have hyoung := (List.mem_filter.mp he).2
    rw [Bool.not_eq_true', due, decide_eq_false_iff_not] at hyoung
    exact not_le.mp hyoung
  · show aged s.nextFrame.currentFrame i _ = _
    rw [hframes, hqueued]
    cases i with
    | zero =>
        rw [h.heldEntries_nextFrame_zero, if_pos (Nat.zero_le _), Nat.sub_zero]
        exact (during_of_lt (Nat.lt_succ_self _)).symm
    | succ i =>
        unfold delayedFrames at hi
        rw [h.heldEntries_nextFrame i, if_neg (by omega), h.waiting i (by unfold delayedFrames; omega)]
        simp only [Nat.add_le_add_iff_right, Nat.add_sub_add_right]
  · rw [hframes] at hk
    rw [hreclaimed, hqueued]
    by_cases hlast : frames s.log + 1 = k
    · have hnone : reclaimedAt s.log k = [] := during_of_lt (by omega)
      rw [if_pos hlast, hnone, List.append_nil, h.waiting 2 (by decide), ← hlast]
      unfold delayedFrames
      split_ifs with hold hyoung
      · omega
      · rfl
      · rfl
      · omega
    · rw [if_neg hlast]
      exact h.reclaimed k (by omega)

theorem Aged.advanceFrame (h : Aged s queue) (hfuel : queue.length < fuel) :
    ∃ s' queue', s.advanceFrame fuel = some s' ∧ Aged s' queue' := by
  have hdelayed : s.nextFrame.DelayedList ([] ++ queue) := h.delayed.congr rfl rfl
  obtain ⟨head, nodes, hsweep, hlist⟩ := State.sweepLoop_eq hdelayed hfuel
  refine ⟨_, _, ?_, h.sweep hlist⟩
  rw [State.advanceFrame]
  exact (if_pos h.enabled).trans hsweep

end

/-! ## Runs -/

section

variable {pageSize : ℕ} {s s' : State} {w w' : World}

/-- Before the first call the queue is empty and delayed reclamation is enabled. -/
def Delaying (w : World) : Prop :=
  w.state.delayedQueue = none ∧ w.state.delayedCount = 0 ∧
    w.state.config.delayedReclamationEnabled = true ∧ w.state.currentFrame < 2 ^ 32 ∧ w.state.log = []

/-- Delayed reclamation stays enabled, the allocator is not shut down, and `malloc` returns nodes that are
not in use. -/
def Delays (w : World) : Call → Prop
  | .free _ _ _ answer => ∀ node, answer = some node → w.state.node node = none
  | .setConfig config => config.delayedReclamationEnabled = true
  | .shutdown _ => False
  | .alloc _ _ | .advanceFrame _ | .overwrite _ _ _ _ | .init => True

theorem sameQueue_untrackLoop {userPtr fuel : ℕ} {current : Option ℕ} {found : Bool}
    (h : State.untrackLoop userPtr fuel current s = some (found, s')) : SameQueue s s' := by
  induction fuel generalizing current with
  | zero => cases h
  | succ fuel ih =>
      simp only [State.untrackLoop, Option.bind_eq_bind, Option.bind_eq_some_iff] at h
      obtain ⟨link, -, h⟩ := h
      cases link with
      | none =>
          cases h
          exact ⟨rfl, rfl, rfl, rfl, rfl, rfl⟩
      | some raw =>
          simp only [Option.bind_eq_some_iff] at h
          obtain ⟨b, -, h⟩ := h
          split_ifs at h
          · cases h
            cases current with
            | none => exact ⟨rfl, rfl, rfl, rfl, rfl, rfl⟩
            | some p => exact ⟨rfl, rfl, rfl, rfl, rfl, rfl⟩
          · exact ih h

/-- A free of any pointer leaves the queue alone until it releases the block. -/
theorem free_cases {fuel ptr behind : ℕ} {answer : Option ℕ}
    (h : s.free fuel ptr behind answer = some s') :
    SameQueue s s' ∨ ∃ s₂, SameQueue s s₂ ∧ s' = s₂.release (ptr - metadataSize) answer := by
  unfold State.free at h
  split_ifs at h with hptr
  · cases h
    exact Or.inl ⟨rfl, rfl, rfl, rfl, rfl, rfl⟩
  simp only [Option.bind_eq_bind, Option.bind_eq_some_iff] at h
  obtain ⟨b, -, h⟩ := h
  rcases checkCanaries_cases s b behind with hcheck | hcheck
  · rw [hcheck] at h
    simp only [Option.bind_eq_some_iff] at h
    obtain ⟨⟨found, s₁⟩, huntrack, h⟩ := h
    have hsame : SameQueue s s₁ := by
      unfold State.untrackAllocation at huntrack
      split_ifs at huntrack
      · cases huntrack
        exact ⟨rfl, rfl, rfl, rfl, rfl, rfl⟩
      · exact sameQueue_untrackLoop huntrack
    cases found with
    | false =>
        cases h
        exact Or.inl hsame
    | true =>
        cases h
        exact Or.inr ⟨s₁.mark (ptr - metadataSize), ⟨hsame.node, hsame.delayedQueue, hsame.delayedCount,
          hsame.currentFrame, hsame.config, hsame.log⟩, rfl⟩
  · rw [hcheck] at h
    cases h
    exact Or.inl ⟨rfl, rfl, rfl, rfl, rfl, rfl⟩

theorem aged_step {c : Call} {queue : List Entry} (h : Aged w.state queue) (hdelays : Delays w c)
    (hstep : w.step pageSize c = some w') : ∃ queue', Aged w'.state queue' := by
  cases c with
  | alloc size answer =>
      obtain ⟨result, hcall, rfl⟩ := Option.map_eq_some_iff.mp hstep
      rcases alloc_cases hcall with rfl | ⟨raw, b, -, -, rfl⟩
      · exact ⟨queue, h⟩
      · obtain ⟨head, count, total, block, htrack⟩ := exists_trackAllocation_eq
          { w.state with block := Function.update w.state.block raw (some b) } raw
        refine ⟨queue, h.congr ?_⟩
        show SameQueue w.state (State.trackAllocation _ raw)
        rw [htrack]
        exact ⟨rfl, rfl, rfl, rfl, rfl, rfl⟩
  | free fuel raw behind answer =>
      obtain ⟨s', hcall, rfl⟩ := Option.map_eq_some_iff.mp hstep
      rcases free_cases hcall with hsame | ⟨s₂, hsame, rfl⟩
      · exact ⟨queue, h.congr hsame⟩
      · refine (h.congr hsame).release fun node hnode => ?_
        rw [hsame.node]
        exact hdelays node hnode
  | advanceFrame fuel =>
      obtain ⟨s', hcall, rfl⟩ := Option.map_eq_some_iff.mp hstep
      have henough : queue.length < fuel + queue.length + 1 := by omega
      obtain ⟨s₂, queue', hcall', haged⟩ := h.advanceFrame henough
      obtain rfl := Option.some.inj (hcall'.symm.trans (State.advanceFrame_mono hcall (by omega)))
      exact ⟨queue', haged⟩
  | setConfig config =>
      obtain rfl := Option.some.inj hstep
      exact ⟨queue, h.delayed.congr rfl rfl, h.count, h.bound, hdelays, h.frame, h.young, h.waiting,
        h.reclaimed⟩
  | overwrite raw canaryPrefix canarySuffix trailing =>
      obtain rfl := Option.some.inj hstep
      exact ⟨queue, h.congr ⟨rfl, rfl, rfl, rfl, rfl, rfl⟩⟩
  | init =>
      obtain rfl := Option.some.inj hstep
      exact ⟨queue, h⟩
  | shutdown fuel => exact False.elim hdelays

theorem exists_aged (h : Reachable Delaying (World.step pageSize) Delays w) :
    ∃ queue, Aged w.state queue := by
  refine h.invariant (I := fun w => ∃ queue, Aged w.state queue) (fun w hstart => ?_) ?_
  · obtain ⟨hqueue, hcount, henabled, hframe, hlog⟩ := hstart
    refine ⟨[], ⟨hqueue, by simp⟩, hcount, Nat.zero_le _, henabled, hframe, by simp, ?_, ?_⟩
    · intro i _
      rw [hlog]
      simp [aged, queuedAt, during]
    · intro k _
      rw [hlog]
      simp [reclaimedAt, queuedAt, during]
  · rintro w w' c ⟨queue, haged⟩ hdelays hstep
    exact aged_step haged hdelays hstep

/-- While delayed reclamation is enabled, the queue has `delayedCount` entries,
`lgx_memory_safety_advance_frame` ends, and what was queued after `k` frames is passed to `free` by the
third call that follows, and by no other one. -/
theorem reclaimedAt_add_delayedFrames (h : Reachable Delaying (World.step pageSize) Delays w) :
    (∃ queue, w.state.DelayedList queue ∧ w.state.delayedCount = queue.length) ∧
      (∀ fuel, w.state.delayedCount < fuel → ∃ s, w.state.advanceFrame fuel = some s) ∧
        (∀ k, k < delayedFrames → reclaimedAt w.state.log k = []) ∧
          ∀ k, k + delayedFrames ≤ frames w.state.log →
            reclaimedAt w.state.log (k + delayedFrames) = (queuedAt w.state.log k).reverse := by
  obtain ⟨queue, haged⟩ := exists_aged h
  refine ⟨⟨queue, haged.delayed, haged.count⟩, fun fuel hfuel => ?_, fun k hk => ?_, fun k hk => ?_⟩
  · rw [haged.count] at hfuel
    obtain ⟨s, _, hcall, -⟩ := haged.advanceFrame hfuel
    exact ⟨s, hcall⟩
  · by_cases hle : k ≤ frames w.state.log
    · rw [haged.reclaimed k hle, if_pos hk]
    · exact during_of_lt (by omega)
  · rw [haged.reclaimed _ hk, if_neg (by omega), Nat.add_sub_cancel]

/-- A block that is queued two frames before the frame counter wraps. -/
theorem reclaimedAt_add_delayedFrames_wrap :
    ∃ w : World, frames w.state.log = 3 ∧ queuedAt w.state.log 0 = [65536] ∧
      reclaimedAt w.state.log (0 + delayedFrames) = (queuedAt w.state.log 0).reverse := by
  have hstart : Reachable Delaying (World.step 4096) Delays
      ⟨⟨none, 0, none, 0, 2 ^ 32 - 2, 0, 0, 0, 0, ⟨false, false, true, false, false⟩, fun _ => none,
        fun _ => none, []⟩, fun _ => none, false, []⟩ :=
    .init ⟨rfl, rfl, rfl, by decide, rfl⟩
  have halloc := hstart.step (Call.alloc 16 (some 65536)) trivial rfl
  have hfree := halloc.step (Call.free 1 65536 0 (some 131072)) (fun _ _ => rfl) rfl
  have hfirst := hfree.step (Call.advanceFrame 2) trivial rfl
  have hsecond := hfirst.step (Call.advanceFrame 2) trivial rfl
  have hthird := hsecond.step (Call.advanceFrame 2) trivial rfl
  exact ⟨_, rfl, rfl, (reclaimedAt_add_delayedFrames hthird).2.2.2 0 (by decide)⟩

end

end LgxRuntime.MemorySafety
