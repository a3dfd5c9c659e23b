import LgxRuntime.Lib.BoundedQueue
import LgxRuntime.Telemetry.Telemetry

/-!
# The contents of the ring

As long as the size of the ring is the one that it was allocated with, the ring holds a bounded queue of the
events that are sampled.  A full ring drops its oldest event under `LGX_TEL_DROP_OLDEST`, and the new one
under the other policies, so that it holds the last events, or the first ones.
-/

namespace LgxRuntime.Telemetry

/-- Events are offered, with the decisions whether they are sampled. -/
def EventRing.offerAll (ring : EventRing) (size : ℕ) (policy : OverflowPolicy) (offers : List (Bool × Event)) :
    Option EventRing :=
  offers.foldlM (fun ring offer => ring.offer size policy offer.1 offer.2) ring

/-- Events are added, with the random numbers that decide. -/
def addAll (tel : TelemetryState) (events : List (Float × Event)) : Option TelemetryState :=
  events.foldlM (fun tel event => addTelemetryEvent tel event.1 event.2) tel

namespace RingContents

/-- The events that are sampled. -/
def sampledEvents (offers : List (Bool × Event)) : List Event :=
  (offers.filter (·.1)).map (·.2)

/-- The queue after an event that is sampled. -/
def enqueue : OverflowPolicy → ℕ → List Event → Event → List Event
  | .dropOldest => BoundedQueue.replaceOldest
  | .dropNewest | .sample => BoundedQueue.dropNewest

/-- The slots of the events from the tail on. -/
def contents (ring : EventRing) (size : ℕ) : List (Option Event) :=
  (List.range ring.count).map fun i => ring.buffer[(ring.tail + i) % size]?

/-- The last events, or the first ones, as many as there are in the ring. -/
def keptEvents (policy : OverflowPolicy) (count : ℕ) (sampled : List Event) : List Event :=
  match policy with
  | .dropOldest => sampled.drop (sampled.length - count)
  | .dropNewest | .sample => sampled.take count

/-- The ring holds a queue, and has dropped the other events that were offered. -/
structure Queued (ring : EventRing) (size : ℕ) (queue : List Event) (offered : ℕ) : Prop where
  length : ring.buffer.length = size
  holds : BoundedQueue.Holds ring.buffer ring.tail queue
  count : ring.count = queue.length
  head : ring.head = (ring.tail + ring.count) % size
  le : queue.length ≤ offered
  dropped : ring.droppedEvents = wrap64 (offered - queue.length)

/-! ## One event -/

section

variable {ring ring' : EventRing} {size offered : ℕ} {queue : List Event} {event : Event}

theorem queued_empty (hsize : 0 < size) : Queued (.empty size) size [] 0 := by
  have hlength : (EventRing.empty size).buffer.length = size := List.length_replicate
  refine ⟨hlength, ⟨Nat.zero_le _, ?_, fun i hi => absurd hi (Nat.not_lt_zero i)⟩, rfl,
    (Nat.zero_mod size).symm, le_refl _, rfl⟩
  rw [hlength]
  exact hsize

theorem Queued.size_pos (h : Queued ring size queue offered) : 0 < size := by
  have htail := h.holds.tail_lt
  rw [h.length] at htail
  exact Nat.zero_lt_of_lt htail

/-- The counter of drops follows the events that are not in the queue. -/
theorem dropped_succ {m n : ℕ} (hn : n ≤ m) : wrap64 (wrap64 (m - n) + 1) = wrap64 (m + 1 - n) := by
  unfold wrap64
  omega

theorem Queued.drop (h : Queued ring size queue offered) : Queued ring.drop size queue (offered + 1) := by
  refine ⟨h.length, h.holds, h.count, h.head, h.le.trans (Nat.le_succ _), ?_⟩
  rw [← dropped_succ h.le, ← h.dropped]
  rfl

/-- A full ring drops its oldest event. -/
theorem Queued.dropOldest (h : Queued ring size queue offered) (hfull : size ≤ queue.length) :
    ∃ ring', ring.dropOldest size = some ring' ∧ Queued ring' size queue.tail offered := by
  have hpos := h.size_pos
  have hle := h.le
  have hholds := h.holds.pop
  rw [h.length] at hholds
  refine ⟨_, if_neg hpos.ne', h.length, hholds, ?_, ?_, ?_, ?_⟩
  · rw [List.length_tail, ← h.count]
  · have hcount := h.count
    have hnext : ring.tail + 1 + (ring.count - 1) = ring.tail + ring.count := by omega
    refine h.head.trans ?_
    rw [← hnext]
    exact (Nat.mod_add_mod ..).symm
  · rw [List.length_tail]
    omega
  · have hdrop := h.drop.dropped
    rw [hdrop, List.length_tail]
    congr 1
    omega

/-- An event is stored if there is room. -/
theorem Queued.push (h : Queued ring size queue offered) (hroom : queue.length < size) :
    ∃ ring', ring.push size event = some ring' ∧ Queued ring' size (queue ++ [event]) (offered + 1) := by
  have hpos := h.size_pos
  have hhead : ring.head = (ring.tail + queue.length) % ring.buffer.length := by
    rw [h.head, h.count, h.length]
  have hin : ring.head < ring.buffer.length := by
    rw [h.head, h.length]
    exact Nat.mod_lt _ hpos
  have hholds := @BoundedQueue.Holds.push _ _ _ _ event h.holds (by rwa [h.length])
  rw [← hhead] at hholds
  refine ⟨_, if_pos ⟨hin, hpos.ne'⟩, ?_, hholds, ?_, ?_, ?_, ?_⟩
  · rw [List.length_set]
    exact h.length
  · rw [List.length_append, List.length_singleton, ← h.count]
  · dsimp only
    rw [h.head, Nat.mod_add_mod, Nat.add_assoc]
  · rw [List.length_append, List.length_singleton]
    exact Nat.succ_le_succ h.le
  · rw [List.length_append, List.length_singleton, Nat.add_sub_add_right]
    exact h.dropped

/-- An event that is offered is dropped, or enters the queue. -/
theorem Queued.offer (h : Queued ring size queue offered) (policy : OverflowPolicy) (sampled : Bool) :
    ∃ ring', ring.offer size policy sampled event = some ring' ∧
      Queued ring' size (if sampled then enqueue policy size queue event else queue) (offered + 1) := by
  cases sampled with
  | false => exact ⟨_, rfl, h.drop⟩
  | true =>
      by_cases hroom : queue.length < size
      · obtain ⟨ring', hpush, hqueued⟩ := @Queued.push _ _ _ _ event h hroom
        have henqueue : enqueue policy size queue event = queue ++ [event] := by
          cases policy <;> exact if_pos hroom
        refine ⟨ring', ?_, ?_⟩
        · unfold EventRing.offer
          rw [if_neg (by decide), if_neg (by rw [h.count]; omega)]
          exact hpush
        · rw [if_pos rfl, henqueue]
          exact hqueued
      · have hfull : ring.count ≥ size := by
          rw [h.count]
          omega
        unfold EventRing.offer
        rw [if_neg (by decide), if_pos hfull, if_pos rfl]
        cases policy with
        | dropOldest =>
            obtain ⟨dropped, hdrop, hdropped⟩ := h.dropOldest (not_lt.mp hroom)
            have hshort : queue.tail.length < size := by
              have hle := h.holds.le
              have hpos := h.size_pos
              rw [h.length] at hle
              rw [List.length_tail]
              omega
            obtain ⟨ring', hpush, hqueued⟩ := @Queued.push _ _ _ _ event hdropped hshort
            refine ⟨ring', ?_, ?_⟩
            · dsimp only
              rw [hdrop]
              exact hpush
            · rw [enqueue, BoundedQueue.replaceOldest, if_neg hroom]
              exact hqueued
        | dropNewest =>
            refine ⟨_, rfl, ?_⟩
            rw [enqueue, BoundedQueue.dropNewest, if_neg hroom]
            exact h.drop
        | sample =>
            refine ⟨_, rfl, ?_⟩
            rw [enqueue, BoundedQueue.dropNewest, if_neg hroom]
            exact h.drop

end

/-! ## Runs -/

section

variable {ring : EventRing} {size offered : ℕ} {queue : List Event} {policy : OverflowPolicy}
  {offers : List (Bool × Event)}

theorem sampledEvents_cons {sampled : Bool} {event : Event} :
    sampledEvents ((sampled, event) :: offers) = if sampled then event :: sampledEvents offers
      else sampledEvents offers := by
  cases sampled <;> rfl

/-- All events are offered to the queue. -/
theorem Queued.offerAll (h : Queued ring size queue offered) :
    ∃ ring', ring.offerAll size policy offers = some ring' ∧
      Queued ring' size ((sampledEvents offers).foldl (enqueue policy size) queue)
        (offered + offers.length) := by
  induction offers generalizing ring queue offered with
  | nil => exact ⟨ring, rfl, h⟩
  | cons offer offers ih =>
      obtain ⟨sampled, event⟩ := offer
      obtain ⟨ring₁, hoffer, hqueued⟩ := @Queued.offer _ _ _ _ event h policy sampled
      obtain ⟨ring', hall, hlast⟩ := ih hqueued
      refine ⟨ring', ?_, ?_⟩
      · rw [EventRing.offerAll, List.foldlM_cons, hoffer]
        exact hall
      · rw [sampledEvents_cons, List.length_cons, Nat.add_comm _ 1, ← Nat.add_assoc]
        cases sampled with
        | false => exact hlast
        | true => exact hlast

theorem foldl_enqueue (hsize : 0 < size) (sampled : List Event) :
    sampled.foldl (enqueue policy size) [] =
      keptEvents policy (sampled.foldl (enqueue policy size) []).length sampled := by
  cases policy with
  | dropOldest =>
      have hlast := BoundedQueue.foldl_replaceOldest hsize sampled
      rw [keptEvents, enqueue, hlast, List.length_drop]
      congr 1
      omega
  | dropNewest | sample =>
      have hfirst := @BoundedQueue.foldl_dropNewest _ size sampled
      rw [keptEvents, enqueue, hfirst, List.length_take]
      exact List.take_eq_take_min

/-- Events that are added are offered to the ring with some decisions. -/
theorem addAll_eq_offerAll (tel : TelemetryState) (events : List (Float × Event)) :
    ∃ decisions : List Bool, decisions.length = events.length ∧
      (addAll tel events).map (·.ring) =
        tel.ring.offerAll tel.ringBufferSize tel.overflowPolicy (decisions.zip (events.map (·.2))) := by
  induction events generalizing tel with
  | nil => exact ⟨[], rfl, rfl⟩
  | cons added events ih =>
      obtain ⟨random, event⟩ := added
      obtain ⟨rate, sampled, hadd⟩ := addTelemetryEvent_eq tel random event
      cases hoffer : tel.ring.offer tel.ringBufferSize tel.overflowPolicy sampled event with
      | none =>
          rw [hoffer, Option.map_none] at hadd
          refine ⟨sampled :: List.replicate events.length false, ?_, ?_⟩
          · rw [List.length_cons, List.length_replicate, List.length_cons]
          · rw [addAll, List.foldlM_cons, hadd, List.map_cons, List.zip_cons_cons, EventRing.offerAll,
              List.foldlM_cons, hoffer]
            rfl
      | some ring =>
          rw [hoffer, Option.map_some] at hadd
          obtain ⟨decisions, hlength, hall⟩ := ih { tel with currentSampleRate := rate, ring := ring }
          refine ⟨sampled :: decisions, congrArg Nat.succ hlength, ?_⟩
          rw [addAll, List.foldlM_cons, hadd, List.map_cons, List.zip_cons_cons, EventRing.offerAll,
            List.foldlM_cons, hoffer]
          exact hall

/-- After any events, the ring holds the last events that were sampled, or the first ones. -/
theorem offerAll_contents (policy : OverflowPolicy) (offers : List (Bool × Event)) :
    ∃ ring, (telemetryInit.ring).offerAll telemetryRingBufferSize policy offers = some ring ∧
      wrap64 (ring.count + ring.droppedEvents) = wrap64 offers.length ∧
        (offers.length < 2 ^ 64 → ring.count + ring.droppedEvents = offers.length) ∧
          ring.head = (ring.tail + ring.count) % telemetryRingBufferSize ∧
            contents ring telemetryRingBufferSize =
              (keptEvents policy ring.count (sampledEvents offers)).map some := by
  have hsize : 0 < telemetryRingBufferSize := by decide
  obtain ⟨ring, hall, h⟩ := @Queued.offerAll _ _ _ _ policy offers (queued_empty hsize)
  rw [Nat.zero_add] at h
  have hcount := h.count
  have hdropped := h.dropped
  have hle := h.le
  refine ⟨ring, hall, ?_, fun hlength => ?_, h.head, ?_⟩
  · rw [hcount, hdropped]
    unfold wrap64
    omega
  · rw [wrap64_of_lt (by omega)] at hdropped
    omega
  · rw [hcount, ← foldl_enqueue hsize, ← h.holds.map_range, contents, hcount, h.length]

end

end RingContents

end LgxRuntime.Telemetry
