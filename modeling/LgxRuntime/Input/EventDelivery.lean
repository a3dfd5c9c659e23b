import LgxRuntime.Input.EventQueue
import Mathlib.Data.List.Induction

/-!
# Which events are delivered

The ring keeps the events that were there when it became full.  It holds the most recent events exactly if no
event is pushed while it is full, or if the event is like all those that are waiting.
-/

namespace LgxRuntime.Input

open BoundedQueue (Holds dropNewest replaceOldest)

variable {Event : Type} {q : EventQueue Event} {queue : List Event}
variable {calls : List (QueueCall Event)} {call : QueueCall Event} {capacity : ℕ}

/-! ## The calls -/

/-- An event is pushed while the queue is full only if it is like all events that are waiting. -/
def PushesFit (capacity : ℕ) (calls : List (QueueCall Event)) : Prop :=
  ∀ before evt, before ++ [.push evt] <+: calls → (mostRecent capacity before).length = capacity →
    ∀ waiting ∈ mostRecent capacity before, waiting = evt

theorem mostRecent_push (capacity : ℕ) (calls : List (QueueCall Event)) (evt : Event) :
    mostRecent capacity (calls ++ [.push evt]) = replaceOldest capacity (mostRecent capacity calls) evt := by
  rw [mostRecent, List.foldl_append]
  rfl

theorem mostRecent_next (capacity : ℕ) (calls : List (QueueCall Event)) :
    mostRecent capacity (calls ++ [.next]) = (mostRecent capacity calls).tail := by
  rw [mostRecent, List.foldl_append]
  rfl

theorem kept_push (capacity : ℕ) (calls : List (QueueCall Event)) (evt : Event) :
    kept capacity (calls ++ [.push evt]) = dropNewest capacity (kept capacity calls) evt := by
  rw [kept, List.foldl_append]
  rfl

theorem kept_next (capacity : ℕ) (calls : List (QueueCall Event)) :
    kept capacity (calls ++ [.next]) = (kept capacity calls).tail := by
  rw [kept, List.foldl_append]
  rfl

theorem length_mostRecent_le (hpos : 0 < capacity) (calls : List (QueueCall Event)) :
    (mostRecent capacity calls).length ≤ capacity := by
  induction calls using List.reverseRecOn with
  | nil => exact Nat.zero_le _
  | append_singleton calls call ih =>
      cases call with
      | push evt =>
          rw [mostRecent_push]
          exact BoundedQueue.length_replaceOldest_le hpos ih evt
      | next =>
          rw [mostRecent_next, List.length_tail]
          exact (Nat.sub_le _ _).trans ih

theorem kept_eq_of_pushesFit (hpos : 0 < capacity) (h : PushesFit capacity calls) :
    kept capacity calls = mostRecent capacity calls := by
  induction calls using List.reverseRecOn with
  | nil => rfl
  | append_singleton calls call ih =>
      have hsame := ih fun before evt hbefore => h before evt (hbefore.trans (List.prefix_append _ _))
      cases call with
      | push evt =>
          rw [kept_push, mostRecent_push, hsame,
            BoundedQueue.dropNewest_eq_replaceOldest_iff hpos (length_mostRecent_le hpos calls)]
          exact h calls evt (List.prefix_refl _)
      | next => rw [kept_next, mostRecent_next, hsame]

/-! ## The ring -/

/-- The ring has `capacity` slots and holds the events from its head on. -/
structure Rings (capacity : ℕ) (q : EventQueue Event) (queue : List Event) : Prop where
  slots : q.eventCapacity.toNat = capacity
  holds : Holds q.events q.eventHead.toNat queue
  tail : q.eventTail.toNat = (q.eventHead.toNat + queue.length) % capacity
  count : q.eventCount.toNat = queue.length

/-- The index after one that is in the ring. -/
theorem toNat_succ_mod {x n : UInt32} (hx : x.toNat < n.toNat) :
    ((x + 1) % n).toNat = (x.toNat + 1) % n.toNat := by
  have hlt : x.toNat + 1 < 2 ^ 32 := Nat.lt_of_le_of_lt hx n.toNat_lt
  rw [UInt32.toNat_mod, UInt32.toNat_add, UInt32.toNat_one, Nat.mod_eq_of_lt hlt]

theorem Rings.length_events (h : Rings capacity q queue) : q.events.length = capacity :=
  q.length_events.trans h.slots

theorem Rings.length_le (h : Rings capacity q queue) : queue.length ≤ capacity := by
  rw [← h.length_events]
  exact h.holds.le

theorem Rings.head_lt (h : Rings capacity q queue) : q.eventHead.toNat < q.eventCapacity.toNat := by
  rw [← q.length_events]
  exact h.holds.tail_lt

theorem Rings.tail_lt (h : Rings capacity q queue) : q.eventTail.toNat < q.eventCapacity.toNat := by
  rw [h.tail, ← h.slots]
  exact Nat.mod_lt _ q.eventCapacity_pos

theorem Rings.eventPush (h : Rings capacity q queue) (evt : Event) :
    Rings capacity (q.eventPush evt) (dropNewest capacity queue evt) := by
  have hfull_iff : q.eventCapacity ≤ q.eventCount ↔ capacity ≤ queue.length := by
    rw [UInt32.le_iff_toNat_le, h.count, h.slots]
  unfold EventQueue.eventPush dropNewest
  by_cases hroom : queue.length < capacity
  · rw [if_neg (by rw [hfull_iff]; exact not_le.mpr hroom), if_pos hroom]
    refine ⟨h.slots, ?_, ?_, ?_⟩
    · have hpush := h.holds.push (x := evt) (by rwa [h.length_events])
      rwa [h.length_events, ← h.tail] at hpush
    · change ((q.eventTail + 1) % q.eventCapacity).toNat =
        (q.eventHead.toNat + (queue ++ [evt]).length) % capacity
      rw [toNat_succ_mod h.tail_lt, h.tail, h.slots, Nat.mod_add_mod, List.length_append, Nat.add_assoc]
      rfl
    · have hlt : queue.length + 1 < 2 ^ 32 := by
        have hcapacity := q.eventCapacity.toNat_lt
        rw [h.slots] at hcapacity
        omega
      change (q.eventCount + 1).toNat = (queue ++ [evt]).length
      rw [UInt32.toNat_add, UInt32.toNat_one, h.count, List.length_append, Nat.mod_eq_of_lt hlt]
      rfl
  · rw [if_pos (hfull_iff.mpr (not_lt.mp hroom)), if_neg hroom]
    exact h

section

variable [Inhabited Event]

theorem rings_create (eventQueueSize : UInt32) :
    Rings (queueCapacity eventQueueSize).toNat (.create eventQueueSize) ([] : List Event) := by
  have hpos := queueCapacity_pos eventQueueSize
  have hlength : (List.replicate (queueCapacity eventQueueSize).toNat (default : Event)).length =
      (queueCapacity eventQueueSize).toNat := List.length_replicate
  refine ⟨rfl, ⟨Nat.zero_le _, ?_, fun i hi => absurd hi (Nat.not_lt_zero i)⟩, ?_, rfl⟩
  · exact hpos.trans_eq hlength.symm
  · exact (Nat.zero_mod _).symm

theorem Rings.nextEvent (h : Rings capacity q queue) :
    q.nextEvent.1 = queue.head? ∧ Rings capacity q.nextEvent.2 queue.tail := by
  cases queue with
  | nil =>
      have hzero : q.eventCount = 0 := UInt32.toNat_inj.mp h.count
      rw [EventQueue.nextEvent, if_pos hzero]
      exact ⟨rfl, h⟩
  | cons evt rest =>
      have hcount := h.count
      rw [List.length_cons] at hcount
      have hne : q.eventCount ≠ 0 := by
        intro hzero
        rw [hzero] at hcount
        exact absurd hcount (by simp)
      rw [EventQueue.nextEvent, if_neg hne]
      refine ⟨?_, h.slots, ?_, ?_, ?_⟩
      · have hslot := h.holds.slots 0 (Nat.succ_pos _)
        rw [Nat.add_zero, q.length_events, Nat.mod_eq_of_lt h.head_lt] at hslot
        rw [List.getD_eq_getElem?_getD, hslot]
        rfl
      · have hpop := h.holds.pop
        rw [q.length_events] at hpop
        change Holds q.events ((q.eventHead + 1) % q.eventCapacity).toNat rest
        rw [toNat_succ_mod h.head_lt]
        exact hpop
      · change q.eventTail.toNat =
          (((q.eventHead + 1) % q.eventCapacity).toNat + rest.length) % capacity
        rw [toNat_succ_mod h.head_lt, h.tail, h.slots, Nat.mod_add_mod, List.length_cons, Nat.add_assoc,
          Nat.add_comm 1]
      · have hone : (1 : UInt32) ≤ q.eventCount := by
          rw [UInt32.le_iff_toNat_le, hcount]
          exact Nat.succ_le_succ (Nat.zero_le _)
        change (q.eventCount - 1).toNat = rest.length
        rw [UInt32.toNat_sub_of_le _ _ hone, hcount]
        rfl

theorem Rings.contents_eq (h : Rings capacity q queue) : q.contents = queue := by
  have hread := h.holds.map_range
  unfold EventQueue.contents
  rw [h.count]
  refine List.map_injective_iff.mpr (Option.some_injective _) ?_
  rw [List.map_map, ← hread]
  refine List.map_congr_left fun i hi => ?_
  have hslot := h.holds.slots i (List.mem_range.mp hi)
  rw [q.length_events] at hslot
  rw [Function.comp_apply, List.getD_eq_getElem?_getD, q.length_events, hslot,
    List.getElem?_eq_getElem (List.mem_range.mp hi)]
  rfl

/-! ## The ring and the calls -/

theorem runAll_concat (q : EventQueue Event) (calls : List (QueueCall Event)) (call : QueueCall Event) :
    q.runAll (calls ++ [call]) = call.run (q.runAll calls) := by
  rw [EventQueue.runAll, List.foldl_append]
  rfl

/-- The ring holds the events that are kept. -/
theorem rings_runAll (eventQueueSize : UInt32) (calls : List (QueueCall Event)) :
    Rings (queueCapacity eventQueueSize).toNat ((EventQueue.create eventQueueSize).runAll calls)
      (kept (queueCapacity eventQueueSize).toNat calls) := by
  induction calls using List.reverseRecOn with
  | nil => exact rings_create eventQueueSize
  | append_singleton calls call ih =>
      rw [runAll_concat]
      cases call with
      | push evt =>
          rw [kept_push]
          exact ih.eventPush evt
      | next =>
          rw [kept_next]
          exact ih.nextEvent.2

/-- The queue after some calls holds the most recent events, and the next one is returned. -/
def KeepsMostRecent (eventQueueSize : UInt32) (calls : List (QueueCall Event)) : Prop :=
  ∀ before, before <+: calls →
    ((EventQueue.create eventQueueSize).runAll before).contents =
        mostRecent (queueCapacity eventQueueSize).toNat before ∧
      ((EventQueue.create eventQueueSize).runAll before).nextEvent.1 =
        (mostRecent (queueCapacity eventQueueSize).toNat before).head?

/-- The queue holds the most recent events if they are the ones that are kept. -/
theorem keepsMostRecent_iff (eventQueueSize : UInt32) (calls : List (QueueCall Event)) :
    KeepsMostRecent eventQueueSize calls ↔
      ∀ before, before <+: calls →
        kept (queueCapacity eventQueueSize).toNat before = mostRecent (queueCapacity eventQueueSize).toNat before := by
  constructor
  · intro h before hbefore
    rw [← (rings_runAll eventQueueSize before).contents_eq]
    exact (h before hbefore).1
  · intro h before hbefore
    have hrings := rings_runAll eventQueueSize before
    rw [h before hbefore] at hrings
    exact ⟨hrings.contents_eq, hrings.nextEvent.1⟩

/-- The queue always holds the most recent events, exactly if no event is pushed while it is full that is
unlike one that is waiting. -/
theorem keepsMostRecent_iff_pushesFit (eventQueueSize : UInt32) (calls : List (QueueCall Event)) :
    KeepsMostRecent eventQueueSize calls ↔ PushesFit (queueCapacity eventQueueSize).toNat calls := by
  have hpos := queueCapacity_pos eventQueueSize
  rw [keepsMostRecent_iff]
  constructor
  · intro h before evt hbefore
    have hsame := h before ((List.prefix_append _ _).trans hbefore)
    have hpush := h _ hbefore
    rw [kept_push, mostRecent_push, hsame,
      BoundedQueue.dropNewest_eq_replaceOldest_iff hpos (length_mostRecent_le hpos before)] at hpush
    exact hpush
  · intro h before hbefore
    exact kept_eq_of_pushesFit hpos fun front evt hfront => h front evt (hfront.trans hbefore)

end

/-- Into a queue for one event, a second one is pushed and lost. -/
theorem not_keepsMostRecent_second : ¬ KeepsMostRecent 1 [QueueCall.push (1 : ℕ), QueueCall.push 2] := by
  intro h
  have hcontents := (h _ (List.prefix_refl _)).1
  exact absurd hcontents (by decide)

end LgxRuntime.Input
