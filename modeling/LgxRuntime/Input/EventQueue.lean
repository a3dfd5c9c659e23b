import LgxRuntime.Lib.BoundedQueue
import Mathlib.Data.List.Infix

/-!
# The input event queue

Events are pushed at the tail of a ring of fixed size and returned from its head.  An event that is pushed
while the ring is full is lost; a queue that drops its oldest event instead holds the newest ones.
-/

namespace LgxRuntime.Input

/-- The event queue of an `lgx_in_system`.  There are as many slots as its capacity says, and at least one. -/
structure EventQueue (Event : Type) where
  events : List Event
  eventCapacity : UInt32
  eventHead : UInt32
  eventTail : UInt32
  eventCount : UInt32
  length_events : events.length = eventCapacity.toNat
  eventCapacity_pos : 0 < eventCapacity.toNat

/-- The number of slots for the `event_queue_size` of a configuration. -/
def queueCapacity (eventQueueSize : UInt32) : UInt32 :=
  if 0 < eventQueueSize then eventQueueSize else 256

theorem queueCapacity_pos (eventQueueSize : UInt32) : 0 < (queueCapacity eventQueueSize).toNat := by
  unfold queueCapacity
  split_ifs with hpos
  · exact UInt32.lt_iff_toNat_lt.mp hpos
  · decide

variable {Event : Type} [Inhabited Event]

namespace EventQueue

/-- The queue that `lgx_in_create` makes when there is enough memory; `default` is what `calloc` puts into a
slot. -/
def create (eventQueueSize : UInt32) : EventQueue Event where
  events := List.replicate (queueCapacity eventQueueSize).toNat default
  eventCapacity := queueCapacity eventQueueSize
  eventHead := 0
  eventTail := 0
  eventCount := 0
  length_events := List.length_replicate
  eventCapacity_pos := queueCapacity_pos eventQueueSize

/-- `event_push`. -/
def eventPush (q : EventQueue Event) (evt : Event) : EventQueue Event :=
  if q.eventCapacity ≤ q.eventCount then q
  else
    { q with
      events := q.events.set q.eventTail.toNat evt
      eventTail := (q.eventTail + 1) % q.eventCapacity
      eventCount := q.eventCount + 1
      length_events := List.length_set.trans q.length_events }

/-- `lgx_in_next_event`: the event, if there is one, and the queue afterwards. -/
def nextEvent (q : EventQueue Event) : Option Event × EventQueue Event :=
  if q.eventCount = 0 then (none, q)
  else
    (some (q.events.getD q.eventHead.toNat default),
      { q with
        eventHead := (q.eventHead + 1) % q.eventCapacity
        eventCount := q.eventCount - 1 })

/-- The events that will be returned, in their order. -/
def contents (q : EventQueue Event) : List Event :=
  (List.range q.eventCount.toNat).map fun i =>
    q.events.getD ((q.eventHead.toNat + i) % q.eventCapacity.toNat) default

end EventQueue

/-- What happens to a queue: an event is pushed, or the game asks for the next one. -/
inductive QueueCall (Event : Type)
  | push (evt : Event)
  | next

/-- The queue after a call. -/
def QueueCall.run : QueueCall Event → EventQueue Event → EventQueue Event
  | .push evt, q => q.eventPush evt
  | .next, q => q.nextEvent.2

/-- The queue after some calls. -/
def EventQueue.runAll (q : EventQueue Event) (calls : List (QueueCall Event)) : EventQueue Event :=
  calls.foldl (fun q call => call.run q) q

/-! ## The queue that drops the oldest event -/

omit [Inhabited Event]

/-- The most recent events that have not been returned, at most `capacity` of them. -/
def mostRecent (capacity : ℕ) (calls : List (QueueCall Event)) : List Event :=
  calls.foldl
    (fun queue call =>
      match call with
      | .push evt => BoundedQueue.replaceOldest capacity queue evt
      | .next => queue.tail) []

/-- The events that are kept if an event is lost that is pushed while the queue is full. -/
def kept (capacity : ℕ) (calls : List (QueueCall Event)) : List Event :=
  calls.foldl
    (fun queue call =>
      match call with
      | .push evt => BoundedQueue.dropNewest capacity queue evt
      | .next => queue.tail) []

end LgxRuntime.Input
