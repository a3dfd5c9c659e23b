import LgxRuntime.Machine
import LgxRuntime.Lib.Interleaving
import LgxRuntime.Lib.Ring
import Mathlib.Data.List.Basic

/-!
# The single-producer single-consumer queue

A ring of elements with two positions: the producer writes at `tail`, the consumer reads at `head`.  Each
side loads its own position, then the other's, copies the element and moves its own position on.  The
copy is not atomic: it is modelled byte by byte.

The elements that were pushed and popped are recorded in the state, in the order in which the positions
moved.
-/

namespace LgxRuntime.Threading

open Function (update update_self update_of_ne)
open Ring (Element Copied copyByte slot slot_ne)

/-- `lgx_threading_error_e`. -/
inductive ThreadingError
  | success
  | invalidParam
  | outOfMemory
  | notInitialized
  | alreadyInit
  | operationFailed
  | queueFull
  | queueEmpty
  | timeout
  | deadlock
  | fiberOverflow
  | poolShutdown
  | jobFailed
  deriving DecidableEq, Repr

namespace SpscQueue

/-! ## The queue -/

/-- `struct lgx_spsc_queue_s`, for elements of `n` bytes. -/
structure Queue (n : ℕ) where
  buffer : ℕ → Element n
  capacity : ℕ
  mask : ℕ
  head : ℕ
  tail : ℕ

/-- `lgx_spsc_queue_create`, where `memory` are the two answers of the allocator; `none` if the call
does not return. -/
def lgxSpscQueueCreate (capacity n : ℕ) (memory : Bool × Bool) :
    Option (Except ThreadingError (Queue n)) :=
  if capacity = 0 ∨ n = 0 then some (.error .invalidParam)
  else
    (Ring.roundUp capacity).map fun cap =>
      if memory.1 ∧ memory.2 then
        .ok { buffer := fun _ _ => 0, capacity := cap, mask := cap - 1, head := 0, tail := 0 }
      else .error .outOfMemory

/-! ## The two threads -/

/-- Where the producer is in `lgx_spsc_queue_push`. -/
inductive ProducerPc (n : ℕ)
  | idle
  | loadTail (element : Element n)
  | loadHead (element : Element n) (t : ℕ)
  | copy (element : Element n) (t k : ℕ)
  | returns (result : ThreadingError)

/-- Where the consumer is in `lgx_spsc_queue_pop`. -/
inductive ConsumerPc (n : ℕ)
  | idle
  | loadHead (out : Element n)
  | loadTail (out : Element n) (h : ℕ)
  | copy (out : Element n) (h k : ℕ)
  | returns (result : ThreadingError)

/-- The queue with its two threads, and what has been pushed and popped so far. -/
structure State (n : ℕ) where
  queue : Queue n
  producer : ProducerPc n
  consumer : ConsumerPc n
  pushed : List (Element n)
  popped : List (Element n)

/-- Both threads are outside of the queue. -/
def init {n : ℕ} (q : Queue n) : State n :=
  { queue := q, producer := .idle, consumer := .idle, pushed := [], popped := [] }

/-- A call, or the next atomic step of one of the threads. -/
inductive Action (n : ℕ)
  | push (element : Element n)
  | pop (out : Element n)
  | producer
  | consumer

variable {n : ℕ}

/-- The next step of `lgx_spsc_queue_push`. -/
def stepProducer (s : State n) : Option (State n) :=
  match s.producer with
  | .idle => none
  | .loadTail element => some { s with producer := .loadHead element s.queue.tail }
  | .loadHead element t =>
      if sub64 t s.queue.head ≥ s.queue.capacity then
        some { s with producer := .returns .queueFull }
      else some { s with producer := .copy element t 0 }
  | .copy element t k =>
      if k < n then
        let i := t &&& s.queue.mask
        some
          { s with
            queue :=
              { s.queue with
                buffer := update s.queue.buffer i (copyByte k element (s.queue.buffer i)) }
            producer := .copy element t (k + 1) }
      else
        some
          { s with
            queue := { s.queue with tail := wrap64 (t + 1) }
            producer := .returns .success
            pushed := s.pushed ++ [element] }
  | .returns _ => some { s with producer := .idle }

/-- The next step of `lgx_spsc_queue_pop`. -/
def stepConsumer (s : State n) : Option (State n) :=
  match s.consumer with
  | .idle => none
  | .loadHead out => some { s with consumer := .loadTail out s.queue.head }
  | .loadTail out h =>
      if h ≥ s.queue.tail then some { s with consumer := .returns .queueEmpty }
      else some { s with consumer := .copy out h 0 }
  | .copy out h k =>
      if k < n then
        some { s with consumer := .copy (copyByte k (s.queue.buffer (h &&& s.queue.mask)) out) h (k + 1) }
      else
        some
          { s with
            queue := { s.queue with head := wrap64 (h + 1) }
            consumer := .returns .success
            popped := s.popped ++ [out] }
  | .returns _ => some { s with consumer := .idle }

/-- One step. -/
def step (s : State n) : Action n → Option (State n)
  | .push element =>
      match s.producer with
      | .idle => some { s with producer := .loadTail element }
      | _ => none
  | .pop out =>
      match s.consumer with
      | .idle => some { s with consumer := .loadHead out }
      | _ => none
  | .producer => stepProducer s
  | .consumer => stepConsumer s

/-! ## The invariant -/

/-- What the producer knows at its place: a `tail` that only it moves, and room for one more element,
which only grows. -/
def ProducerOk (s : State n) : Prop :=
  match s.producer with
  | .loadHead _ t => t = s.pushed.length
  | .copy element t k => t = s.pushed.length ∧ t < s.popped.length + s.queue.capacity ∧
      Copied k element (s.queue.buffer (slot s.queue.capacity t))
  | _ => True

/-- What the consumer knows: a `head` that only it moves, and an element to read. -/
def ConsumerOk (s : State n) : Prop :=
  match s.consumer with
  | .loadTail _ h => h = s.popped.length
  | .copy out h k => h = s.popped.length ∧ ∃ element, s.pushed[h]? = some element ∧ Copied k element out
  | _ => True

/-- The positions count the elements, and every element that is queued lies in its slot. -/
structure QueueRep (capacity : ℕ) (s : State n) : Prop where
  rounded : Ring.roundUp capacity = some s.queue.capacity
  pow : ∃ m, s.queue.capacity = 2 ^ m
  mask_eq : s.queue.mask = s.queue.capacity - 1
  head_eq : s.queue.head = s.popped.length
  tail_eq : s.queue.tail = s.pushed.length
  fifo : s.popped <+: s.pushed
  length_le : s.pushed.length ≤ s.popped.length + s.queue.capacity
  slots : ∀ i element, s.popped.length ≤ i → s.pushed[i]? = some element →
    s.queue.buffer (slot s.queue.capacity i) = element
  producer : ProducerOk s
  consumer : ConsumerOk s

/-! ## Steps -/

section

variable {capacity : ℕ} {s s' : State n}

theorem QueueRep.and_mask (h : QueueRep capacity s) (i : ℕ) :
    i &&& s.queue.mask = slot s.queue.capacity i := by
  rw [h.mask_eq, slot]

/-- The position of the producer is in another slot than the elements that are queued. -/
theorem QueueRep.slot_ne_tail (h : QueueRep capacity s) {i : ℕ} (hlow : s.popped.length ≤ i)
    (hi : i < s.pushed.length) (hroom : s.pushed.length < s.popped.length + s.queue.capacity) :
    slot s.queue.capacity i ≠ slot s.queue.capacity s.pushed.length := by
  obtain ⟨m, hm⟩ := h.pow
  rw [hm] at hroom ⊢
  exact slot_ne hi (by omega)

/-- The producer moves on without touching the queue. -/
theorem QueueRep.setProducer (h : QueueRep capacity s) {pc : ProducerPc n}
    (hpc : ProducerOk { s with producer := pc }) : QueueRep capacity { s with producer := pc } :=
  ⟨h.rounded, h.pow, h.mask_eq, h.head_eq, h.tail_eq, h.fifo, h.length_le, h.slots, hpc, h.consumer⟩

theorem QueueRep.setConsumer (h : QueueRep capacity s) {pc : ConsumerPc n}
    (hpc : ConsumerOk { s with consumer := pc }) : QueueRep capacity { s with consumer := pc } :=
  ⟨h.rounded, h.pow, h.mask_eq, h.head_eq, h.tail_eq, h.fifo, h.length_le, h.slots, h.producer, hpc⟩

/-- One byte of the copy into the queue. -/
theorem QueueRep.copyIn (h : QueueRep capacity s) {element : Element n} {t k : ℕ}
    (hpc : s.producer = .copy element t k) :
    QueueRep capacity
      { s with
        queue :=
          { s.queue with
            buffer := update s.queue.buffer (slot s.queue.capacity t)
              (copyByte k element (s.queue.buffer (slot s.queue.capacity t))) }
        producer := .copy element t (k + 1) } := by
  have hok := h.producer
  simp only [ProducerOk, hpc] at hok
  obtain ⟨rfl, hroom, hcopied⟩ := hok
  refine ⟨h.rounded, h.pow, h.mask_eq, h.head_eq, h.tail_eq, h.fifo, h.length_le,
    fun i e hlow hi => ?_, ⟨rfl, hroom, ?_⟩, h.consumer⟩
  · have hlt : i < s.pushed.length := (List.getElem?_eq_some_iff.mp hi).1
    exact (update_of_ne (h.slot_ne_tail hlow hlt hroom) ..).trans (h.slots i e hlow hi)
  · simp only [update_self]
    exact hcopied.copyByte

/-- The producer publishes the element. -/
theorem QueueRep.publish (h : QueueRep capacity s) {element : Element n} {t k : ℕ}
    (hpc : s.producer = .copy element t k) (hk : n ≤ k) (hpushes : s.pushed.length + 1 < 2 ^ 64) :
    QueueRep capacity
      { s with
        queue := { s.queue with tail := wrap64 (t + 1) }
        producer := .returns .success
        pushed := s.pushed ++ [element] } := by
  have hok := h.producer
  simp only [ProducerOk, hpc] at hok
  obtain ⟨rfl, hroom, hcopied⟩ := hok
  refine ⟨h.rounded, h.pow, h.mask_eq, h.head_eq, ?_, h.fifo.trans (List.prefix_append ..), ?_,
    fun i e hlow hi => ?_, trivial, ?_⟩
  · simp only [List.length_append, List.length_singleton]
    exact wrap64_of_lt hpushes
  · simp only [List.length_append, List.length_singleton]
    omega
  · rcases Ring.getElem?_concat_cases hi with hi | ⟨rfl, rfl⟩
    · exact h.slots i e hlow hi
    · exact hcopied.eq hk
  · -- the consumer still finds its element
    have hconsumer := h.consumer
    unfold ConsumerOk at hconsumer ⊢
    simp only
    cases hc : s.consumer with
    | copy out pos j =>
        rw [hc] at hconsumer
        obtain ⟨hpos, e, he, hcopied'⟩ := hconsumer
        have hlt := (List.getElem?_eq_some_iff.mp he).1
        exact ⟨hpos, e, by rw [List.getElem?_append_left hlt, he], hcopied'⟩
    | loadTail out pos =>
        rw [hc] at hconsumer
        exact hconsumer
    | idle | loadHead _ | returns _ => trivial

/-- The consumer gives the slot of its element back. -/
theorem QueueRep.retire (h : QueueRep capacity s) {out : Element n} {pos k : ℕ}
    (hpc : s.consumer = .copy out pos k) (hk : n ≤ k) (hpushes : s.pushed.length < 2 ^ 64) :
    QueueRep capacity
      { s with
        queue := { s.queue with head := wrap64 (pos + 1) }
        consumer := .returns .success
        popped := s.popped ++ [out] } := by
  have hok := h.consumer
  simp only [ConsumerOk, hpc] at hok
  obtain ⟨rfl, element, helement, hcopied⟩ := hok
  obtain rfl := hcopied.eq hk
  obtain ⟨hlt, hget⟩ := List.getElem?_eq_some_iff.mp helement
  have hlength := h.length_le
  refine ⟨h.rounded, h.pow, h.mask_eq, ?_, h.tail_eq, ?_, ?_, fun i e hlow hi => ?_, ?_, trivial⟩
  · simp only [List.length_append, List.length_singleton]
    exact wrap64_of_lt (by omega)
  · have htake := List.prefix_iff_eq_take.mp h.fifo
    refine List.prefix_iff_eq_take.mpr ?_
    rw [List.length_append, List.length_singleton, List.take_add_one, ← htake, helement]
    rfl
  · simp only [List.length_append, List.length_singleton]
    omega
  · simp only [List.length_append, List.length_singleton] at hlow
    exact h.slots i e (by omega) hi
  · -- the producer has more room than it knew of
    have hproducer := h.producer
    unfold ProducerOk at hproducer ⊢
    simp only
    cases hp : s.producer with
    | copy e t j =>
        rw [hp] at hproducer
        obtain ⟨ht, hroom, hcopied'⟩ := hproducer
        refine ⟨ht, ?_, hcopied'⟩
        simp only [List.length_append, List.length_singleton]
        omega
    | loadHead e t =>
        rw [hp] at hproducer
        exact hproducer
    | idle | loadTail _ | returns _ => trivial

/-- What the producer computes from the two positions is the number of elements that are queued. -/
theorem QueueRep.sub64_eq (h : QueueRep capacity s) (hpushes : s.pushed.length < 2 ^ 64) :
    sub64 s.pushed.length s.queue.head = s.pushed.length - s.popped.length := by
  have hle := h.fifo.length_le
  rw [h.head_eq, sub64, wrap64_of_lt (by omega : s.popped.length < 2 ^ 64)]
  unfold wrap64
  omega

/-- A step of the producer. -/
theorem QueueRep.stepProducer (h : QueueRep capacity s) (hpushes : s'.pushed.length < 2 ^ 64)
    (hstep : stepProducer s = some s') : QueueRep capacity s' := by
  unfold SpscQueue.stepProducer at hstep
  split at hstep
  · cases hstep
  · cases hstep
    exact h.setProducer h.tail_eq
  · rename_i element t hpc
    have hok := h.producer
    simp only [ProducerOk, hpc] at hok
    obtain rfl := hok
    split at hstep
    · cases hstep
      exact h.setProducer trivial
    · rename_i hroom
      cases hstep
      rw [h.sub64_eq hpushes] at hroom
      have hlt : s.pushed.length < s.popped.length + s.queue.capacity := by omega
      exact h.setProducer ⟨rfl, hlt, Copied.zero _ _⟩
  · rename_i element t k hpc
    split at hstep
    · cases hstep
      simp only [h.and_mask]
      exact h.copyIn hpc
    · rename_i hk
      cases hstep
      rw [List.length_append, List.length_singleton] at hpushes
      exact h.publish hpc (not_lt.mp hk) hpushes
  · cases hstep
    exact h.setProducer trivial

/-- A step of the consumer. -/
theorem QueueRep.stepConsumer (h : QueueRep capacity s) (hpushes : s'.pushed.length < 2 ^ 64)
    (hstep : stepConsumer s = some s') : QueueRep capacity s' := by
  unfold SpscQueue.stepConsumer at hstep
  split at hstep
  · cases hstep
  · cases hstep
    exact h.setConsumer h.head_eq
  · rename_i out pos hpc
    have hok := h.consumer
    simp only [ConsumerOk, hpc] at hok
    obtain rfl := hok
    split at hstep
    · cases hstep
      exact h.setConsumer trivial
    · rename_i hqueued
      cases hstep
      rw [h.tail_eq, ge_iff_le, not_le] at hqueued
      exact h.setConsumer ⟨rfl, _, List.getElem?_eq_getElem hqueued, Copied.zero _ _⟩
  · rename_i out pos k hpc
    have hok := h.consumer
    simp only [ConsumerOk, hpc] at hok
    split at hstep
    · cases hstep
      obtain ⟨rfl, element, helement, hcopied⟩ := hok
      refine h.setConsumer ⟨rfl, element, helement, ?_⟩
      rw [h.and_mask, h.slots _ element le_rfl helement]
      exact hcopied.copyByte
    · rename_i hk
      cases hstep
      exact h.retire hpc (not_lt.mp hk) hpushes
  · cases hstep
    exact h.setConsumer trivial

/-- One step. -/
theorem QueueRep.step (h : QueueRep capacity s) {a : Action n} (hpushes : s'.pushed.length < 2 ^ 64)
    (hstep : step s a = some s') : QueueRep capacity s' := by
  cases a with
  | push element =>
      simp only [SpscQueue.step] at hstep
      split at hstep
      · cases hstep
        exact h.setProducer trivial
      · cases hstep
  | pop out =>
      simp only [SpscQueue.step] at hstep
      split at hstep
      · cases hstep
        exact h.setConsumer trivial
      · cases hstep
  | producer => exact h.stepProducer hpushes hstep
  | consumer => exact h.stepConsumer hpushes hstep

/-- Nothing that was pushed is forgotten. -/
theorem pushed_length_le {a : Action n} (hstep : step s a = some s') :
    s.pushed.length ≤ s'.pushed.length := by
  cases a with
  | push element =>
      simp only [step] at hstep
      split at hstep <;> cases hstep
      exact le_rfl
  | pop out =>
      simp only [step] at hstep
      split at hstep <;> cases hstep
      exact le_rfl
  | producer =>
      simp only [step, SpscQueue.stepProducer] at hstep
      split at hstep
      · cases hstep
      · cases hstep
        exact le_rfl
      · split at hstep <;> cases hstep <;> exact le_rfl
      · split at hstep <;> cases hstep
        · exact le_rfl
        · rw [List.length_append]
          exact Nat.le_add_right _ _
      · cases hstep
        exact le_rfl
  | consumer =>
      simp only [step, SpscQueue.stepConsumer] at hstep
      split at hstep
      · cases hstep
      · cases hstep
        exact le_rfl
      · split at hstep <;> cases hstep <;> exact le_rfl
      · split at hstep <;> cases hstep <;> exact le_rfl
      · cases hstep
        exact le_rfl

end

/-! ## Runs -/

/-- The states of the runs of one producer and one consumer on a queue that `lgx_spsc_queue_create` has
made for the given capacity. -/
def Reachable (capacity : ℕ) : State n → Prop :=
  Interleaving.Reachable
    (fun s => ∃ q, lgxSpscQueueCreate capacity n (true, true) = some (.ok q) ∧ s = init q) step
    fun _ _ => True

theorem QueueRep.init {capacity : ℕ} {q : Queue n}
    (hcreate : lgxSpscQueueCreate capacity n (true, true) = some (.ok q)) :
    QueueRep capacity (init q) := by
  unfold lgxSpscQueueCreate at hcreate
  split at hcreate
  · cases hcreate
  · rename_i hparam
    obtain ⟨cap, hcap, hok⟩ := Option.map_eq_some_iff.mp hcreate
    cases hok
    obtain ⟨m, -, hm, -⟩ := Ring.roundUp_spec (by omega) hcap
    exact ⟨hcap, ⟨m, hm⟩, rfl, rfl, rfl, List.nil_prefix, Nat.zero_le _, by simp [SpscQueue.init],
      trivial, trivial⟩

/-- `lgx_spsc_queue_create` makes a queue for every capacity that a power of two can reach. -/
theorem exists_reachable {capacity : ℕ} (hpos : capacity ≠ 0) (hcapacity : capacity ≤ 2 ^ 63)
    (hsize : n ≠ 0) : ∃ s : State n, Reachable capacity s := by
  obtain ⟨cap, hcap⟩ := Option.isSome_iff_exists.mp (Ring.roundUp_isSome hcapacity)
  let q : Queue n := { buffer := fun _ _ => 0, capacity := cap, mask := cap - 1, head := 0, tail := 0 }
  have hcreate : lgxSpscQueueCreate capacity n (true, true) = some (.ok q) := by
    rw [lgxSpscQueueCreate, if_neg (by omega), hcap]
    rfl
  exact ⟨init q, .init ⟨q, hcreate, rfl⟩⟩

theorem Reachable.rep {capacity : ℕ} {s : State n} (h : Reachable capacity s)
    (hpushes : s.pushed.length < 2 ^ 64) : QueueRep capacity s := by
  refine Interleaving.Reachable.invariant (I := fun s => s.pushed.length < 2 ^ 64 → QueueRep capacity s)
    h ?_ ?_ hpushes
  · intro s hinit _
    obtain ⟨q, hcreate, rfl⟩ := hinit
    exact QueueRep.init hcreate
  · intro s s' a ih _ hstep hpushes
    exact (ih ((pushed_length_le hstep).trans_lt hpushes)).step hpushes hstep

/-- The number of elements that are queued. -/
def State.queued (s : State n) : ℕ :=
  s.pushed.length - s.popped.length

/-- What the queue promises in a state. -/
structure Fifo (capacity : ℕ) (s : State n) : Prop where
  rounded : Ring.roundUp capacity = some s.queue.capacity
  popped_prefix : s.popped <+: s.pushed
  intact : ∀ i element, s.popped.length ≤ i → s.pushed[i]? = some element →
    s.queue.buffer (i &&& s.queue.mask) = element
  full : ∀ element t s', s.producer = .loadHead element t → step s .producer = some s' →
    s'.producer = .returns .queueFull → s.queued = s.queue.capacity
  empty : ∀ out h s', s.consumer = .loadTail out h → step s .consumer = some s' →
    s'.consumer = .returns .queueEmpty → s.queued = 0

/-- In every interleaving with fewer than `2 ^ 64` pushes, elements come out in the order in which they
went in, no element is overwritten before it is popped, and the queue is reported full or empty only
if it is when the other position is read. -/
theorem fifo_of_reachable {capacity : ℕ} {s : State n} (hreach : Reachable capacity s)
    (hpushes : s.pushed.length < 2 ^ 64) : Fifo capacity s := by
  have h := hreach.rep hpushes
  have hle := h.length_le
  have hpopped := h.fifo.length_le
  refine ⟨h.rounded, h.fifo, fun i element hlow hi => ?_, fun element t s' hpc hstep hfull => ?_,
    fun out pos s' hpc hstep hempty => ?_⟩
  · rw [h.and_mask]
    exact h.slots i element hlow hi
  · have hok := h.producer
    simp only [ProducerOk, hpc] at hok
    simp only [step, stepProducer, hpc, hok, h.sub64_eq hpushes] at hstep
    split at hstep
    · rename_i hge
      unfold State.queued
      omega
    · cases hstep
      cases hfull
  · have hok := h.consumer
    simp only [ConsumerOk, hpc] at hok
    simp only [step, stepConsumer, hpc, hok, h.tail_eq] at hstep
    split at hstep
    · rename_i hge
      unfold State.queued
      omega
    · cases hstep
      cases hempty

/-- One element of one byte goes through a queue for three elements. -/
theorem fifo_after_one_element :
    ∃ s : State 1, Reachable 3 s ∧ s.popped.map (· 0) = [7] ∧ s.queue.capacity = 4 ∧ Fifo 3 s := by
  let q : Queue 1 := { buffer := fun _ _ => 0, capacity := 4, mask := 3, head := 0, tail := 0 }
  let actions : List (Action 1) :=
    [.push fun _ => 7, .pop fun _ => 0, .producer, .producer, .producer, .consumer, .producer, .consumer,
      .consumer, .consumer, .producer]
  have hresult : (Interleaving.run step actions (init q)).map
      (fun s => (s.popped.map (· 0), s.pushed.length, s.queue.capacity)) = some ([7], 1, 4) := by
    decide +kernel
  obtain ⟨s, hrun, hs⟩ := Option.map_eq_some_iff.mp hresult
  obtain ⟨hpopped, hpushed, hcapacity⟩ : s.popped.map (· 0) = [7] ∧ s.pushed.length = 1 ∧
      s.queue.capacity = 4 := by simpa using hs
  have hreach : Reachable 3 s :=
    Interleaving.Reachable.run (.init ⟨q, rfl, rfl⟩) (fun _ _ => trivial) hrun
  exact ⟨s, hreach, hpopped, hcapacity, fifo_of_reachable hreach (by omega)⟩

end SpscQueue

end LgxRuntime.Threading
