import LgxRuntime.Threading.MpmcQueue

/-!
# The multi-producer multi-consumer queue, one call after another

A push infers from the sequence of one cell whether there is room, and a pop whether there is an element.
Here the calls follow each other, any number of them, so the positions and the sequences wrap around.  The
queue is then a FIFO of `capacity` elements, except for one capacity: in a ring of one cell the sequence of a
full cell is the one of a vacant cell of the next lap.
-/

namespace LgxRuntime.Threading.MpmcQueue

open Function (update update_self update_of_ne)
open Ring (Element slot slot_two_pow)

variable {n : ℕ}

/-! ## The calls -/

/-- `(intptr_t)a - (intptr_t)b`, as an `intptr_t` holds it. -/
def difference (a b : ℕ) : ℤ :=
  wrapInt64 (toIntptr a - toIntptr b)

/-- What a push does when it has won `pos`. -/
def Queue.write (q : Queue n) (pos : ℕ) (element : Element n) : Queue n :=
  let i := pos &&& q.mask
  { q with
    enqueuePos := wrap64 (pos + 1)
    data := update q.data i element
    sequence := update q.sequence i (wrap64 (pos + 1)) }

/-- What a pop does to the queue when it has won `pos`. -/
def Queue.release (q : Queue n) (pos : ℕ) : Queue n :=
  { q with
    dequeuePos := wrap64 (pos + 1)
    sequence := update q.sequence (pos &&& q.mask) (wrap64 (pos + q.capacity)) }

/-- The loop of `lgx_mpmc_queue_push`, for at most `fuel` rounds; the weak compare-and-swap fails
`spurious` times for no reason. -/
def pushLoop (q : Queue n) (element : Element n) : ℕ → ℕ → ℕ → Option (ThreadingError × Queue n)
  | 0, _, _ => none
  | fuel + 1, spurious, pos =>
      let diff := difference (q.sequence (pos &&& q.mask)) pos
      if diff = 0 then
        match spurious with
        | 0 =>
            if q.enqueuePos = pos then some (.success, q.write pos element)
            else pushLoop q element fuel 0 q.enqueuePos
        | spurious + 1 => pushLoop q element fuel spurious q.enqueuePos
      else if diff < 0 then some (.queueFull, q)
      else pushLoop q element fuel spurious q.enqueuePos

/-- The loop of `lgx_mpmc_queue_pop`; also what it copies out. -/
def popLoop (q : Queue n) (out : Element n) :
    ℕ → ℕ → ℕ → Option (ThreadingError × Element n × Queue n)
  | 0, _, _ => none
  | fuel + 1, spurious, pos =>
      let diff := difference (q.sequence (pos &&& q.mask)) (wrap64 (pos + 1))
      if diff = 0 then
        match spurious with
        | 0 =>
            if q.dequeuePos = pos then some (.success, q.data (pos &&& q.mask), q.release pos)
            else popLoop q out fuel 0 q.dequeuePos
        | spurious + 1 => popLoop q out fuel spurious q.dequeuePos
      else if diff < 0 then some (.queueEmpty, out, q)
      else popLoop q out fuel spurious q.dequeuePos

/-- A call on a queue; the pointer may be `NULL`. -/
inductive Call (n : ℕ)
  | push (element : Option (Element n)) (spurious : ℕ)
  | pop (out : Option (Element n)) (spurious : ℕ)

/-- What a call returns, and what is then at `out`. -/
abbrev Reply (n : ℕ) : Type := ThreadingError × Option (Element n)

/-- `lgx_mpmc_queue_push`. -/
def lgxMpmcQueuePush (fuel : ℕ) (q : Queue n) (element : Option (Element n)) (spurious : ℕ) :
    Option (ThreadingError × Queue n) :=
  match element with
  | none => some (.invalidParam, q)
  | some element => pushLoop q element fuel spurious q.enqueuePos

/-- `lgx_mpmc_queue_pop`. -/
def lgxMpmcQueuePop (fuel : ℕ) (q : Queue n) (out : Option (Element n)) (spurious : ℕ) :
    Option (Reply n × Queue n) :=
  match out with
  | none => some ((.invalidParam, none), q)
  | some out =>
      (popLoop q out fuel spurious q.dequeuePos).map fun x => ((x.1, some x.2.1), x.2.2)

/-- One call. -/
def call (fuel : ℕ) (q : Queue n) : Call n → Option (Reply n × Queue n)
  | .push element spurious =>
      (lgxMpmcQueuePush fuel q element spurious).map fun x => ((x.1, none), x.2)
  | .pop out spurious => lgxMpmcQueuePop fuel q out spurious

/-- The replies to the calls of a run; `none` if `fuel` rounds are not enough for one of them. -/
def runCalls (fuel : ℕ) : Queue n → List (Call n) → Option (List (Reply n))
  | _, [] => some []
  | q, c :: calls => do
      let (reply, q) ← call fuel q c
      let replies ← runCalls fuel q calls
      return reply :: replies

/-! ## The purpose -/

/-- A call on a FIFO of at most `capacity` elements, with the elements `queued`. -/
def fifoCall (capacity : ℕ) (queued : List (Element n)) : Call n → Reply n × List (Element n)
  | .push none _ => ((.invalidParam, none), queued)
  | .push (some element) _ =>
      if queued.length = capacity then ((.queueFull, none), queued)
      else ((.success, none), queued ++ [element])
  | .pop none _ => ((.invalidParam, none), queued)
  | .pop (some out) _ =>
      match queued with
      | [] => ((.queueEmpty, some out), [])
      | element :: rest => ((.success, some element), rest)

/-- The replies of the FIFO. -/
def fifoRun (capacity : ℕ) : List (Element n) → List (Call n) → List (Reply n)
  | _, [] => []
  | queued, c :: calls =>
      (fifoCall capacity queued c).1 :: fifoRun capacity (fifoCall capacity queued c).2 calls

/-- In every run all calls return, with the replies of the FIFO. -/
def ActsAsFifo (q : Queue n) : Prop :=
  ∀ calls, ∃ bound, ∀ fuel ≥ bound, runCalls fuel q calls = some (fifoRun q.capacity [] calls)

/-! ## Differences -/

/-- Two counters have the difference of their values, however often they have wrapped around. -/
theorem difference_wrap (a b : ℕ) : difference (wrap64 a) (wrap64 b) = wrapInt64 ((a : ℤ) - b) := by
  have hcast : ∀ k : ℕ, toIntptr (wrap64 k) = (k : ℤ).bmod (2 ^ 64) := by
    intro k
    rw [toIntptr, wrap64, BitVec.toInt_ofNat', Int.natCast_mod, Int.emod_bmod]
  rw [difference, wrapInt64, wrapInt64, hcast, hcast]
  simp only [Int.sub_bmod_bmod, Int.bmod_sub_bmod]

theorem difference_self (a : ℕ) : difference (wrap64 a) (wrap64 a) = 0 := by
  rw [difference_wrap, sub_self]
  rfl

/-- A counter that is behind, by less than half of the range. -/
theorem difference_neg {a k : ℕ} (hpos : 0 < k) (hk : k < 2 ^ 63) :
    difference (wrap64 a) (wrap64 (a + k)) < 0 := by
  rw [difference_wrap, wrapInt64_of_lt] <;> omega

theorem wrap64_add (a b : ℕ) : wrap64 (wrap64 a + b) = wrap64 (a + b) :=
  Nat.mod_add_mod a (2 ^ 64) b

/-! ## The invariant -/

/-- The queue after `taken` elements have been taken from it, with the elements `queued`.  The positions and
the sequences are counters that have wrapped around. -/
structure Fifo (q : Queue n) (taken : ℕ) (queued : List (Element n)) : Prop where
  pow : ∃ m < 64, q.capacity = 2 ^ m
  mask_eq : q.mask = q.capacity - 1
  enqueue_eq : q.enqueuePos = wrap64 (taken + queued.length)
  dequeue_eq : q.dequeuePos = wrap64 taken
  length_le : queued.length ≤ q.capacity
  filled : ∀ i (hi : i < queued.length),
    q.sequence (q.cell (taken + i)) = wrap64 (taken + i + 1) ∧ q.data (q.cell (taken + i)) = queued[i]
  vacant : ∀ i, queued.length ≤ i → i < q.capacity →
    q.sequence (q.cell (taken + i)) = wrap64 (taken + i)

namespace Fifo

variable {q : Queue n} {taken : ℕ} {queued : List (Element n)} {element : Element n}

/-- The cell of a counter that has wrapped around. -/
theorem and_mask (h : Fifo q taken queued) (a : ℕ) : wrap64 a &&& q.mask = q.cell a := by
  obtain ⟨m, hm, hcapacity⟩ := h.pow
  have hdvd : 2 ^ m ∣ 2 ^ 64 := pow_dvd_pow 2 hm.le
  rw [h.mask_eq, Queue.cell, ← slot, hcapacity, slot_two_pow, slot_two_pow, wrap64,
    Nat.mod_mod_of_dvd a hdvd]

theorem capacity_le (h : Fifo q taken queued) : q.capacity ≤ 2 ^ 63 := by
  obtain ⟨m, hm, hcapacity⟩ := h.pow
  rw [hcapacity]
  exact Nat.pow_le_pow_right (by decide) (by omega)

/-- The next cell is vacant if and only if there is room: in a full queue it holds the oldest element, and
its sequence is `capacity - 1` behind. -/
theorem push_difference (h : Fifo q taken queued) (htwo : 2 ≤ q.capacity) :
    let diff := difference (q.sequence (q.enqueuePos &&& q.mask)) q.enqueuePos
    (queued.length < q.capacity → diff = 0) ∧ (queued.length = q.capacity → diff < 0) := by
  rw [h.enqueue_eq, h.and_mask]
  constructor
  · intro hroom
    rw [h.vacant _ le_rfl hroom]
    exact difference_self _
  · intro hfull
    have hoccupied := (h.filled 0 (by omega)).1
    rw [Nat.add_zero] at hoccupied
    have hle := h.capacity_le
    have hpos : taken + queued.length = taken + 1 + (q.capacity - 1) := by omega
    rw [show q.cell (taken + queued.length) = q.cell taken by rw [hfull, Queue.cell_add_of_pow h.pow], hoccupied, hpos]
    exact difference_neg (by omega) (by omega)

/-- The oldest cell is filled if and only if there is an element. -/
theorem pop_difference (h : Fifo q taken queued) (hcapacity : 0 < q.capacity) :
    let diff := difference (q.sequence (q.dequeuePos &&& q.mask)) (wrap64 (q.dequeuePos + 1))
    (queued ≠ [] → diff = 0) ∧ (queued = [] → diff < 0) := by
  rw [h.dequeue_eq, h.and_mask, wrap64_add]
  constructor
  · intro hne
    have hoccupied := (h.filled 0 (List.length_pos_of_ne_nil hne)).1
    rw [Nat.add_zero] at hoccupied
    rw [hoccupied]
    exact difference_self _
  · intro hnil
    have hvacant := h.vacant 0 (by simp [hnil]) hcapacity
    rw [Nat.add_zero] at hvacant
    rw [hvacant]
    exact difference_neg Nat.one_pos (by decide)

/-- A push fills the first vacant cell. -/
theorem write (h : Fifo q taken queued) (hroom : queued.length < q.capacity) :
    Fifo (q.write q.enqueuePos element) taken (queued ++ [element]) := by
  have hcell : q.enqueuePos &&& q.mask = q.cell (taken + queued.length) := by
    rw [h.enqueue_eq, h.and_mask]
  have hseq : wrap64 (q.enqueuePos + 1) = wrap64 (taken + queued.length + 1) := by
    rw [h.enqueue_eq, wrap64_add]
  have hother : ∀ i, i < q.capacity → i ≠ queued.length →
      q.cell (taken + i) ≠ q.cell (taken + queued.length) := by
    intro i hi hne
    rcases Nat.lt_or_gt_of_ne hne with hlt | hgt
    · exact Queue.cell_ne_of_pow h.pow (by omega) (by omega)
    · exact (Queue.cell_ne_of_pow h.pow (by omega) (by omega)).symm
  unfold Queue.write
  rw [hcell, hseq]
  refine ⟨h.pow, h.mask_eq, ?_, h.dequeue_eq, ?_, fun i hi => ?_, fun i hi hlt => ?_⟩
  · simp only [List.length_append, List.length_singleton, Nat.add_assoc]
  · rw [List.length_append, List.length_singleton]
    exact hroom
  · rw [List.length_append, List.length_singleton] at hi
    by_cases hlast : i = queued.length
    · subst hlast
      simp [Queue.cell]
    · have hold := h.filled i (by omega)
      rw [List.getElem_append_left (by omega)]
      have hne := hother i (by omega) hlast
      exact ⟨(update_of_ne hne _ _).trans hold.1, (update_of_ne hne _ _).trans hold.2⟩
  · rw [List.length_append, List.length_singleton] at hi
    exact (update_of_ne (hother i hlt (by omega)) _ _).trans (h.vacant i (by omega) hlt)

/-- A pop makes the oldest cell the last vacant one. -/
theorem release (h : Fifo q taken (element :: queued)) :
    q.data (q.dequeuePos &&& q.mask) = element ∧ Fifo (q.release q.dequeuePos) (taken + 1) queued := by
  have hcell : q.dequeuePos &&& q.mask = q.cell taken := by
    rw [h.dequeue_eq, h.and_mask]
  have hlength := h.length_le
  rw [List.length_cons] at hlength
  have hother : ∀ i, i + 1 < q.capacity → q.cell (taken + 1 + i) ≠ q.cell taken := by
    intro i hi
    exact (Queue.cell_ne_of_pow h.pow (by omega) (by omega)).symm
  refine ⟨?_, ?_⟩
  · rw [hcell]
    exact (h.filled 0 (by simp)).2
  unfold Queue.release
  rw [hcell, h.dequeue_eq, wrap64_add, wrap64_add]
  refine ⟨h.pow, h.mask_eq, ?_, rfl, Nat.le_of_succ_le hlength, fun i hi => ?_,
    fun i hi (hlt : i < q.capacity) => ?_⟩
  · rw [h.enqueue_eq, List.length_cons]
    congr 1
    omega
  · have hold := h.filled (i + 1) (by simpa using hi)
    rw [List.getElem_cons_succ, show taken + (i + 1) = taken + 1 + i by omega] at hold
    exact ⟨(update_of_ne (hother i (by omega)) _ _).trans hold.1, hold.2⟩
  · by_cases hlast : i + 1 = q.capacity
    · -- the cell that has been read, for the next lap
      have hsame : q.cell (taken + 1 + i) = q.cell taken := by
        rw [show taken + 1 + i = taken + q.capacity by omega, Queue.cell_add_of_pow h.pow]
      change update q.sequence (q.cell taken) _ (q.cell (taken + 1 + i)) = _
      rw [hsame, update_self]
      congr 1
      omega
    · have hold := h.vacant (i + 1) (by simpa using hi) (by omega)
      rw [show taken + (i + 1) = taken + 1 + i by omega] at hold
      exact (update_of_ne (hother i (by omega)) _ _).trans hold

end Fifo

/-! ## The loops -/

section

variable {q : Queue n} {element out : Element n} {spurious fuel : ℕ}

/-- With room, a push wins as soon as its compare-and-swap does not fail for no reason. -/
theorem pushLoop_success (hdiff : difference (q.sequence (q.enqueuePos &&& q.mask)) q.enqueuePos = 0)
    (hfuel : spurious < fuel) :
    pushLoop q element fuel spurious q.enqueuePos = some (.success, q.write q.enqueuePos element) := by
  induction spurious generalizing fuel with
  | zero =>
      obtain ⟨fuel, rfl⟩ := Nat.exists_eq_add_of_lt hfuel
      simp only [Nat.zero_add, pushLoop, if_pos hdiff, if_pos]
  | succ spurious ih =>
      obtain ⟨fuel, rfl⟩ : ∃ k, fuel = k + 1 := ⟨fuel - 1, by omega⟩
      simp only [pushLoop, if_pos hdiff]
      exact ih (by omega)

theorem call_push_success
    (hdiff : difference (q.sequence (q.enqueuePos &&& q.mask)) q.enqueuePos = 0) (hfuel : spurious < fuel) :
    call fuel q (.push (some element) spurious) = some ((.success, none), q.write q.enqueuePos element) := by
  simp only [call, lgxMpmcQueuePush, pushLoop_success hdiff hfuel, Option.map_some]

theorem pushLoop_full (hdiff : difference (q.sequence (q.enqueuePos &&& q.mask)) q.enqueuePos < 0)
    (hfuel : 0 < fuel) : pushLoop q element fuel spurious q.enqueuePos = some (.queueFull, q) := by
  obtain ⟨fuel, rfl⟩ := Nat.exists_eq_add_of_lt hfuel
  simp only [Nat.zero_add, pushLoop, if_neg hdiff.ne, if_pos hdiff]

/-- A pop wins in the same way. -/
theorem popLoop_success
    (hdiff : difference (q.sequence (q.dequeuePos &&& q.mask)) (wrap64 (q.dequeuePos + 1)) = 0)
    (hfuel : spurious < fuel) :
    popLoop q out fuel spurious q.dequeuePos =
      some (.success, q.data (q.dequeuePos &&& q.mask), q.release q.dequeuePos) := by
  induction spurious generalizing fuel with
  | zero =>
      obtain ⟨fuel, rfl⟩ := Nat.exists_eq_add_of_lt hfuel
      simp only [Nat.zero_add, popLoop, if_pos hdiff, if_pos]
  | succ spurious ih =>
      obtain ⟨fuel, rfl⟩ : ∃ k, fuel = k + 1 := ⟨fuel - 1, by omega⟩
      simp only [popLoop, if_pos hdiff]
      exact ih (by omega)

theorem popLoop_empty
    (hdiff : difference (q.sequence (q.dequeuePos &&& q.mask)) (wrap64 (q.dequeuePos + 1)) < 0)
    (hfuel : 0 < fuel) : popLoop q out fuel spurious q.dequeuePos = some (.queueEmpty, out, q) := by
  obtain ⟨fuel, rfl⟩ := Nat.exists_eq_add_of_lt hfuel
  simp only [Nat.zero_add, popLoop, if_neg hdiff.ne, if_pos hdiff]

/-- When the sequence is ahead, a pop looks at the same cell again and again. -/
theorem call_pop_stuck
    (hdiff : 0 < difference (q.sequence (q.dequeuePos &&& q.mask)) (wrap64 (q.dequeuePos + 1))) :
    call fuel q (.pop (some out) spurious) = none := by
  have hloop : popLoop q out fuel spurious q.dequeuePos = none := by
    induction fuel with
    | zero => rfl
    | succ fuel ih =>
        simp only [popLoop, if_neg hdiff.ne', if_neg hdiff.not_gt]
        exact ih
  simp only [call, lgxMpmcQueuePop, hloop, Option.map_none]

end

/-- The times that a compare-and-swap of a call fails for no reason. -/
def Call.spurious : Call n → ℕ
  | .push _ spurious | .pop _ spurious => spurious

/-- No call of a run waits for ever. -/
theorem exists_spurious_lt (calls : List (Call n)) : ∃ bound, ∀ c ∈ calls, c.spurious < bound := by
  induction calls with
  | nil => exact ⟨0, by simp⟩
  | cons c calls ih =>
      obtain ⟨bound, hbound⟩ := ih
      refine ⟨max (c.spurious + 1) bound, fun d hd => ?_⟩
      rcases List.mem_cons.mp hd with rfl | hd
      · exact lt_max_of_lt_left (Nat.lt_succ_self _)
      · exact lt_max_of_lt_right (hbound d hd)

/-- A call returns with the reply of the FIFO, and leaves its elements. -/
theorem Fifo.call {q : Queue n} {taken fuel : ℕ} {queued : List (Element n)} (h : Fifo q taken queued)
    (htwo : 2 ≤ q.capacity) {c : Call n} (hfuel : c.spurious < fuel) :
    ∃ q' taken', call fuel q c = some ((fifoCall q.capacity queued c).1, q') ∧
      q'.capacity = q.capacity ∧ Fifo q' taken' (fifoCall q.capacity queued c).2 := by
  have hpos : 0 < fuel := Nat.zero_lt_of_lt hfuel
  cases c with
  | push element spurious =>
      have hspurious : spurious < fuel := hfuel
      cases element with
      | none => exact ⟨q, taken, rfl, rfl, h⟩
      | some element =>
          obtain ⟨hroom, hfull⟩ := h.push_difference htwo
          by_cases hlength : queued.length = q.capacity
          · refine ⟨q, taken, ?_, rfl, ?_⟩
            · simp only [MpmcQueue.call, lgxMpmcQueuePush, pushLoop_full (hfull hlength) hpos,
                Option.map_some, fifoCall, if_pos hlength]
            · simpa only [fifoCall, if_pos hlength] using h
          · have hlt : queued.length < q.capacity := lt_of_le_of_ne h.length_le hlength
            refine ⟨q.write q.enqueuePos element, taken, ?_, rfl, ?_⟩
            · rw [call_push_success (hroom hlt) hspurious, fifoCall, if_neg hlength]
            · simpa only [fifoCall, if_neg hlength] using h.write hlt
  | pop out spurious =>
      have hspurious : spurious < fuel := hfuel
      cases out with
      | none => exact ⟨q, taken, rfl, rfl, h⟩
      | some out =>
          obtain ⟨hsome, hnil⟩ := h.pop_difference (by omega)
          cases queued with
          | nil =>
              refine ⟨q, taken, ?_, rfl, h⟩
              simp only [MpmcQueue.call, lgxMpmcQueuePop, popLoop_empty (hnil rfl) hpos,
                Option.map_some, fifoCall]
          | cons element rest =>
              obtain ⟨hdata, hnext⟩ := h.release
              have hpop := @popLoop_success n q out _ _ (hsome (List.cons_ne_nil _ _)) hspurious
              refine ⟨q.release q.dequeuePos, taken + 1, ?_, rfl, hnext⟩
              simp only [MpmcQueue.call, lgxMpmcQueuePop, hpop, Option.map_some, fifoCall, hdata]

/-- So do all calls of a run. -/
theorem Fifo.runCalls {q : Queue n} {taken fuel : ℕ} {queued : List (Element n)}
    (h : Fifo q taken queued) (htwo : 2 ≤ q.capacity) {calls : List (Call n)}
    (hfuel : ∀ c ∈ calls, c.spurious < fuel) :
    runCalls fuel q calls = some (fifoRun q.capacity queued calls) := by
  induction calls generalizing q taken queued with
  | nil => rfl
  | cons c calls ih =>
      obtain ⟨q', taken', hcall, hcapacity, hnext⟩ := h.call htwo (hfuel c (List.mem_cons_self ..))
      have hrest := ih hnext (by omega) fun c hc => hfuel c (List.mem_cons_of_mem _ hc)
      rw [hcapacity] at hrest
      simp only [MpmcQueue.runCalls, fifoRun, hcall, hrest, Option.bind_eq_bind, Option.bind_some,
        Option.pure_def]

/-- `lgx_mpmc_queue_create` makes an empty queue. -/
theorem Fifo.create {capacity : ℕ} {memory : Bool × Bool} {q : Queue n} (hcapacity : capacity < 2 ^ 64)
    (hcreate : lgxMpmcQueueCreate capacity n memory = .ok q) :
    q.capacity = capacity ∧ 0 < capacity ∧ Fifo q 0 [] := by
  unfold lgxMpmcQueueCreate at hcreate
  split_ifs at hcreate with hzero hpow
  · rename_i hmemory
    cases hcreate
    obtain ⟨m, hlt, hm⟩ := exists_pow_of_and_sub_one (by omega) hcapacity (not_not.mp hpow)
    refine ⟨rfl, by omega, ⟨m, hlt, hm⟩, rfl, rfl, rfl, Nat.zero_le _, by simp, fun i _ hi => ?_⟩
    have hi' : i < capacity := hi
    have hcell : slot capacity i = i := by
      rw [hm, slot_two_pow]
      exact Nat.mod_eq_of_lt (hm ▸ hi')
    simp only [Nat.zero_add, Queue.cell, hcell, if_pos hi']
    exact (wrap64_of_lt (hi'.trans hcapacity)).symm

/-! ## The capacities -/

/-- In a ring of one cell, a push finds its cell vacant even when the queue is full. -/
theorem Fifo.push_one {q : Queue n} {taken : ℕ} {queued : List (Element n)} (h : Fifo q taken queued)
    (hone : q.capacity = 1) :
    difference (q.sequence (q.enqueuePos &&& q.mask)) q.enqueuePos = 0 := by
  rw [h.enqueue_eq, h.and_mask]
  rcases Nat.eq_zero_or_pos queued.length with hempty | hpos
  · rw [h.vacant _ le_rfl (by omega)]
    exact difference_self _
  · have hle := h.length_le
    have hlength : queued.length = q.capacity := by omega
    have hoccupied := (h.filled 0 hpos).1
    rw [Nat.add_zero] at hoccupied
    rw [hlength, Queue.cell_add_of_pow h.pow, hoccupied, hone]
    exact difference_self _

/-- A queue that `lgx_mpmc_queue_create` has made acts as a FIFO of `capacity` elements in all runs, if and
only if it has more than one cell. -/
theorem actsAsFifo_iff {capacity : ℕ} {memory : Bool × Bool} {q : Queue n} (hcapacity : capacity < 2 ^ 64)
    (hcreate : lgxMpmcQueueCreate capacity n memory = .ok q) : ActsAsFifo q ↔ capacity ≠ 1 := by
  obtain ⟨heq, hpos, hfifo⟩ := Fifo.create hcapacity hcreate
  constructor
  · intro hacts hone
    let element : Element n := fun _ => 0
    obtain ⟨bound, hbound⟩ := hacts [.push (some element) 0, .push (some element) 0]
    have hreplies := hbound (bound + 1) (Nat.le_succ bound)
    -- the second push overwrites the element of the first
    have hfirst := @call_push_success n q element 0 _ (hfifo.push_one (by omega)) (Nat.succ_pos bound)
    have hnext : Fifo (q.write q.enqueuePos element) 0 [element] :=
      hfifo.write (by rw [List.length_nil]; omega)
    have hsecond :=
      @call_push_success n _ element 0 _ (hnext.push_one (heq.trans hone)) (Nat.succ_pos bound)
    simp [runCalls, hfirst, hsecond, fifoRun, fifoCall, heq, hone] at hreplies
  · intro hne calls
    obtain ⟨bound, hbound⟩ := exists_spurious_lt calls
    refine ⟨bound, fun fuel hfuel => ?_⟩
    exact hfifo.runCalls (by omega) fun c hc => (hbound c hc).trans_le hfuel

/-- Two cells. -/
theorem actsAsFifo_two : ∃ q : Queue 4, lgxMpmcQueueCreate 2 4 (true, true) = .ok q ∧ ActsAsFifo q :=
  ⟨_, rfl, (@actsAsFifo_iff 4 2 (true, true) _ (by decide) rfl).mpr (by decide)⟩

/-- One cell: the second push succeeds and overwrites the first element; a pop then never returns. -/
theorem not_actsAsFifo_one : ∃ q : Queue 1, lgxMpmcQueueCreate 1 1 (true, true) = .ok q ∧
    (∀ fuel > 0, runCalls fuel q [.push (some fun _ => 7) 0, .push (some fun _ => 8) 0] =
      some [(.success, none), (.success, none)]) ∧
    (∀ fuel, runCalls fuel q
      [.push (some fun _ => 7) 0, .push (some fun _ => 8) 0, .pop (some fun _ => 0) 0] = none) ∧
    ¬ ActsAsFifo q := by
  let q : Queue 1 :=
    { sequence := fun i => if i < 1 then i else 0, data := fun _ _ => 0, capacity := 1, mask := 0,
      enqueuePos := 0, dequeuePos := 0 }
  let full : Queue 1 := q.write 0 fun _ => 7
  let overwritten : Queue 1 := full.write 1 fun _ => 8
  have hfirst : ∀ fuel > 0, call fuel q (.push (some fun _ => 7) 0) = some ((.success, none), full) :=
    fun fuel => call_push_success (by decide +kernel)
  have hsecond : ∀ fuel > 0,
      call fuel full (.push (some fun _ => 8) 0) = some ((.success, none), overwritten) :=
    fun fuel => call_push_success (by decide +kernel)
  have hpop : ∀ fuel, call fuel overwritten (.pop (some fun _ => 0) 0) = none :=
    fun fuel => call_pop_stuck (by decide +kernel)
  have hpushes : ∀ fuel > 0, runCalls fuel q [.push (some fun _ => 7) 0, .push (some fun _ => 8) 0] =
      some [(.success, none), (.success, none)] := by
    intro fuel hfuel
    simp [runCalls, hfirst fuel hfuel, hsecond fuel hfuel]
  refine ⟨q, rfl, hpushes, fun fuel => ?_, fun hacts => ?_⟩
  · rcases Nat.eq_zero_or_pos fuel with rfl | hfuel
    · rfl
    · simp [runCalls, hfirst fuel hfuel, hsecond fuel hfuel, hpop fuel]
  · obtain ⟨bound, hbound⟩ := hacts [.push (some fun _ => 7) 0, .push (some fun _ => 8) 0]
    have hreplies := hbound (bound + 1) (Nat.le_succ bound)
    rw [hpushes (bound + 1) (Nat.succ_pos bound)] at hreplies
    simp [fifoRun, fifoCall, q] at hreplies

end LgxRuntime.Threading.MpmcQueue
