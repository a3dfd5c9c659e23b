import LgxRuntime.Threading.SpscQueue

/-!
# The multi-producer multi-consumer queue

Every cell of the ring has a sequence number.  A producer that wants position `pos` waits for the
sequence `pos`, wins the position with a compare-and-swap on `enqueue_pos`, copies its element and sets
the sequence to `pos + 1`; a consumer waits for `pos + 1`, wins the position on `dequeue_pos`, copies the
element out and sets the sequence to `pos + capacity`, for the producer of the next lap.

A step of the model is one atomic operation, or one byte of a copy.  The state records the element of
the push that won each position, and the positions and elements of the pops that returned.
-/

namespace LgxRuntime.Threading.MpmcQueue

open Function (update update_self update_of_ne)
open Ring (Element Copied copyByte slot slot_ne slot_add)
open Interleaving (apply_update_self apply_update_iff apply_unique_update forall_update)

/-! ## The queue -/

/-- `struct lgx_mpmc_queue_s`, for elements of `n` bytes: the sequences and the data of the cells, and
the two positions. -/
structure Queue (n : ℕ) where
  sequence : ℕ → ℕ
  data : ℕ → Element n
  capacity : ℕ
  mask : ℕ
  enqueuePos : ℕ
  dequeuePos : ℕ

/-- `lgx_mpmc_queue_create`, where `memory` are the two answers of the allocator. -/
def lgxMpmcQueueCreate (capacity n : ℕ) (memory : Bool × Bool) : Except ThreadingError (Queue n) :=
  if capacity = 0 ∨ n = 0 then .error .invalidParam
  else if capacity &&& (capacity - 1) ≠ 0 then .error .invalidParam
  else if memory.1 ∧ memory.2 then
    .ok
      { sequence := fun i => if i < capacity then i else 0
        data := fun _ _ => 0
        capacity := capacity
        mask := capacity - 1
        enqueuePos := 0
        dequeuePos := 0 }
  else .error .outOfMemory

/-- `lgx_mpmc_queue_size`, of the two positions that it loads. -/
def lgxMpmcQueueSize (eq dq : ℕ) : ℕ :=
  if eq ≥ dq then eq - dq else 0

/-- The cast `(intptr_t)n`. -/
def toIntptr (n : ℕ) : ℤ :=
  (BitVec.ofNat 64 n).toInt

/-! ## The threads -/

/-- Where a thread is in `lgx_mpmc_queue_push` or `lgx_mpmc_queue_pop`. -/
inductive Pc (n : ℕ)
  | idle
  | pushLoad (element : Element n)
  | pushSeq (element : Element n) (pos : ℕ)
  | pushCas (element : Element n) (pos : ℕ)
  | pushCopy (element : Element n) (pos k : ℕ)
  | popLoad (out : Element n)
  | popSeq (out : Element n) (pos : ℕ)
  | popCas (out : Element n) (pos : ℕ)
  | popCopy (out : Element n) (pos k : ℕ)
  | returns (result : ThreadingError)

/-- The queue with its threads.  `won` has the element of the push that won each enqueue position,
`returned` the dequeue positions and the elements of the pops that are done. -/
structure State (n : ℕ) (Thread : Type) where
  queue : Queue n
  pc : Thread → Pc n
  won : List (Element n)
  returned : List (ℕ × Element n)

/-- All threads are outside of the queue. -/
def init {n : ℕ} {Thread : Type} (q : Queue n) : State n Thread :=
  { queue := q, pc := fun _ => .idle, won := [], returned := [] }

/-- A call, or the next atomic step of a thread; a weak compare-and-swap may fail for no reason. -/
inductive Action (n : ℕ) (Thread : Type)
  | push (t : Thread) (element : Element n)
  | pop (t : Thread) (out : Element n)
  | next (t : Thread) (spurious : Bool)

variable {n : ℕ} {Thread : Type} [DecidableEq Thread]

namespace State

/-- A thread moves on. -/
def goto (s : State n Thread) (t : Thread) (pc : Pc n) : State n Thread :=
  { s with pc := update s.pc t pc }

/-- A thread wins an enqueue position. -/
def winPush (s : State n Thread) (t : Thread) (element : Element n) (pos : ℕ) : State n Thread :=
  { s with
    queue := { s.queue with enqueuePos := wrap64 (pos + 1) }
    pc := update s.pc t (.pushCopy element pos 0)
    won := s.won ++ [element] }

/-- A thread copies a byte into a cell. -/
def copyIn (s : State n Thread) (t : Thread) (element : Element n) (pos k : ℕ) : State n Thread :=
  let i := pos &&& s.queue.mask
  { s with
    queue := { s.queue with data := update s.queue.data i (copyByte k element (s.queue.data i)) }
    pc := update s.pc t (.pushCopy element pos (k + 1)) }

/-- A thread makes its element available. -/
def publish (s : State n Thread) (t : Thread) (pos : ℕ) : State n Thread :=
  { s with
    queue :=
      { s.queue with
        sequence := update s.queue.sequence (pos &&& s.queue.mask) (wrap64 (pos + 1)) }
    pc := update s.pc t (.returns .success) }

/-- A thread wins a dequeue position. -/
def winPop (s : State n Thread) (t : Thread) (out : Element n) (pos : ℕ) : State n Thread :=
  { s with
    queue := { s.queue with dequeuePos := wrap64 (pos + 1) }
    pc := update s.pc t (.popCopy out pos 0) }

/-- A thread gives a cell to the next lap. -/
def recycle (s : State n Thread) (t : Thread) (out : Element n) (pos : ℕ) : State n Thread :=
  { s with
    queue :=
      { s.queue with
        sequence := update s.queue.sequence (pos &&& s.queue.mask) (wrap64 (pos + s.queue.capacity)) }
    pc := update s.pc t (.returns .success)
    returned := s.returned ++ [(pos, out)] }

end State

/-- The next step of a thread. -/
def next (s : State n Thread) (t : Thread) (spurious : Bool) : Option (State n Thread) :=
  match s.pc t with
  | .idle => none
  | .pushLoad element => some (s.goto t (.pushSeq element s.queue.enqueuePos))
  | .pushSeq element pos =>
      -- the sequence of a cell that waits for this position is the position
      let diff := toIntptr (s.queue.sequence (pos &&& s.queue.mask)) - toIntptr pos
      if diff = 0 then some (s.goto t (.pushCas element pos))
      else if diff < 0 then some (s.goto t (.returns .queueFull))
      else some (s.goto t (.pushLoad element))
  | .pushCas element pos =>
      if spurious = false ∧ s.queue.enqueuePos = pos then some (s.winPush t element pos)
      else some (s.goto t (.pushSeq element s.queue.enqueuePos))
  | .pushCopy element pos k =>
      if k < n then some (s.copyIn t element pos k) else some (s.publish t pos)
  | .popLoad out => some (s.goto t (.popSeq out s.queue.dequeuePos))
  | .popSeq out pos =>
      -- the sequence of a cell that holds the element is one more
      let diff := toIntptr (s.queue.sequence (pos &&& s.queue.mask)) - toIntptr (wrap64 (pos + 1))
      if diff = 0 then some (s.goto t (.popCas out pos))
      else if diff < 0 then some (s.goto t (.returns .queueEmpty))
      else some (s.goto t (.popLoad out))
  | .popCas out pos =>
      if spurious = false ∧ s.queue.dequeuePos = pos then some (s.winPop t out pos)
      else some (s.goto t (.popSeq out s.queue.dequeuePos))
  | .popCopy out pos k =>
      if k < n then
        some (s.goto t (.popCopy (copyByte k (s.queue.data (pos &&& s.queue.mask)) out) pos (k + 1)))
      else some (s.recycle t out pos)
  | .returns _ => some (s.goto t .idle)

/-- One step. -/
def step (s : State n Thread) : Action n Thread → Option (State n Thread)
  | .push t element =>
      match s.pc t with
      | .idle => some (s.goto t (.pushLoad element))
      | _ => none
  | .pop t out =>
      match s.pc t with
      | .idle => some (s.goto t (.popLoad out))
      | _ => none
  | .next t spurious => next s t spurious

/-! ## The invariant -/

/-- The position that a thread is writing. -/
def Pc.writes : Pc n → Option ℕ
  | .pushCopy _ pos _ => some pos
  | _ => none

/-- The position that a thread is reading. -/
def Pc.reads : Pc n → Option ℕ
  | .popCopy _ pos _ => some pos
  | _ => none

/-- The cell of a position. -/
def Queue.cell (q : Queue n) (pos : ℕ) : ℕ :=
  slot q.capacity pos

/-- Positions of one lap have different cells. -/
theorem Queue.cell_ne_of_pow {q : Queue n} (hpow : ∃ m < 64, q.capacity = 2 ^ m) {i j : ℕ} (hij : i < j)
    (hj : j < i + q.capacity) : q.cell i ≠ q.cell j := by
  obtain ⟨m, -, hm⟩ := hpow
  unfold Queue.cell
  rw [hm] at hj ⊢
  exact slot_ne hij hj

theorem Queue.cell_add_of_pow {q : Queue n} (hpow : ∃ m < 64, q.capacity = 2 ^ m) (i : ℕ) :
    q.cell (i + q.capacity) = q.cell i := by
  obtain ⟨m, -, hm⟩ := hpow
  unfold Queue.cell
  rw [hm, slot_add]

/-- The capacities that `lgx_mpmc_queue_create` accepts. -/
theorem exists_pow_of_and_sub_one {capacity : ℕ} (hpos : 0 < capacity) (hlt : capacity < 2 ^ 64)
    (hand : capacity &&& (capacity - 1) = 0) : ∃ m < 64, capacity = 2 ^ m := by
  obtain ⟨m, hm⟩ := (Nat.and_sub_one_eq_zero_iff_isPowerOfTwo (by omega)).mp hand
  rw [hm] at hlt
  exact ⟨m, (Nat.pow_lt_pow_iff_right (by decide)).mp hlt, hm⟩

/-- What a thread knows at its place.  A sequence that it has found stays as long as nobody has won the
position; a cell that it writes or reads is its own. -/
def PcOk (q : Queue n) (won : List (Element n)) : Pc n → Prop
  | .pushSeq _ pos => pos ≤ q.enqueuePos
  | .pushCas _ pos =>
      pos ≤ q.enqueuePos ∧ (pos = q.enqueuePos → q.sequence (q.cell pos) = pos)
  | .pushCopy element pos k =>
      q.dequeuePos ≤ pos ∧ won[pos]? = some element ∧ q.sequence (q.cell pos) = pos ∧
        Copied k element (q.data (q.cell pos))
  | .popSeq _ pos => pos ≤ q.dequeuePos
  | .popCas _ pos =>
      pos ≤ q.dequeuePos ∧ (pos = q.dequeuePos → q.sequence (q.cell pos) = pos + 1)
  | .popCopy out pos k =>
      pos < q.dequeuePos ∧ q.enqueuePos ≤ pos + q.capacity ∧ q.sequence (q.cell pos) = pos + 1 ∧
        ∃ element, won[pos]? = some element ∧ q.data (q.cell pos) = element ∧ Copied k element out
  | _ => True

/-- The positions from `dequeue_pos` on, as many as there are cells: the ones below `enqueue_pos` hold
their elements, or are being written; the others wait for the next lap, or are being read. -/
structure QueueRep (q : Queue n) (pc : Thread → Pc n) (won : List (Element n))
    (returned : List (ℕ × Element n)) : Prop where
  pow : ∃ m < 64, q.capacity = 2 ^ m
  two_le : 2 ≤ q.capacity
  mask_eq : q.mask = q.capacity - 1
  enqueue_eq : q.enqueuePos = won.length
  le : q.dequeuePos ≤ q.enqueuePos
  room : q.enqueuePos ≤ q.dequeuePos + q.capacity
  queued : ∀ p element, q.dequeuePos ≤ p → won[p]? = some element →
    (q.sequence (q.cell p) = p + 1 ∧ q.data (q.cell p) = element) ∨ ∃ t, (pc t).writes = some p
  free : ∀ p, q.enqueuePos ≤ p → p < q.dequeuePos + q.capacity →
    q.sequence (q.cell p) = p ∨ ∃ p' t, p = p' + q.capacity ∧ (pc t).reads = some p'
  pcOk : ∀ t, PcOk q won (pc t)
  writer_unique : ∀ t u p, (pc t).writes = some p → (pc u).writes = some p → t = u
  reader_unique : ∀ t u p, (pc t).reads = some p → (pc u).reads = some p → t = u
  returned_eq : ∀ p element, (p, element) ∈ returned → p < q.dequeuePos ∧ won[p]? = some element
  returned_nodup : (returned.map Prod.fst).Nodup
  accounted : ∀ p < q.dequeuePos, p ∈ returned.map Prod.fst ↔ ∀ t, (pc t).reads ≠ some p

section

omit [DecidableEq Thread]

variable {pc : Thread → Pc n} {t : Thread} {p : ℕ}

theorem Pc.of_writes (hwrites : (pc t).writes = some p) : ∃ element k, pc t = .pushCopy element p k := by
  cases hpc : pc t with
  | pushCopy element pos k =>
      rw [hpc] at hwrites
      obtain rfl : pos = p := Option.some.inj hwrites
      exact ⟨element, k, rfl⟩
  | idle | pushLoad | pushSeq | pushCas | popLoad | popSeq | popCas | popCopy | returns =>
      rw [hpc] at hwrites
      cases hwrites

theorem Pc.of_reads (hreads : (pc t).reads = some p) : ∃ out k, pc t = .popCopy out p k := by
  cases hpc : pc t with
  | popCopy out pos k =>
      rw [hpc] at hreads
      obtain rfl : pos = p := Option.some.inj hreads
      exact ⟨out, k, rfl⟩
  | idle | pushLoad | pushSeq | pushCas | pushCopy | popLoad | popSeq | popCas | returns =>
      rw [hpc] at hreads
      cases hreads

end

/-- One of the last positions that were won, as many as there are cells. -/
def Queue.InLap (q : Queue n) (pos : ℕ) : Prop :=
  pos < q.enqueuePos ∧ q.enqueuePos ≤ pos + q.capacity

theorem getElem?_append_of_eq_some {won won' : List (Element n)} {element : Element n} {p : ℕ}
    (h : won[p]? = some element) : (won ++ won')[p]? = some element := by
  rw [List.getElem?_append_left (List.getElem?_eq_some_iff.mp h).1, h]

namespace QueueRep

variable {q : Queue n} {pc : Thread → Pc n} {won : List (Element n)} {returned : List (ℕ × Element n)}
variable {t u : Thread} {element out : Element n} {pos k i j : ℕ}

section

omit [DecidableEq Thread]

theorem and_mask (h : QueueRep q pc won returned) (i : ℕ) : i &&& q.mask = q.cell i := by
  rw [h.mask_eq, Queue.cell, slot]

theorem cell_ne (h : QueueRep q pc won returned) (hij : i < j) (hj : j < i + q.capacity) :
    q.cell i ≠ q.cell j :=
  Queue.cell_ne_of_pow h.pow hij hj

theorem cell_add (h : QueueRep q pc won returned) (i : ℕ) : q.cell (i + q.capacity) = q.cell i :=
  Queue.cell_add_of_pow h.pow i

/-- What a thread that writes knows. -/
theorem writer_ok (h : QueueRep q pc won returned) (hwrites : (pc t).writes = some pos) :
    q.dequeuePos ≤ pos ∧ pos < q.enqueuePos ∧ q.sequence (q.cell pos) = pos := by
  obtain ⟨element, k, hpc⟩ := Pc.of_writes hwrites
  have hok := h.pcOk t
  rw [hpc] at hok
  refine ⟨hok.1, ?_, hok.2.2.1⟩
  rw [h.enqueue_eq]
  exact (List.getElem?_eq_some_iff.mp hok.2.1).1

/-- What a thread that reads knows. -/
theorem reader_ok (h : QueueRep q pc won returned) (hreads : (pc t).reads = some pos) :
    pos < q.dequeuePos ∧ q.enqueuePos ≤ pos + q.capacity ∧ q.sequence (q.cell pos) = pos + 1 := by
  obtain ⟨out, k, hpc⟩ := Pc.of_reads hreads
  have hok := h.pcOk t
  rw [hpc] at hok
  exact ⟨hok.1, hok.2.1, hok.2.2.1⟩

/-- The cell of a position that can be won for a push has been read a lap ago. -/
theorem room_of_sequence (h : QueueRep q pc won returned)
    (hseq : q.sequence (q.cell q.enqueuePos) = q.enqueuePos) :
    q.enqueuePos < q.dequeuePos + q.capacity := by
  refine lt_of_le_of_ne h.room fun hfull => ?_
  have htwo := h.two_le
  -- otherwise it is still the cell of `dequeue_pos`
  have hcell : q.cell q.enqueuePos = q.cell q.dequeuePos := by
    rw [hfull, h.cell_add]
  have hlt : q.dequeuePos < won.length := by
    rw [← h.enqueue_eq]
    omega
  rw [hcell] at hseq
  rcases h.queued _ _ le_rfl (List.getElem?_eq_getElem hlt) with ⟨hfilled, -⟩ | ⟨u, hu⟩
  · omega
  · have hwriter := (h.writer_ok hu).2.2
    omega

/-- The cell of a position that can be won for a pop holds an element. -/
theorem filled_of_sequence (h : QueueRep q pc won returned)
    (hseq : q.sequence (q.cell q.dequeuePos) = q.dequeuePos + 1) :
    ∃ element, won[q.dequeuePos]? = some element ∧ q.data (q.cell q.dequeuePos) = element := by
  have htwo := h.two_le
  have hlt : q.dequeuePos < q.enqueuePos := by
    refine lt_of_le_of_ne h.le fun hempty => ?_
    rcases h.free q.dequeuePos hempty.ge (by omega) with hfree | ⟨p', u, hp', hu⟩
    · omega
    · have hreader := (h.reader_ok hu).2.2
      have hcell : q.cell q.dequeuePos = q.cell p' := by rw [hp', h.cell_add]
      rw [hcell, hreader] at hseq
      omega
  rw [h.enqueue_eq] at hlt
  refine ⟨_, List.getElem?_eq_getElem hlt, ?_⟩
  rcases h.queued _ _ le_rfl (List.getElem?_eq_getElem hlt) with ⟨-, hdata⟩ | ⟨u, hu⟩
  · exact hdata
  · have hwriter := (h.writer_ok hu).2.2
    omega

end

/-! ## Steps -/

/-- A thread that keeps to the position it reads or writes. -/
theorem goto (h : QueueRep q pc won returned) {place place' : Pc n} (hpc : pc t = place)
    (hwrites : place'.writes = place.writes) (hreads : place'.reads = place.reads)
    (hok : PcOk q won place') : QueueRep q (update pc t place') won returned := by
  rw [← hpc] at hwrites hreads
  have hw := apply_update_self hwrites
  have hr := apply_update_self hreads
  refine ⟨h.pow, h.two_le, h.mask_eq, h.enqueue_eq, h.le, h.room, ?_, ?_, ?_, ?_, ?_,
    h.returned_eq, h.returned_nodup, ?_⟩
  · simpa only [hw] using h.queued
  · simpa only [hr] using h.free
  · exact forall_update (P := fun _ => PcOk q won) (Q := fun _ => PcOk q won) h.pcOk
      (fun _ _ hu => hu) hok
  · simpa only [hw] using h.writer_unique
  · simpa only [hr] using h.reader_unique
  · simpa only [hr] using h.accounted

omit [DecidableEq Thread] in
/-- What the other threads know is kept when a push wins the next position. -/
theorem pcOk_winPush (h : QueueRep q pc won returned)
    (hseq : q.sequence (q.cell q.enqueuePos) = q.enqueuePos) (hok : PcOk q won (pc u)) :
    PcOk { q with enqueuePos := q.enqueuePos + 1 } (won ++ [element]) (pc u) := by
  cases hpc : pc u with
  | pushSeq e pos =>
      rw [hpc] at hok
      exact Nat.le_succ_of_le hok
  | pushCas e pos =>
      rw [hpc] at hok
      refine ⟨Nat.le_succ_of_le hok.1, fun hpos => absurd hok.1 ?_⟩
      simp only at hpos
      omega
  | pushCopy e pos k =>
      rw [hpc] at hok
      exact ⟨hok.1, getElem?_append_of_eq_some hok.2.1, hok.2.2⟩
  | popSeq e pos | popCas e pos =>
      rw [hpc] at hok
      exact hok
  | popCopy out pos k =>
      rw [hpc] at hok
      obtain ⟨hpos, hlap, hsequence, e, he, hdata, hcopied⟩ := hok
      -- the position is not one lap behind: its cell has another sequence
      have htwo := h.two_le
      have hne : q.enqueuePos ≠ pos + q.capacity := by
        intro heq
        rw [heq, h.cell_add, hsequence] at hseq
        omega
      refine ⟨hpos, ?_, hsequence, e, getElem?_append_of_eq_some he, hdata, hcopied⟩
      simp only
      omega
  | idle | pushLoad | popLoad | returns => trivial

/-- A push wins the next position. -/
theorem winPush (h : QueueRep q pc won returned) (hpc : pc t = .pushCas element q.enqueuePos) :
    QueueRep { q with enqueuePos := q.enqueuePos + 1 }
      (update pc t (.pushCopy element q.enqueuePos 0)) (won ++ [element]) returned := by
  have hle := h.le
  have hlength := h.enqueue_eq
  have hseq : q.sequence (q.cell q.enqueuePos) = q.enqueuePos := by
    have hok := h.pcOk t
    rw [hpc] at hok
    exact hok.2 rfl
  have hroom := h.room_of_sequence hseq
  have hr : ∀ u, (update pc t (.pushCopy element q.enqueuePos 0) u).reads = (pc u).reads :=
    apply_update_self (by rw [hpc]; rfl)
  have hidle : ∀ p, (pc t).writes ≠ some p := by
    rw [hpc]
    exact fun p => Option.some_ne_none p ∘ Eq.symm
  have hself : PcOk { q with enqueuePos := q.enqueuePos + 1 } (won ++ [element])
      (.pushCopy element q.enqueuePos 0) := by
    refine ⟨hle, ?_, hseq, Copied.zero _ _⟩
    rw [hlength, List.getElem?_concat_length]
  refine ⟨h.pow, h.two_le, h.mask_eq, ?_, by simp only; omega, hroom, fun p e hp he => ?_,
    fun p hp hlt => ?_, ?_, apply_unique_update h.writer_unique fun p hp v _ hv => ?_, ?_,
    fun p e he => ?_, h.returned_nodup, ?_⟩
  · simp only [List.length_append, List.length_singleton, hlength]
  · rcases Ring.getElem?_concat_cases he with he | ⟨hlast, -⟩
    · have hlt := (List.getElem?_eq_some_iff.mp he).1
      rcases h.queued p e hp he with hfilled | ⟨u, hu⟩
      · exact Or.inl hfilled
      · refine Or.inr ⟨u, (apply_update_iff (hidle p) ?_ u).mpr hu⟩
        exact fun heq => absurd (Option.some.inj heq) (by omega)
    · refine Or.inr ⟨t, ?_⟩
      rw [update_self]
      exact congrArg some (by omega)
  · simp only [hr]
    exact h.free p (Nat.le_of_succ_le hp) hlt
  · exact forall_update (P := fun _ => PcOk q won) (Q := fun _ => PcOk _ _) h.pcOk
      (fun _ _ hok => h.pcOk_winPush hseq hok) hself
  · obtain rfl := Option.some.inj hp
    exact lt_irrefl _ (h.writer_ok hv).2.1
  · simpa only [hr] using h.reader_unique
  · obtain ⟨hlt, hwon⟩ := h.returned_eq p e he
    exact ⟨hlt, getElem?_append_of_eq_some hwon⟩
  · simpa only [hr] using h.accounted

omit [DecidableEq Thread] in
/-- What the other threads know is kept when a pop wins the next position. -/
theorem pcOk_winPop (hseq : q.sequence (q.cell q.dequeuePos) = q.dequeuePos + 1)
    (hok : PcOk q won (pc u)) : PcOk { q with dequeuePos := q.dequeuePos + 1 } won (pc u) := by
  cases hpc : pc u with
  | pushSeq e pos | pushCas e pos =>
      rw [hpc] at hok
      exact hok
  | pushCopy e pos k =>
      rw [hpc] at hok
      obtain ⟨hpos, he, hsequence, hcopied⟩ := hok
      -- the cell of the position that is won has been published
      have hne : pos ≠ q.dequeuePos := by
        rintro rfl
        omega
      exact ⟨by simp only; omega, he, hsequence, hcopied⟩
  | popSeq e pos =>
      rw [hpc] at hok
      exact Nat.le_succ_of_le hok
  | popCas e pos =>
      rw [hpc] at hok
      refine ⟨Nat.le_succ_of_le hok.1, fun hpos => absurd hok.1 ?_⟩
      simp only at hpos
      omega
  | popCopy out' pos k =>
      rw [hpc] at hok
      exact ⟨Nat.lt_succ_of_lt hok.1, hok.2⟩
  | idle | pushLoad | popLoad | returns => trivial

/-- A pop wins the next position. -/
theorem winPop (h : QueueRep q pc won returned) (hpc : pc t = .popCas out q.dequeuePos) :
    QueueRep { q with dequeuePos := q.dequeuePos + 1 }
      (update pc t (.popCopy out q.dequeuePos 0)) won returned := by
  have hroom := h.room
  have hseq : q.sequence (q.cell q.dequeuePos) = q.dequeuePos + 1 := by
    have hok := h.pcOk t
    rw [hpc] at hok
    exact hok.2 rfl
  obtain ⟨element, hwon, hdata⟩ := h.filled_of_sequence hseq
  have hlt : q.dequeuePos < q.enqueuePos := by
    rw [h.enqueue_eq]
    exact (List.getElem?_eq_some_iff.mp hwon).1
  have hw : ∀ u, (update pc t (.popCopy out q.dequeuePos 0) u).writes = (pc u).writes :=
    apply_update_self (by rw [hpc]; rfl)
  -- the thread gets `dequeue_pos`, so that nothing changes for another position
  have hother : ∀ p, p ≠ q.dequeuePos → ∀ u,
      (update pc t (.popCopy out q.dequeuePos 0) u).reads = some p ↔ (pc u).reads = some p := by
    intro p hp
    refine apply_update_iff ?_ fun heq => hp (Option.some.inj heq).symm
    rw [hpc]
    exact Option.some_ne_none p ∘ Eq.symm
  have hself : PcOk { q with dequeuePos := q.dequeuePos + 1 } won (.popCopy out q.dequeuePos 0) :=
    ⟨Nat.lt_succ_self _, hroom, hseq, element, hwon, hdata, Copied.zero _ _⟩
  refine ⟨h.pow, h.two_le, h.mask_eq, h.enqueue_eq, hlt, by simp only; omega, fun p e hp he => ?_,
    fun p hp hcap => ?_, ?_, ?_, apply_unique_update h.reader_unique fun p hp v _ hv => ?_,
    fun p e he => ?_, h.returned_nodup, fun p hp => ?_⟩
  · simp only [hw]
    exact h.queued p e (Nat.le_of_succ_le hp) he
  · by_cases hlap : p = q.dequeuePos + q.capacity
    · exact Or.inr ⟨q.dequeuePos, t, hlap, by rw [update_self]; rfl⟩
    · rcases h.free p hp (by simp only at hcap; omega) with hfree | ⟨p', u, hp', hu⟩
      · exact Or.inl hfree
      · have hne := (h.reader_ok hu).1.ne
        exact Or.inr ⟨p', u, hp', (hother p' hne u).mpr hu⟩
  · exact forall_update (P := fun _ => PcOk q won) (Q := fun _ => PcOk _ won) h.pcOk
      (fun _ _ hok => pcOk_winPop hseq hok) hself
  · simpa only [hw] using h.writer_unique
  · obtain rfl := Option.some.inj hp
    exact lt_irrefl _ (h.reader_ok hv).1
  · exact ⟨Nat.lt_succ_of_lt (h.returned_eq p e he).1, (h.returned_eq p e he).2⟩
  · by_cases hlast : p = q.dequeuePos
    · subst hlast
      refine iff_of_false (fun hmem => ?_) fun hnone => ?_
      · obtain ⟨⟨p', e⟩, he, hp'⟩ := List.mem_map.mp hmem
        exact absurd (h.returned_eq p' e he).1 (hp'.symm ▸ lt_irrefl _)
      · refine hnone t ?_
        rw [update_self]
        rfl
    · rw [h.accounted p (by simp only at hp; omega)]
      exact forall_congr' fun u => not_congr (hother p hlast u).symm

section

omit [DecidableEq Thread]

/-- Two of the last positions that were won, as many as there are cells, have different cells. -/
theorem cell_ne_of_inLap (h : QueueRep q pc won returned) (hi : q.InLap i) (hj : q.InLap j)
    (hne : i ≠ j) : q.cell i ≠ q.cell j := by
  obtain ⟨hi, hi'⟩ := hi
  obtain ⟨hj, hj'⟩ := hj
  rcases Nat.lt_or_gt_of_ne hne with hless | hgreater
  · exact h.cell_ne hless (by omega)
  · exact (h.cell_ne hgreater (by omega)).symm

theorem inLap_of_le (h : QueueRep q pc won returned) (hle : q.dequeuePos ≤ i) (hlt : i < q.enqueuePos) :
    q.InLap i := by
  have hroom := h.room
  exact ⟨hlt, by omega⟩

theorem inLap_of_writes (h : QueueRep q pc won returned) (hwrites : (pc t).writes = some pos) :
    q.InLap pos := by
  obtain ⟨hle, hlt, -⟩ := h.writer_ok hwrites
  exact h.inLap_of_le hle hlt

theorem inLap_of_reads (h : QueueRep q pc won returned) (hreads : (pc t).reads = some pos) :
    q.InLap pos := by
  obtain ⟨hlt, hlap, -⟩ := h.reader_ok hreads
  exact ⟨hlt.trans_le h.le, hlap⟩

theorem inLap_of_won (h : QueueRep q pc won returned) (hle : q.dequeuePos ≤ i)
    (hwon : won[i]? = some element) : q.InLap i := by
  refine h.inLap_of_le hle ?_
  rw [h.enqueue_eq]
  exact (List.getElem?_eq_some_iff.mp hwon).1

/-- What the other threads know is kept when a thread copies into the cell that it writes. -/
theorem pcOk_copyIn (h : QueueRep q pc won returned) (hwrites : (pc t).writes = some pos)
    (hother : (pc u).writes ≠ some pos) (value : Element n) :
    PcOk { q with data := update q.data (q.cell pos) value } won (pc u) := by
  have hlap := h.inLap_of_writes hwrites
  have hok := h.pcOk u
  cases hpc : pc u with
  | pushCopy e pos' k' =>
      have hwrites' : (pc u).writes = some pos' := by
        rw [hpc]
        rfl
      have hne : pos' ≠ pos := by
        rintro rfl
        exact hother hwrites'
      have hcell := h.cell_ne_of_inLap (h.inLap_of_writes hwrites') hlap hne
      rw [hpc] at hok
      have hkeep : update q.data (q.cell pos) value (q.cell pos') = q.data (q.cell pos') :=
        update_of_ne hcell ..
      exact ⟨hok.1, hok.2.1, hok.2.2.1, (congrArg (Copied k' e) hkeep).mpr hok.2.2.2⟩
  | popCopy out' pos' k' =>
      have hreads' : (pc u).reads = some pos' := by
        rw [hpc]
        rfl
      have hne : pos' ≠ pos := ((h.reader_ok hreads').1.trans_le (h.writer_ok hwrites).1).ne
      have hcell := h.cell_ne_of_inLap (h.inLap_of_reads hreads') hlap hne
      rw [hpc] at hok
      obtain ⟨hlt, hlap', hsequence, e, he, hdata, hcopied⟩ := hok
      exact ⟨hlt, hlap', hsequence, e, he, (update_of_ne hcell ..).trans hdata, hcopied⟩
  | pushSeq | pushCas | popSeq | popCas =>
      rw [hpc] at hok
      exact hok
  | idle | pushLoad | popLoad | returns => trivial

/-- What the other threads know is kept when a thread hands over the cell that it has written or read. -/
theorem pcOk_setSequence (h : QueueRep q pc won returned) (hlap : q.InLap pos)
    (howned : q.sequence (q.cell pos) = pos ∨
      q.sequence (q.cell pos) = pos + 1 ∧ pos < q.dequeuePos)
    (hwrites : (pc u).writes ≠ some pos) (hreads : (pc u).reads ≠ some pos) (value : ℕ) :
    PcOk { q with sequence := update q.sequence (q.cell pos) value } won (pc u) := by
  have htwo := h.two_le
  have hkeep : ∀ i, q.InLap i → i ≠ pos →
      update q.sequence (q.cell pos) value (q.cell i) = q.sequence (q.cell i) :=
    fun i hi hne => update_of_ne (h.cell_ne_of_inLap hi hlap hne) ..
  have hok := h.pcOk u
  cases hpc : pc u with
  | pushCas e pos' =>
      rw [hpc] at hok
      refine ⟨hok.1, fun hpos => ?_⟩
      have hseq := hok.2 hpos
      simp only at hpos
      -- the cell of `enqueue_pos` waits for a push already
      have hcell : q.cell pos' ≠ q.cell pos := by
        intro heq
        rw [heq] at hseq
        have hlt := hlap.1
        exact h.cell_ne (by omega : pos < pos') (by omega) heq.symm
      exact (update_of_ne hcell ..).trans hseq
  | pushCopy e pos' k' =>
      have hwrites' : (pc u).writes = some pos' := by
        rw [hpc]
        rfl
      have hne : pos' ≠ pos := by
        rintro rfl
        exact hwrites hwrites'
      rw [hpc] at hok
      exact ⟨hok.1, hok.2.1, (hkeep pos' (h.inLap_of_writes hwrites') hne).trans hok.2.2.1, hok.2.2.2⟩
  | popCas e pos' =>
      rw [hpc] at hok
      refine ⟨hok.1, fun hpos => ?_⟩
      have hseq := hok.2 hpos
      simp only at hpos
      -- the cell of `dequeue_pos` holds an element that nobody reads
      have hcell : q.cell pos' ≠ q.cell pos := by
        intro heq
        rw [heq] at hseq
        exact h.cell_ne (by omega : pos' < pos) (by omega) heq
      exact (update_of_ne hcell ..).trans hseq
  | popCopy out' pos' k' =>
      have hreads' : (pc u).reads = some pos' := by
        rw [hpc]
        rfl
      have hne : pos' ≠ pos := by
        rintro rfl
        exact hreads hreads'
      rw [hpc] at hok
      obtain ⟨hlt, hlap', hseq, hrest⟩ := hok
      exact ⟨hlt, hlap', (hkeep pos' (h.inLap_of_reads hreads') hne).trans hseq, hrest⟩
  | pushSeq | popSeq =>
      rw [hpc] at hok
      exact hok
  | idle | pushLoad | popLoad | returns => trivial

end

/-- A byte of the copy into a cell. -/
theorem copyIn (h : QueueRep q pc won returned) (hpc : pc t = .pushCopy element pos k) :
    QueueRep { q with data := update q.data (q.cell pos) (copyByte k element (q.data (q.cell pos))) }
      (update pc t (.pushCopy element pos (k + 1))) won returned := by
  have hwrites : (pc t).writes = some pos := by
    rw [hpc]
    rfl
  have hw : ∀ u, (update pc t (.pushCopy element pos (k + 1)) u).writes = (pc u).writes :=
    apply_update_self hwrites.symm
  have hr : ∀ u, (update pc t (.pushCopy element pos (k + 1)) u).reads = (pc u).reads :=
    apply_update_self (by rw [hpc]; rfl)
  have hself : PcOk { q with data := update q.data (q.cell pos) (copyByte k element (q.data (q.cell pos))) }
      won (.pushCopy element pos (k + 1)) := by
    have hok := h.pcOk t
    rw [hpc] at hok
    obtain ⟨hlow, he, hsequence, hcopied⟩ := hok
    refine ⟨hlow, he, hsequence, ?_⟩
    simp only [Queue.cell, update_self]
    exact hcopied.copyByte
  refine ⟨h.pow, h.two_le, h.mask_eq, h.enqueue_eq, h.le, h.room, fun p e hp he => ?_, ?_, ?_, ?_, ?_,
    h.returned_eq, h.returned_nodup, ?_⟩
  · simp only [hw]
    by_cases hpos : p = pos
    · exact Or.inr ⟨t, by rw [hpos, hwrites]⟩
    · rcases h.queued p e hp he with ⟨hfilled, hdata⟩ | hwriter
      · have hcell := h.cell_ne_of_inLap (h.inLap_of_won hp he) (h.inLap_of_writes hwrites) hpos
        exact Or.inl ⟨hfilled, (update_of_ne hcell ..).trans hdata⟩
      · exact Or.inr hwriter
  · simp only [hr]
    exact h.free
  · exact forall_update (P := fun _ _ => True) (Q := fun _ => PcOk _ won) (fun _ => trivial)
      (fun u hut _ => h.pcOk_copyIn hwrites
        (fun hu => hut (h.writer_unique u t pos hu hwrites)) _) hself
  · simpa only [hw] using h.writer_unique
  · simpa only [hr] using h.reader_unique
  · simpa only [hr] using h.accounted

/-- The element is copied and the cell is handed to the consumers. -/
theorem publish (h : QueueRep q pc won returned) (hpc : pc t = .pushCopy element pos k) (hk : n ≤ k)
    (result : ThreadingError) :
    QueueRep { q with sequence := update q.sequence (q.cell pos) (pos + 1) }
      (update pc t (.returns result)) won returned := by
  have hwrites : (pc t).writes = some pos := by
    rw [hpc]
    rfl
  have hr : ∀ u, (update pc t (.returns result) u).reads = (pc u).reads :=
    apply_update_self (by rw [hpc]; rfl)
  obtain ⟨hlow, hhigh, hsequence⟩ := h.writer_ok hwrites
  have hlap := h.inLap_of_writes hwrites
  refine ⟨h.pow, h.two_le, h.mask_eq, h.enqueue_eq, h.le, h.room, fun p e hp he => ?_,
    fun p hp hcap => ?_, ?_, apply_unique_update h.writer_unique (by simp [Pc.writes]), ?_,
    h.returned_eq, h.returned_nodup, ?_⟩
  · by_cases hpos : p = pos
    · have hok := h.pcOk t
      rw [hpc] at hok
      obtain ⟨-, hwon, -, hcopied⟩ := hok
      rw [hpos, hwon] at he
      obtain rfl := Option.some.inj he
      rw [hpos]
      exact Or.inl ⟨update_self .., hcopied.eq hk⟩
    · rcases h.queued p e hp he with ⟨hfilled, hdata⟩ | ⟨u, hu⟩
      · have hcell := h.cell_ne_of_inLap (h.inLap_of_won hp he) hlap hpos
        exact Or.inl ⟨(update_of_ne hcell ..).trans hfilled, hdata⟩
      · refine Or.inr ⟨u, (apply_update_iff ?_ (by simp [Pc.writes]) u).mpr hu⟩
        rw [hwrites]
        exact fun heq => hpos (Option.some.inj heq).symm
  · have hcell : q.cell p ≠ q.cell pos := by
      simp only at hp hcap
      exact (h.cell_ne (by omega) (by omega)).symm
    simp only [hr]
    rcases h.free p hp hcap with hfree | hreader
    · exact Or.inl ((update_of_ne hcell ..).trans hfree)
    · exact Or.inr hreader
  · refine forall_update (P := fun _ _ => True) (Q := fun _ => PcOk _ won) (fun _ => trivial)
      (fun u hut _ => h.pcOk_setSequence hlap (Or.inl hsequence)
        (fun hu => hut (h.writer_unique u t pos hu hwrites)) (fun hu => ?_) _) trivial
    have hlt := (h.reader_ok hu).1
    omega
  · simpa only [hr] using h.reader_unique
  · simpa only [hr] using h.accounted

/-- The element is copied out and the cell is handed to the producers of the next lap. -/
theorem recycle (h : QueueRep q pc won returned) (hpc : pc t = .popCopy out pos k) (hk : n ≤ k)
    (result : ThreadingError) :
    QueueRep { q with sequence := update q.sequence (q.cell pos) (pos + q.capacity) }
      (update pc t (.returns result)) won (returned ++ [(pos, out)]) := by
  have hreads : (pc t).reads = some pos := by
    rw [hpc]
    rfl
  have hw : ∀ u, (update pc t (.returns result) u).writes = (pc u).writes :=
    apply_update_self (by rw [hpc]; rfl)
  have hother : ∀ p, p ≠ pos → ∀ u,
      (update pc t (.returns result) u).reads = some p ↔ (pc u).reads = some p := by
    intro p hp
    refine apply_update_iff ?_ (by simp [Pc.reads])
    rw [hreads]
    exact fun heq => hp (Option.some.inj heq).symm
  obtain ⟨hlow, -, hsequence⟩ := h.reader_ok hreads
  have hlap := h.inLap_of_reads hreads
  have hwon : won[pos]? = some out := by
    have hok := h.pcOk t
    rw [hpc] at hok
    obtain ⟨-, -, -, element, hwon, hdata, hcopied⟩ := hok
    rw [hwon, hcopied.eq hk]
  have hfresh : pos ∉ returned.map Prod.fst := fun hmem => (h.accounted pos hlow).mp hmem t hreads
  refine ⟨h.pow, h.two_le, h.mask_eq, h.enqueue_eq, h.le, h.room, fun p e hp he => ?_,
    fun p hp hcap => ?_, ?_, ?_, apply_unique_update h.reader_unique (by simp [Pc.reads]),
    fun p e he => ?_, ?_, fun p hp => ?_⟩
  · simp only [hw]
    rcases h.queued p e hp he with ⟨hfilled, hdata⟩ | hwriter
    · have hcell := h.cell_ne_of_inLap (h.inLap_of_won hp he) hlap (by simp only at hp; omega)
      exact Or.inl ⟨(update_of_ne hcell ..).trans hfilled, hdata⟩
    · exact Or.inr hwriter
  · simp only at hp hcap
    by_cases hpos : p = pos + q.capacity
    · refine Or.inl ?_
      have hcell : q.cell p = q.cell pos := by rw [hpos, h.cell_add]
      exact (congrArg _ hcell).trans ((update_self ..).trans hpos.symm)
    · have hle := h.le
      have hcap' := hlap.2
      have hcell : q.cell p ≠ q.cell pos := by
        rw [← h.cell_add pos]
        rcases Nat.lt_or_gt_of_ne hpos with hless | hgreater
        · exact h.cell_ne hless (by omega)
        · exact (h.cell_ne hgreater (by omega)).symm
      rcases h.free p hp hcap with hfree | ⟨p', u, hp', hu⟩
      · exact Or.inl ((update_of_ne hcell ..).trans hfree)
      · exact Or.inr ⟨p', u, hp', (hother p' (by omega) u).mpr hu⟩
  · refine forall_update (P := fun _ _ => True) (Q := fun _ => PcOk _ won) (fun _ => trivial)
      (fun u hut _ => h.pcOk_setSequence hlap (Or.inr ⟨hsequence, hlow⟩) (fun hu => ?_)
        (fun hu => hut (h.reader_unique u t pos hu hreads)) _) trivial
    have hle := (h.writer_ok hu).1
    omega
  · simpa only [hw] using h.writer_unique
  · rcases List.mem_append.mp he with hold | hnew
    · exact h.returned_eq p e hold
    · obtain ⟨rfl, rfl⟩ := Prod.mk.inj (List.mem_singleton.mp hnew)
      exact ⟨hlow, hwon⟩
  · rw [List.map_append, List.map_singleton]
    refine List.nodup_append.mpr ⟨h.returned_nodup, List.pairwise_singleton _ _, fun a ha b hb heq => ?_⟩
    rw [heq, List.mem_singleton.mp hb] at ha
    exact hfresh ha
  · rw [List.map_append, List.map_singleton, List.mem_append, List.mem_singleton]
    by_cases hpos : p = pos
    · refine iff_of_true (Or.inr hpos) fun u hu => ?_
      rcases Interleaving.apply_update_cases hu with ⟨-, hnone⟩ | ⟨hut, hu⟩
      · cases hnone
      · rw [hpos] at hu
        exact hut (h.reader_unique u t pos hu hreads)
    · rw [or_iff_left hpos, h.accounted p hp]
      exact forall_congr' fun u => not_congr (hother p hpos u).symm

end QueueRep

/-- The invariant of a state. -/
structure State.Rep (s : State n Thread) : Prop where
  queue : QueueRep s.queue s.pc s.won s.returned
  sequence_lt : ∀ i, s.queue.sequence i < 2 ^ 64

theorem toIntptr_inj {a b : ℕ} (ha : a < 2 ^ 64) (hb : b < 2 ^ 64) (h : toIntptr a - toIntptr b = 0) :
    a = b := by
  have heq : BitVec.ofNat 64 a = BitVec.ofNat 64 b := BitVec.toInt_inj.mp (sub_eq_zero.mp h)
  have hnat := congrArg BitVec.toNat heq
  rwa [BitVec.toNat_ofNat, BitVec.toNat_ofNat, Nat.mod_eq_of_lt ha, Nat.mod_eq_of_lt hb] at hnat

theorem wrap64_lt (a : ℕ) : wrap64 a < 2 ^ 64 :=
  Nat.mod_lt _ (by decide)

theorem update_lt {f : ℕ → ℕ} {b : ℕ} (hf : ∀ i, f i < b) {j v : ℕ} (hv : v < b) (i : ℕ) :
    update f j v i < b := by
  by_cases hi : i = j
  · rwa [hi, update_self]
  · rw [update_of_ne hi]
    exact hf i

section

variable {s s' : State n Thread} {t : Thread}

/-- A thread moves on without a change to the queue. -/
theorem State.Rep.goto (h : s.Rep) {place place' : Pc n} (hpc : s.pc t = place)
    (hwrites : place'.writes = place.writes) (hreads : place'.reads = place.reads)
    (hok : PcOk s.queue s.won place') : (s.goto t place').Rep :=
  ⟨h.queue.goto hpc hwrites hreads hok, h.sequence_lt⟩

/-- A producer copies a byte, or publishes its element. -/
theorem State.Rep.next_pushCopy (h : s.Rep) {element : Element n} {pos k : ℕ}
    (hpc : s.pc t = .pushCopy element pos k) {spurious : Bool} (hbound : s'.won.length < 2 ^ 63)
    (hnext : next s t spurious = some s') : s'.Rep := by
  have hq := h.queue
  have hlt := h.sequence_lt
  have henqueue := hq.enqueue_eq
  simp only [MpmcQueue.next, hpc] at hnext
  split_ifs at hnext with hk
  · cases hnext
    refine ⟨?_, hlt⟩
    simp only [State.copyIn, hq.and_mask]
    exact hq.copyIn hpc
  · cases hnext
    simp only [State.publish] at hbound
    have hwrites : (s.pc t).writes = some pos := by
      rw [hpc]
      rfl
    have hpos := (hq.writer_ok hwrites).2.1
    refine ⟨?_, update_lt hlt (wrap64_lt _)⟩
    simp only [State.publish, hq.and_mask, wrap64_of_lt (by omega : pos + 1 < 2 ^ 64)]
    exact hq.publish hpc (not_lt.mp hk) _

/-- A consumer copies a byte, or makes the cell free for the next lap. -/
theorem State.Rep.next_popCopy (h : s.Rep) {out : Element n} {pos k : ℕ}
    (hpc : s.pc t = .popCopy out pos k) {spurious : Bool} (hbound : s'.won.length < 2 ^ 63)
    (hnext : next s t spurious = some s') : s'.Rep := by
  have hq := h.queue
  have hlt := h.sequence_lt
  have hok := hq.pcOk t
  have henqueue := hq.enqueue_eq
  have hle := hq.le
  rw [hpc] at hok
  simp only [MpmcQueue.next, hpc] at hnext
  split_ifs at hnext with hk
  · cases hnext
    obtain ⟨hpos, hlap, hseq, element, hwon, hdata, hcopied⟩ := hok
    refine h.goto hpc rfl rfl
      ⟨hpos, hlap, hseq, element, hwon, hdata, ?_⟩
    rw [hq.and_mask, hdata]
    exact hcopied.copyByte
  · cases hnext
    simp only [State.recycle] at hbound
    have hpos : pos < s.queue.dequeuePos := hok.1
    have hcapacity : s.queue.capacity ≤ 2 ^ 63 := by
      obtain ⟨m, hm, heq⟩ := hq.pow
      rw [heq]
      exact Nat.pow_le_pow_right (by decide) (by omega)
    refine ⟨?_, update_lt hlt (wrap64_lt _)⟩
    simp only [State.recycle, hq.and_mask,
      wrap64_of_lt (by omega : pos + s.queue.capacity < 2 ^ 64)]
    exact hq.recycle hpc (not_lt.mp hk) _

/-- The next step of a thread keeps the invariant, as long as the positions do not wrap. -/
theorem State.Rep.next (h : s.Rep) {spurious : Bool} (hbound : s'.won.length < 2 ^ 63)
    (hnext : next s t spurious = some s') : s'.Rep := by
  have hq := h.queue
  have hlt := h.sequence_lt
  have hok := hq.pcOk t
  have henqueue := hq.enqueue_eq
  have hle := hq.le
  cases hpc : s.pc t with
  | idle =>
      simp only [MpmcQueue.next, hpc] at hnext
      cases hnext
  | pushLoad element =>
      simp only [MpmcQueue.next, hpc] at hnext
      cases hnext
      exact h.goto hpc rfl rfl le_rfl
  | pushSeq element pos =>
      rw [hpc] at hok
      simp only [MpmcQueue.next, hpc, hq.and_mask] at hnext
      split_ifs at hnext with hdiff
      · cases hnext
        simp only [State.goto] at hbound
        have hpos : pos ≤ s.queue.enqueuePos := hok
        have hseq := toIntptr_inj (hlt _) (by omega) hdiff
        exact h.goto hpc rfl rfl ⟨hpos, fun _ => hseq⟩
      · cases hnext
        exact h.goto hpc rfl rfl trivial
      · cases hnext
        exact h.goto hpc rfl rfl trivial
  | pushCas element pos =>
      simp only [MpmcQueue.next, hpc] at hnext
      split_ifs at hnext with hwin
      · obtain ⟨-, rfl⟩ := hwin
        cases hnext
        simp only [State.winPush, List.length_append, List.length_singleton] at hbound
        refine ⟨?_, hlt⟩
        simp only [State.winPush, wrap64_of_lt (by omega : s.queue.enqueuePos + 1 < 2 ^ 64)]
        exact hq.winPush hpc
      · cases hnext
        exact h.goto hpc rfl rfl le_rfl
  | pushCopy element pos k => exact h.next_pushCopy hpc hbound hnext
  | popLoad out =>
      simp only [MpmcQueue.next, hpc] at hnext
      cases hnext
      exact h.goto hpc rfl rfl le_rfl
  | popSeq out pos =>
      rw [hpc] at hok
      simp only [MpmcQueue.next, hpc, hq.and_mask] at hnext
      split_ifs at hnext with hdiff
      · cases hnext
        simp only [State.goto] at hbound
        have hpos : pos ≤ s.queue.dequeuePos := hok
        rw [wrap64_of_lt (by omega)] at hdiff
        have hseq := toIntptr_inj (hlt _) (by omega) hdiff
        exact h.goto hpc rfl rfl ⟨hpos, fun _ => hseq⟩
      · cases hnext
        exact h.goto hpc rfl rfl trivial
      · cases hnext
        exact h.goto hpc rfl rfl trivial
  | popCas out pos =>
      simp only [MpmcQueue.next, hpc] at hnext
      split_ifs at hnext with hwin
      · obtain ⟨-, rfl⟩ := hwin
        cases hnext
        simp only [State.winPop] at hbound
        refine ⟨?_, hlt⟩
        simp only [State.winPop, wrap64_of_lt (by omega : s.queue.dequeuePos + 1 < 2 ^ 64)]
        exact hq.winPop hpc
      · cases hnext
        exact h.goto hpc rfl rfl le_rfl
  | popCopy out pos k => exact h.next_popCopy hpc hbound hnext
  | returns result =>
      simp only [MpmcQueue.next, hpc] at hnext
      cases hnext
      exact h.goto hpc rfl rfl trivial

/-- One step keeps the invariant. -/
theorem State.Rep.step (h : s.Rep) {a : Action n Thread} (hbound : s'.won.length < 2 ^ 63)
    (hstep : step s a = some s') : s'.Rep := by
  cases a with
  | push t element =>
      simp only [MpmcQueue.step] at hstep
      split at hstep
      · rename_i hpc
        cases hstep
        exact h.goto hpc rfl rfl trivial
      · cases hstep
  | pop t out =>
      simp only [MpmcQueue.step] at hstep
      split at hstep
      · rename_i hpc
        cases hstep
        exact h.goto hpc rfl rfl trivial
      · cases hstep
  | next t spurious => exact h.next hbound hstep

/-- A position that has been won stays so. -/
theorem won_length_le {a : Action n Thread} (hstep : step s a = some s') :
    s.won.length ≤ s'.won.length := by
  cases a with
  | push t element | pop t out =>
      simp only [step] at hstep
      split at hstep <;> cases hstep
      exact le_rfl
  | next t spurious =>
      simp only [step, next] at hstep
      split at hstep
      · cases hstep
      · cases hstep
        exact le_rfl
      · split_ifs at hstep <;> cases hstep <;> exact le_rfl
      · split_ifs at hstep <;> cases hstep
        · simp [State.winPush]
        · exact le_rfl
      · split_ifs at hstep <;> cases hstep <;> exact le_rfl
      · cases hstep
        exact le_rfl
      · split_ifs at hstep <;> cases hstep <;> exact le_rfl
      · split_ifs at hstep <;> cases hstep <;> exact le_rfl
      · split_ifs at hstep <;> cases hstep <;> exact le_rfl
      · cases hstep
        exact le_rfl

end

/-! ## Runs -/

/-- The states of the runs of any number of threads on a queue that `lgx_mpmc_queue_create` has made,
for at least two elements. -/
def Reachable : State n Thread → Prop :=
  Interleaving.Reachable
    (fun s => ∃ capacity q, 2 ≤ capacity ∧ capacity < 2 ^ 64 ∧
      lgxMpmcQueueCreate capacity n (true, true) = .ok q ∧ s = init q) step fun _ _ => True

omit [DecidableEq Thread] in
theorem State.Rep.init {capacity : ℕ} {q : Queue n} (htwo : 2 ≤ capacity) (hcapacity : capacity < 2 ^ 64)
    (hcreate : lgxMpmcQueueCreate capacity n (true, true) = .ok q) :
    (MpmcQueue.init q : State n Thread).Rep := by
  unfold lgxMpmcQueueCreate at hcreate
  split at hcreate
  · cases hcreate
  split at hcreate
  · cases hcreate
  · rename_i hpow
    cases hcreate
    obtain ⟨m, hlt, hm⟩ := exists_pow_of_and_sub_one (by omega) hcapacity (not_not.mp hpow)
    refine ⟨⟨⟨m, hlt, hm⟩, htwo, rfl, rfl, le_rfl, Nat.zero_le _, by simp [MpmcQueue.init],
      fun p _ hp => Or.inl ?_, fun t => trivial, by simp [MpmcQueue.init, Pc.writes],
      by simp [MpmcQueue.init, Pc.reads], by simp [MpmcQueue.init], List.nodup_nil,
      by simp [MpmcQueue.init]⟩, fun i => ?_⟩
    · have hcell : slot capacity p = p := by
        rw [hm, Ring.slot_two_pow]
        simp only [MpmcQueue.init, Nat.zero_add] at hp
        exact Nat.mod_eq_of_lt (hm ▸ hp)
      simp only [MpmcQueue.init, Nat.zero_add] at hp
      simp only [MpmcQueue.init, Queue.cell, hcell, if_pos hp]
    · simp only [MpmcQueue.init]
      split <;> omega

theorem Reachable.rep {s : State n Thread} (h : Reachable s) (hbound : s.won.length < 2 ^ 63) :
    s.Rep := by
  refine Interleaving.Reachable.invariant (I := fun s => s.won.length < 2 ^ 63 → s.Rep) h ?_ ?_ hbound
  · intro s hinit _
    obtain ⟨capacity, q, htwo, hcapacity, hcreate, rfl⟩ := hinit
    exact State.Rep.init htwo hcapacity hcreate
  · intro s s' a ih _ hstep hbound
    exact (ih ((won_length_le hstep).trans_lt hbound)).step hbound hstep

/-- The push that won position `k` has finished. -/
def State.Finished (s : State n Thread) (k : ℕ) : Prop :=
  k < s.won.length ∧ ∀ t, (s.pc t).writes ≠ some k

/-- What the queue promises in a state. -/
structure Delivers (s : State n Thread) : Prop where
  positions : s.queue.enqueuePos = s.won.length ∧ s.queue.dequeuePos ≤ s.queue.enqueuePos ∧
    s.queue.enqueuePos - s.queue.dequeuePos ≤ s.queue.capacity
  taken : ∀ t k, (s.pc t).reads = some k → k < s.queue.dequeuePos ∧ s.Finished k
  returned : ∀ k element, (k, element) ∈ s.returned →
    k < s.queue.dequeuePos ∧ s.Finished k ∧ s.won[k]? = some element
  once : (s.returned.map Prod.fst).Nodup ∧
    ∀ t k, (s.pc t).reads = some k → k ∉ s.returned.map Prod.fst ∧ ∀ u, (s.pc u).reads = some k → u = t
  complete : ∀ k < s.queue.dequeuePos, k ∈ s.returned.map Prod.fst ∨ ∃ t, (s.pc t).reads = some k
  intact : ∀ k element, s.won[k]? = some element → s.Finished k → k ∉ s.returned.map Prod.fst →
    s.queue.data (k &&& s.queue.mask) = element

omit [DecidableEq Thread] in
theorem State.Rep.finished_of_lt {s : State n Thread} (h : s.Rep) {k : ℕ}
    (hk : k < s.queue.dequeuePos) : s.Finished k := by
  have hle := h.queue.le
  refine ⟨by rw [← h.queue.enqueue_eq]; omega, fun t ht => ?_⟩
  have hlow := (h.queue.writer_ok ht).1
  omega

/-- In every interleaving in which fewer than `2 ^ 63` pushes win a position, the pop that wins a
position returns the element of the push that won it, after that push has finished; every position is
popped at most once, and no element is overwritten before. -/
theorem delivers_of_reachable {s : State n Thread} (hreach : Reachable s)
    (hbound : s.won.length < 2 ^ 63) : Delivers s := by
  have h := hreach.rep hbound
  have hq := h.queue
  have hroom := hq.room
  refine ⟨⟨hq.enqueue_eq, hq.le, by omega⟩, fun t k hk => ?_, fun k element hk => ?_,
    ⟨hq.returned_nodup, fun t k hk => ⟨fun hmem => ?_, fun u hu => ?_⟩⟩, fun k hk => ?_,
    fun k element hwon hfinished hkept => ?_⟩
  · have hlt := (hq.reader_ok hk).1
    exact ⟨hlt, h.finished_of_lt hlt⟩
  · obtain ⟨hlt, hwon⟩ := hq.returned_eq k element hk
    exact ⟨hlt, h.finished_of_lt hlt, hwon⟩
  · exact (hq.accounted k (hq.reader_ok hk).1).mp hmem t hk
  · exact hq.reader_unique u t k hu hk
  · by_cases hmem : k ∈ s.returned.map Prod.fst
    · exact Or.inl hmem
    · rw [hq.accounted k hk] at hmem
      push Not at hmem
      exact Or.inr hmem
  · rw [hq.and_mask]
    rcases Nat.lt_or_ge k s.queue.dequeuePos with hlt | hge
    · rw [hq.accounted k hlt] at hkept
      push Not at hkept
      obtain ⟨t, ht⟩ := hkept
      obtain ⟨out, j, hpc⟩ := Pc.of_reads ht
      have hok := hq.pcOk t
      rw [hpc] at hok
      obtain ⟨-, -, -, e, he, hdata, -⟩ := hok
      rw [hwon] at he
      rw [hdata, Option.some.inj he]
    · rcases hq.queued k element hge hwon with ⟨-, hdata⟩ | ⟨t, ht⟩
      · exact hdata
      · exact absurd ht (hfinished.2 t)

/-- `lgx_mpmc_queue_size` loads `dequeue_pos` after `enqueue_pos`, when it may have grown. -/
theorem lgxMpmcQueueSize_le {s : State n Thread} (hreach : Reachable s) (hbound : s.won.length < 2 ^ 63)
    {dq : ℕ} (hdq : s.queue.dequeuePos ≤ dq) :
    lgxMpmcQueueSize s.queue.enqueuePos dq ≤ s.queue.capacity := by
  have hroom := (hreach.rep hbound).queue.room
  unfold lgxMpmcQueueSize
  split <;> omega

/-- Two threads, one of which pushes an element of one byte that the other pops. -/
theorem delivers_after_one_element : ∃ s : State 1 Bool, Reachable s ∧
    s.returned.map (fun x => (x.1, x.2 0)) = [(0, 7)] ∧ Delivers s := by
  let q : Queue 1 :=
    { sequence := fun i => if i < 2 then i else 0, data := fun _ _ => 0, capacity := 2, mask := 1,
      enqueuePos := 0, dequeuePos := 0 }
  let actions : List (Action 1 Bool) :=
    .push true (fun _ => 7) :: .pop false (fun _ => 0) :: List.replicate 5 (.next true false) ++
      List.replicate 5 (.next false false)
  have hresult : (Interleaving.run step actions (init q)).map
      (fun s => (s.returned.map (fun x => (x.1, x.2 0)), s.won.length)) = some ([(0, 7)], 1) := by
    decide +kernel
  obtain ⟨s, hrun, hs⟩ := Option.map_eq_some_iff.mp hresult
  obtain ⟨hreturned, hwon⟩ : s.returned.map (fun x => (x.1, x.2 0)) = [(0, 7)] ∧ s.won.length = 1 := by
    simpa using hs
  have hreach : Reachable s :=
    Interleaving.Reachable.run (.init ⟨2, q, le_rfl, by decide, rfl, rfl⟩) (fun _ _ => trivial) hrun
  exact ⟨s, hreach, hreturned, delivers_of_reachable hreach (by omega)⟩

end LgxRuntime.Threading.MpmcQueue
