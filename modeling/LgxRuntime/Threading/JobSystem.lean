import LgxRuntime.Lib.Custody
import LgxRuntime.Lib.TicketRing
import LgxRuntime.Threading.SpscQueue
import LgxRuntime.Threading.WorkDeque

/-!
# The job system

A job is a record in a pool that is used in turn.  Its index goes from the submitting thread through the
ring of submissions into the deque of a worker, and from there to the thread that calls it: the worker
itself, a worker that steals it, or a thread in `lgx_job_wait`, which also takes jobs from the ring.

Clients are the threads that submit and wait.  What a job does while it runs, it does as a client of its
own.  A worker that is parked may go on at any time, so that the broadcasts to wake it are left out; so are
times, priorities, statistics and the place of the workers on the cores.  A handle is the index of its job.
`NULL` is 0 for functions and data, and `none` for the entries of the ring.

What was submitted, from the call of `alloc_job` on, and what was called is recorded in the state.
-/

namespace LgxRuntime.Threading.JobSystem

open Function (update update_self update_of_ne)

/-- `job_pool_capacity`. -/
def jobPoolCapacity : ℕ := 65536

/-- `LGX_THREADING_SUBMIT_QUEUE_CAP`. -/
def submitQueueCap : ℕ := 65536

/-- `LGX_THREADING_DEQUE_INITIAL_CAP`. -/
def dequeInitialCap : ℕ := 1024

/-- How often a worker looks for jobs before it parks. -/
def spinCount : ℕ := 1000

/-! ## The state -/

/-- `lgx_job_internal_t`. -/
structure JobInternal where
  func : ℕ
  data : ℕ
  remainingChildren : ℕ
  completionFlag : ℕ
  parent : Option ℕ

/-- `lgx_job_desc_t`. -/
structure JobDesc where
  func : ℕ
  data : ℕ
  parent : Option ℕ

/-- One of `n` workers, or a client. -/
inductive Thread (n : ℕ) (Client : Type)
  | worker (w : Fin n)
  | client (c : Client)
  deriving DecidableEq

/-- A thread that looks for jobs is in `worker_entry`, or in `lgx_job_wait` for a job. -/
inductive Mode
  | worker
  | waiter (handle : ℕ)

/-- A worker looks for jobs once, and then in a loop before it parks. -/
inductive Round
  | first
  | spin (k : ℕ)

/-- Where a thread is, with its local variables. -/
inductive Pc
  | idle
  | returns (result : ThreadingError)
  /-- `lgx_job_submit_batch`, at the head of the loop, with the descriptors that are left. -/
  | submitNext (descs : List JobDesc)
  /-- At `atomic_fetch_add` in `alloc_job`. -/
  | submitAlloc (desc : JobDesc) (descs : List JobDesc)
  /-- At the writes of the fields. -/
  | submitFill (job : ℕ) (desc : JobDesc) (descs : List JobDesc)
  /-- At the store of `remaining_children`. -/
  | submitChildren (job : ℕ) (desc : JobDesc) (descs : List JobDesc)
  /-- At the store of `completion_flag`. -/
  | submitFlag (job : ℕ) (desc : JobDesc) (descs : List JobDesc)
  /-- At the writes for the parent. -/
  | submitParent (job : ℕ) (desc : JobDesc) (descs : List JobDesc)
  /-- At `atomic_fetch_add` on `submit_head`. -/
  | submitHead (job : ℕ) (descs : List JobDesc)
  /-- At the write into the ring. -/
  | submitWrite (job pos : ℕ) (descs : List JobDesc)
  /-- At the head of the loop that looks for jobs. -/
  | enter (mode : Mode)
  /-- At the load of `submit_tail`. -/
  | loadTail (mode : Mode)
  /-- At the load of `submit_head`. -/
  | loadHead (mode : Mode) (tail : ℕ)
  /-- At the weak compare-and-swap on `submit_tail`. -/
  | casTail (mode : Mode) (tail : ℕ)
  /-- Waiting for the entry of the ring. -/
  | take (mode : Mode) (tail : ℕ)
  /-- At the write of `NULL` into the ring. -/
  | clear (mode : Mode) (tail job : ℕ)
  /-- At the call of `lgx_work_deque_push`. -/
  | push (job : ℕ)
  | pushing
  /-- At the call of `lgx_work_deque_pop`. -/
  | pop (round : Round)
  | popping (round : Round)
  /-- At the call of `lgx_work_deque_steal`, in the given turn of the loop. -/
  | steal (mode : Mode) (round : Round) (i : ℕ)
  | stealing (mode : Mode) (round : Round) (i : ℕ)
  /-- At the call of the function of a job. -/
  | call (mode : Mode) (job : ℕ)
  /-- The function has returned; at the store of `completion_flag`. -/
  | finish (mode : Mode) (job : ℕ)
  /-- At `atomic_fetch_sub` on the children of the parent. -/
  | parent (mode : Mode) (job : ℕ)
  /-- At the store of `completion_flag` of the parent. -/
  | parentDone (mode : Mode) (parent : ℕ)
  | park
  | exited

/-- The pool with its threads. -/
structure State (n : ℕ) (Client : Type) where
  jobPool : ℕ → JobInternal
  jobPoolHead : ℕ
  submitQueue : ℕ → Option ℕ
  submitHead : ℕ
  submitTail : ℕ
  shutdownRequested : Bool
  deques : Fin n → WorkDeque.State ℕ (Thread n Client)
  pc : Thread n Client → Pc
  submitted : List (ℕ × ℕ)
  called : List (ℕ × ℕ)

variable {n : ℕ} {Client : Type}

/-- `pool_create`, with the deque that every worker gets: the workers are at the start of
`worker_entry`. -/
def poolCreate (d : WorkDeque.Deque ℕ) : State n Client :=
  { jobPool := fun _ => ⟨0, 0, 0, 0, none⟩
    jobPoolHead := 0
    submitQueue := fun _ => none
    submitHead := 0
    submitTail := 0
    shutdownRequested := false
    deques := fun _ =>
      { deque := d, owner := .idle, thieves := fun _ => .idle, pushed := [], returned := [] }
    pc := fun t => match t with
      | .worker _ => .enter .worker
      | .client _ => .idle
    submitted := []
    called := [] }

/-- A new pool. -/
def Initial (s : State n Client) : Prop :=
  ∃ d, WorkDeque.lgxWorkDequeInit dequeInitialCap = some d ∧ s = poolCreate d

/-! ## Steps -/

/-- A call of a client, the next step of a thread, or the request of a shutdown.  A weak compare-and-swap
may fail for no reason. -/
inductive Action (n : ℕ) (Client : Type)
  | submit (c : Client) (desc : JobDesc)
  | submitBatch (c : Client) (descs : List JobDesc)
  | wait (c : Client) (handle : Option ℕ)
  | next (t : Thread n Client) (weak : Bool)
  | shutdown

/-- The worker to steal from in a turn of the loop, if there is one. -/
def victim : Thread n Client → Round → ℕ → Option (Fin n)
  | .worker w, .first, i => some ⟨(w + i + 1) % n, Nat.mod_lt _ w.pos⟩
  | .worker w, .spin _, i => if h : i < n then if i = w then none else some ⟨i, h⟩ else none
  | .client _, _, i => if h : i < n then some ⟨i, h⟩ else none

/-- Where a thread goes on when it has not found a job to steal. -/
def Mode.exhausted : Mode → Round → Pc
  | .worker, .first => .pop (.spin 0)
  | .worker, .spin k => if k + 1 < spinCount then .pop (.spin (k + 1)) else .park
  | .waiter handle, _ => .enter (.waiter handle)

variable [DecidableEq Client]

namespace State

/-- A thread moves on. -/
def goto (s : State n Client) (t : Thread n Client) (pc : Pc) : State n Client :=
  { s with pc := update s.pc t pc }

/-- A deque changes, and a thread moves on. -/
def setDeque (s : State n Client) (w : Fin n) (d : WorkDeque.State ℕ (Thread n Client))
    (t : Thread n Client) (pc : Pc) : State n Client :=
  { s.goto t pc with deques := update s.deques w d }

/-- A write to a job. -/
def setJob (s : State n Client) (job : ℕ) (f : JobInternal → JobInternal) : State n Client :=
  { s with jobPool := update s.jobPool job (f (s.jobPool job)) }

end State

/-- `lgx_job_submit` and `lgx_job_submit_batch`, from the checks on. -/
def stepSubmit (s : State n Client) (t : Thread n Client) : Pc → Option (State n Client)
  | .submitNext [] => some (s.goto t (.returns .success))
  | .submitNext (desc :: descs) =>
      if desc.func = 0 then some (s.goto t (.returns .invalidParam))
      else some (s.goto t (.submitAlloc desc descs))
  | .submitAlloc desc descs =>
      -- `alloc_job`: the records are a ring, and nothing checks that the next one is free
      let job := s.jobPoolHead % jobPoolCapacity
      some
        { s.goto t (.submitFill job desc descs) with
          jobPoolHead := (s.jobPoolHead + 1) % 2 ^ 32
          submitted := (desc.func, desc.data) :: s.submitted }
  | .submitFill job desc descs =>
      some ((s.setJob job fun j => { j with func := desc.func, data := desc.data }).goto t
        (.submitChildren job desc descs))
  | .submitChildren job desc descs =>
      some ((s.setJob job fun j => { j with remainingChildren := 0 }).goto t (.submitFlag job desc descs))
  | .submitFlag job desc descs =>
      some ((s.setJob job fun j => { j with completionFlag := 0 }).goto t (.submitParent job desc descs))
  | .submitParent job desc descs =>
      match desc.parent with
      | some parent =>
          some (((s.setJob job fun j => { j with parent := some parent }).setJob parent fun j =>
            { j with remainingChildren := (j.remainingChildren + 1) % 2 ^ 32 }).goto t
              (.submitHead job descs))
      | none => some ((s.setJob job fun j => { j with parent := none }).goto t (.submitHead job descs))
  | .submitHead job descs =>
      some { s.goto t (.submitWrite job s.submitHead descs) with submitHead := wrap64 (s.submitHead + 1) }
  | .submitWrite job pos descs =>
      some
        { s.goto t (.submitNext descs) with
          -- the entry is overwritten, whatever is in it
          submitQueue := update s.submitQueue (pos % submitQueueCap) (some job) }
  | _ => none

/-- Taking a job from the ring of submissions.  A worker pushes it on its deque and comes back; a client
calls it. -/
def stepTake (s : State n Client) (t : Thread n Client) (weak : Bool) : Pc → Option (State n Client)
  | .loadTail mode => some (s.goto t (.loadHead mode s.submitTail))
  | .loadHead mode tail =>
      -- an empty ring sends a worker to its deque and a client to the deques of the workers
      if tail ≥ s.submitHead then
        match mode with
        | .worker => some (s.goto t (.pop .first))
        | .waiter _ => some (s.goto t (.steal mode .first 0))
      else some (s.goto t (.casTail mode tail))
  | .casTail mode tail =>
      if s.submitTail = tail ∧ weak = false then
        some { s.goto t (.take mode tail) with submitTail := wrap64 (tail + 1) }
      else
        match mode with
        | .worker => some (s.goto t (.loadTail mode))
        | .waiter _ => some (s.goto t (.steal mode .first 0))
  | .take mode tail =>
      match s.submitQueue (tail % submitQueueCap) with
      -- the position was taken, but its entry is not written yet
      | none => some s
      | some job => some (s.goto t (.clear mode tail job))
  | .clear mode tail job =>
      let pc := match mode with
        | .worker => .push job
        | .waiter _ => .call mode job
      some { s.goto t pc with submitQueue := update s.submitQueue (tail % submitQueueCap) none }
  | _ => none

/-- The operations of a worker on its own deque.  The last step of `lgx_work_deque_pop` includes its
return. -/
def stepOwn (s : State n Client) : Thread n Client → Pc → Option (State n Client)
  | .worker w, .push job =>
      (WorkDeque.step (s.deques w) (.push job)).map fun d => s.setDeque w d (.worker w) .pushing
  | .worker w, .pushing =>
      (WorkDeque.step (s.deques w) .owner).map fun d =>
        s.setDeque w d (.worker w) (match d.owner with
          -- the worker goes on to drain the ring
          | .idle => .loadTail .worker
          | _ => .pushing)
  | .worker w, .pop round =>
      (WorkDeque.step (s.deques w) .pop).map fun d => s.setDeque w d (.worker w) (.popping round)
  | .worker w, .popping round =>
      (WorkDeque.step (s.deques w) .owner).map fun d =>
        match d.owner with
        | .popped (some job) => s.setDeque w { d with owner := .idle } (.worker w) (.call .worker job)
        | .popped none => s.setDeque w { d with owner := .idle } (.worker w) (.steal .worker round 0)
        | _ => s.setDeque w d (.worker w) (.popping round)
  | _, _ => none

/-- Stealing from one worker after the other.  The last step of `lgx_work_deque_steal` includes its
return. -/
def stepSteal (s : State n Client) (t : Thread n Client) : Pc → Option (State n Client)
  | .steal mode round i =>
      if i < n then
        match victim t round i with
        | some v =>
            (WorkDeque.step (s.deques v) (.steal t)).map fun d => s.setDeque v d t (.stealing mode round i)
        | none => some (s.goto t (.steal mode round (i + 1)))
      else some (s.goto t (mode.exhausted round))
  | .stealing mode round i =>
      match victim t round i with
      | some v =>
          (WorkDeque.step (s.deques v) (.thief t)).map fun d =>
            let d' := { d with thieves := update d.thieves t .idle }
            match d.thieves t with
            | .stolen (some job) => s.setDeque v d' t (.call mode job)
            | .stolen none => s.setDeque v d' t (.steal mode round (i + 1))
            | _ => s.setDeque v d t (.stealing mode round i)
      | none => none
  | _ => none

/-- Calling a job, and telling its parent. -/
def stepCall (s : State n Client) (t : Thread n Client) : Pc → Option (State n Client)
  | .call mode job =>
      some
        { s.goto t (.finish mode job) with
          -- what is called is what the record says now
          called := ((s.jobPool job).func, (s.jobPool job).data) :: s.called }
  | .finish mode job =>
      some ((s.setJob job fun j => { j with completionFlag := 1 }).goto t (.parent mode job))
  | .parent mode job =>
      match (s.jobPool job).parent with
      | none => some (s.goto t (.enter mode))
      | some parent =>
          -- `atomic_fetch_sub` returns the value before the subtraction
          let remaining := (s.jobPool parent).remainingChildren
          some ((s.setJob parent fun j =>
              { j with remainingChildren := (remaining + (2 ^ 32 - 1)) % 2 ^ 32 }).goto t
            (if remaining = 1 then .parentDone mode parent else .enter mode))
  | .parentDone mode parent =>
      some ((s.setJob parent fun j => { j with completionFlag := 1 }).goto t (.enter mode))
  | _ => none

/-- The head of a loop, and returning from a call. -/
def stepLoop (s : State n Client) (t : Thread n Client) : Pc → Option (State n Client)
  | .enter .worker => some (s.goto t (if s.shutdownRequested then .exited else .loadTail .worker))
  | .enter (.waiter handle) =>
      some (s.goto t (if (s.jobPool handle).completionFlag = 0 then .loadTail (.waiter handle)
        else .returns .success))
  -- waiting on the condition variable ends by itself after a while
  | .park => some (s.goto t (.enter .worker))
  | .returns _ => some (s.goto t .idle)
  | _ => none

/-- The next step of a thread: exactly one of the functions above knows its place. -/
def stepThread (s : State n Client) (t : Thread n Client) (weak : Bool) : Option (State n Client) :=
  stepLoop s t (s.pc t) <|> stepSubmit s t (s.pc t) <|> stepTake s t weak (s.pc t) <|>
    stepOwn s t (s.pc t) <|> stepSteal s t (s.pc t) <|> stepCall s t (s.pc t)

/-- A client calls a function. -/
def enterCall (s : State n Client) (c : Client) (pc : Pc) : Option (State n Client) :=
  match s.pc (.client c) with
  | .idle => some (s.goto (.client c) pc)
  | _ => none

/-- One step. -/
def step (s : State n Client) : Action n Client → Option (State n Client)
  | .submit c desc => enterCall s c (.submitNext [desc])
  | .submitBatch c [] => enterCall s c (.returns .invalidParam)
  | .submitBatch c (desc :: descs) => enterCall s c (.submitNext (desc :: descs))
  | .wait c none => enterCall s c (.returns .invalidParam)
  | .wait c (some handle) => enterCall s c (.enter (.waiter handle))
  | .next t weak => stepThread s t weak
  | .shutdown => some { s with shutdownRequested := true }

/-- The states of the runs of any number of workers and clients. -/
def Reachable : State n Client → Prop :=
  Interleaving.Reachable Initial step fun _ _ => True

/-! ## Calling every job once -/

/-- A thread that submits a job, takes one from the ring, or executes one. -/
def Pc.busy : Pc → Bool
  | .submitNext _ | .submitAlloc _ _ | .submitFill _ _ _ | .submitChildren _ _ _ | .submitFlag _ _ _
  | .submitParent _ _ _ | .submitHead _ _ | .submitWrite _ _ _ => true
  | .take _ _ | .clear _ _ _ | .push _ => true
  | .call _ _ | .finish _ _ | .parent _ _ | .parentDone _ _ => true
  | _ => false

/-- All submissions have returned, the ring and the deques are empty, and no thread has a job. -/
structure Quiet (s : State n Client) : Prop where
  threads : ∀ t, ¬ (s.pc t).busy
  queue : s.submitTail = s.submitHead
  deques : ∀ w, (s.deques w).Empty
  running : s.shutdownRequested = false

/-- The functions that were called, with their data, are those that were submitted. -/
def CalledOnce (s : State n Client) : Prop :=
  Quiet s → s.called.Perm s.submitted

/-! ## Where the jobs are -/

/-- The job that a thread has. -/
def Pc.hand : Pc → Option ℕ
  | .submitFill job _ _ | .submitChildren job _ _ | .submitFlag job _ _ | .submitParent job _ _
  | .submitHead job _ | .submitWrite job _ _ => some job
  | .push job | .call _ job => some job
  | _ => none

/-- The position of the ring that a thread is about to fill. -/
def Pc.writes : Pc → Option ℕ
  | .submitWrite _ pos _ => some pos
  | _ => none

/-- The position of the ring that a thread has taken and not emptied yet. -/
def Pc.reads : Pc → Option ℕ
  | .take _ tail | .clear _ tail _ => some tail
  | _ => none

/-- Where a job can be between `alloc_job` and its call. -/
inductive Place (n : ℕ) (Client : Type)
  | thread (t : Thread n Client)
  | slot (i : ℕ)
  | deque (w : Fin n)

/-- The job with this index is at a place. -/
def State.Holds (s : State n Client) (job : ℕ) : Place n Client → Prop
  | .thread t => (s.pc t).hand = some job
  | .slot i => s.submitQueue i = some job
  | .deque w => (s.deques w).returned.count job < (s.deques w).pushed.count job

/-- None of the three rings is overrun, and no race for the last job of a deque is lost. -/
def Fits (s : State n Client) : Action n Client → Prop
  | .next t _ =>
      match s.pc t with
      | .submitAlloc _ _ => ∀ place, ¬ s.Holds (s.jobPoolHead % jobPoolCapacity) place
      | .submitHead _ _ =>
          s.submitHead + 1 < 2 ^ 64 ∧
            TicketRing.Vacant submitQueueCap s.submitQueue (fun u => (s.pc u).writes)
              (fun u => (s.pc u).reads) s.submitHead
      | .push job =>
          ∀ w, t = .worker w →
            (s.deques w).deque.bottom - (s.deques w).deque.top < (s.deques w).deque.capacity ∧
              WorkDeque.Fits (s.deques w) (.push job)
      | .popping _ => ∀ w, t = .worker w → WorkDeque.Fits (s.deques w) .owner
      | _ => True
  | _ => True

/-- The states of the runs in which every step fits. -/
def FitReachable : State n Client → Prop :=
  Interleaving.Reachable Initial step Fits

/-- A worker that loses the race for the last job of its deque finds the job that it has popped before in
the deque once more, and calls it again. -/
theorem called_twice_after_lost_race : ∃ s : State 1 Bool, Reachable s ∧ Quiet s ∧
    s.submitted = [(2, 20), (1, 10)] ∧ s.called = [(2, 20), (1, 10), (2, 20)] ∧ ¬ CalledOnce s := by
  let d : WorkDeque.Deque ℕ :=
    { buffer := fun _ => none, top := 0, bottom := 0, capacity := 1024, mask := 1023 }
  let worker (k : ℕ) : List (Action 1 Bool) := List.replicate k (.next (.worker 0) false)
  let client (c : Bool) (k : ℕ) : List (Action 1 Bool) := List.replicate k (.next (.client c) false)
  let actions : List (Action 1 Bool) :=
    -- two jobs are submitted; the worker takes both and calls the second one
    .submitBatch true [⟨1, 10, none⟩, ⟨2, 20, none⟩] :: client true 18 ++ worker 32 ++
      -- a client that waits for the first job wins the race for it
      .wait false (some 0) :: client false 6 ++ worker 5 ++ client false 6 ++ worker 2 ++
      client false 1 ++ worker 8
  let threads : List (Thread 1 Bool) := [.worker 0, .client true, .client false]
  let quiet (s : State 1 Bool) : Bool :=
    threads.all (fun t => !(s.pc t).busy) &&
      decide (s.submitTail = s.submitHead ∧ s.shutdownRequested = false) &&
      decide ((s.deques 0).deque.bottom + (s.deques 0).owner.reserve ≤ (s.deques 0).deque.top) &&
      ((s.deques 0).owner.hand (s.deques 0).deque).isEmpty && (s.deques 0).owner.result.isNone
  have hresult : (Interleaving.run step actions (poolCreate d)).map
      (fun s => (s.submitted, s.called, quiet s)) =
      some ([(2, 20), (1, 10)], [(2, 20), (1, 10), (2, 20)], true) := by
    decide +kernel
  obtain ⟨s, hrun, hs⟩ := Option.map_eq_some_iff.mp hresult
  obtain ⟨hsubmitted, hcalled, hquiet⟩ : s.submitted = [(2, 20), (1, 10)] ∧
      s.called = [(2, 20), (1, 10), (2, 20)] ∧ quiet s = true := by
    simpa only [Option.some.injEq, Prod.mk.injEq] using hs
  have hreach : Reachable s :=
    Interleaving.Reachable.run (.init ⟨d, rfl, rfl⟩) (fun _ _ => trivial) hrun
  simp only [quiet, threads, Bool.and_eq_true, List.all_eq_true, decide_eq_true_eq, List.isEmpty_iff,
    Option.isNone_iff_eq_none, Bool.not_eq_true'] at hquiet
  obtain ⟨⟨⟨⟨hthreads, hqueue, hrunning⟩, hempty⟩, hhand⟩, hresult⟩ := hquiet
  have hall : ∀ t : Thread 1 Bool, t ∈ [Thread.worker 0, Thread.client true, Thread.client false] := by
    intro t
    match t with
    | .worker w => simp [Subsingleton.elim w 0]
    | .client true => simp
    | .client false => simp
  have hquiet : Quiet s := by
    refine ⟨fun t => ?_, hqueue, fun w => ?_, hrunning⟩
    · simp [hthreads t (hall t)]
    · rw [Subsingleton.elim w 0]
      exact ⟨hempty, hhand, hresult⟩
  refine ⟨s, hreach, hquiet, hsubmitted, hcalled, fun honce => ?_⟩
  have hlength := (honce hquiet).length_eq
  rw [hsubmitted, hcalled] at hlength
  exact absurd hlength (by decide)

end LgxRuntime.Threading.JobSystem
