import LgxRuntime.Threading.JobTrace

/-!
# Job handles

A handle is a pointer to an entry of an array that belongs to the thread that has submitted the job; the
entry holds the pointer to the record of the job.  There is one array of 256 entries for `lgx_job_submit`
and one of 65536 entries for `lgx_job_submit_batch`, and both are used in turn, as the records are.

`lgx_job_wait` loads the record from the handle in every turn of its loop.  A handle is written after the
record was put into the ring.  A parent is given by its record, from whichever handle it was loaded.  Several
clients may be at home on the same thread: a worker submits for the jobs that it executes.

The job for which a handle was returned is remembered with the handle.
-/

namespace LgxRuntime.Threading.JobHandles

open Function (update update_self update_of_ne)
open JobSystem

/-! ## The state -/

/-- The two arrays of a thread: `handle_storage` and `batch_handles`. -/
inductive Kind
  | single
  | batch
  deriving DecidableEq

/-- The number of entries. -/
def Kind.capacity : Kind → ℕ
  | .single => 256
  | .batch => 65536

/-- `lgx_job_handle_t`: a pointer to an entry. -/
structure Handle (Home : Type) where
  home : Home
  kind : Kind
  slot : ℕ
  deriving DecidableEq

/-- The pool with the handles, and the local variables of the threads: which handles the current call is to
return, the record whose handle it has to write next, and the argument of `lgx_job_wait`. -/
structure Run (n : ℕ) (Client Home : Type) where
  state : State n Client
  jobs : Jobs
  /-- `handle->job`. -/
  storage : Handle Home → Option ℕ
  /-- `handle_idx` and `batch_idx`. -/
  index : Home × Kind → ℕ
  out : Thread n Client → Option Kind
  toStore : Thread n Client → Option ℕ
  waiting : Thread n Client → Option (Handle Home × ℕ)
  /-- `handle->job` was loaded in this turn of the loop. -/
  loaded : Thread n Client → Bool
  /-- The number of the job that a thread has submitted last. -/
  number : Thread n Client → ℕ
  /-- The handles that were returned, with their jobs. -/
  issued : List (Handle Home × ℕ)
  /-- The handles for which `lgx_job_wait` has returned `LGX_THREADING_SUCCESS`, with their jobs. -/
  waited : List (Handle Home × ℕ)

variable {n : ℕ} {Client Home : Type}

/-- `lgx_job_is_complete`. -/
def lgxJobIsComplete (r : Run n Client Home) (handle : Handle Home) : Bool :=
  match r.storage handle with
  | none => true
  | some job => decide ((r.state.jobPool job).completionFlag ≠ 0)

/-- A new pool. -/
def start (s : State n Client) : Run n Client Home :=
  { state := s
    jobs := .init
    storage := fun _ => none
    index := fun _ => 0
    out := fun _ => none
    toStore := fun _ => none
    waiting := fun _ => none
    loaded := fun _ => false
    number := fun _ => 0
    issued := []
    waited := [] }

/-! ## Steps -/

/-- A call of a client, the next step of a thread in the pool, the write of a handle, the load of
`handle->job`, or the request of a shutdown.  A call says whether handles are to be returned. -/
inductive Action (n : ℕ) (Client Home : Type)
  | submit (c : Client) (desc : JobDesc) (handles : Bool)
  | submitBatch (c : Client) (descs : List JobDesc) (handles : Bool)
  | wait (c : Client) (handle : Option (Handle Home × ℕ))
  | next (t : Thread n Client) (weak : Bool)
  | store (t : Thread n Client)
  | load (t : Thread n Client)
  | shutdown

/-- At the head of the loop of `lgx_job_wait`. -/
def looks : Pc → Bool
  | .enter (.waiter _) => true
  | _ => false

variable [DecidableEq Client] [DecidableEq Home] (home : Thread n Client → Home)

/-- The handle is written, and a handle that is to be looked at is loaded, before the thread goes on. -/
def Run.ready (r : Run n Client Home) (t : Thread n Client) : Bool :=
  (r.toStore t).isNone && (r.loaded t || !looks (r.state.pc t))

/-- The next step of a thread in the pool, which leads to a state of the pool. -/
def Run.next (r : Run n Client Home) (t : Thread n Client) (s' : State n Client) : Run n Client Home :=
  { r with
    state := s'
    jobs := r.jobs.after (r.state.pc t)
    toStore := match r.state.pc t with
      | .submitWrite job _ _ => update r.toStore t ((r.out t).map fun _ => job)
      | _ => r.toStore
    loaded := update r.loaded t false
    number := match r.state.pc t with
      | .submitFlag _ _ _ => update r.number t r.jobs.count
      | _ => r.number
    waited := match r.state.pc t, s'.pc t with
      | .enter (.waiter _), .returns .success => (r.waiting t).toList ++ r.waited
      | _, _ => r.waited }

/-- The handle of a job is written and returned. -/
def Run.store (r : Run n Client Home) (t : Thread n Client) (job : ℕ) (kind : Kind) : Run n Client Home :=
  let index := r.index (home t, kind)
  let handle : Handle Home := ⟨home t, kind, index % kind.capacity⟩
  { r with
    storage := update r.storage handle (some job)
    index := update r.index (home t, kind) ((index + 1) % 2 ^ 32)
    toStore := update r.toStore t none
    issued := (handle, r.number t) :: r.issued }

/-- One step. -/
def step (r : Run n Client Home) : Action n Client Home → Option (Run n Client Home)
  | .submit c desc handles =>
      (JobSystem.step r.state (.submit c desc)).map fun s' =>
        { r with state := s', out := update r.out (.client c) (if handles then some .single else none) }
  | .submitBatch c descs handles =>
      (JobSystem.step r.state (.submitBatch c descs)).map fun s' =>
        { r with state := s', out := update r.out (.client c) (if handles then some .batch else none) }
  | .wait c none =>
      (JobSystem.step r.state (.wait c none)).map fun s' => { r with state := s' }
  | .wait c (some (handle, k)) =>
      -- a handle without a job is rejected
      (JobSystem.step r.state (.wait c (r.storage handle))).map fun s' =>
        { r with state := s', waiting := update r.waiting (.client c) (some (handle, k)) }
  | .next t weak =>
      if r.ready t then (JobSystem.step r.state (.next t weak)).map fun s' => r.next t s' else none
  | .store t =>
      match r.toStore t, r.out t with
      | some job, some kind => some (r.store home t job kind)
      | _, _ => none
  | .load t =>
      match r.waiting t with
      | some (handle, _) =>
          if looks (r.state.pc t) && !r.loaded t then
            (r.storage handle).map fun job =>
              { r with
                state := r.state.goto t (.enter (.waiter job))
                loaded := update r.loaded t true }
          else none
      | none => none
  | .shutdown => (JobSystem.step r.state .shutdown).map fun s' => { r with state := s' }

/-- A client waits with a handle that was returned. -/
def Allowed (r : Run n Client Home) : Action n Client Home → Prop
  | .wait _ (some (handle, k)) => (handle, k) ∈ r.issued
  | _ => True

/-- The states of the runs of any number of workers and clients. -/
def Reachable : Run n Client Home → Prop :=
  Interleaving.Reachable (fun r => ∃ s, JobSystem.Initial s ∧ r = start s) (step home) Allowed

/-- A handle designates the job for which it was returned, and it is complete, and `lgx_job_wait` returns,
only if this job was executed. -/
structure Faithful (r : Run n Client Home) : Prop where
  designates : ∀ handle k, (handle, k) ∈ r.issued →
    ∃ job, r.storage handle = some job ∧ r.jobs.owner job = some k
  complete : ∀ handle k, (handle, k) ∈ r.issued → lgxJobIsComplete r handle = true →
    k ∈ r.jobs.executed
  waited : ∀ handle k, (handle, k) ∈ r.waited → k ∈ r.jobs.executed

/-- A client waits with the handle that was returned last. -/
def latestCheck (r : Run n Client Home) : Action n Client Home → Bool
  | .wait _ (some handle) => decide (r.issued.head? = some handle)
  | _ => true

omit [DecidableEq Client] in
theorem allowed_of_latest {r : Run n Client Home} {a : Action n Client Home}
    (hcheck : latestCheck r a = true) : Allowed r a := by
  cases a with
  | wait c handle =>
      cases handle with
      | none => trivial
      | some handle =>
          have hhead : r.issued.head? = some handle := of_decide_eq_true hcheck
          exact List.mem_of_head? hhead
  | _ => trivial

/-- A client waits for every job that it has submitted before it submits the next one, but the first job is
still with a worker.  The entry of the first handle is used again for job 256. -/
theorem not_faithful_of_handle_reused : ∃ r : Run 1 Unit (Thread 1 Unit), Reachable id r ∧
    (⟨.client (), .single, 0⟩, 0) ∈ r.issued ∧ lgxJobIsComplete r ⟨.client (), .single, 0⟩ = true ∧
    0 ∉ r.jobs.executed ∧ ¬ Faithful r := by
  let d : WorkDeque.Deque ℕ :=
    { buffer := fun _ => none, top := 0, bottom := 0, capacity := 1024, mask := 1023 }
  let client (k : ℕ) : List (Action 1 Unit (Thread 1 Unit)) := List.replicate k (.next (.client ()) false)
  let submit : List (Action 1 Unit (Thread 1 Unit)) :=
    .submit () ⟨7, 42, none⟩ true :: client 8 ++ .store (.client ()) :: client 2
  let wait (k : ℕ) : List (Action 1 Unit (Thread 1 Unit)) :=
    .wait () (some (⟨.client (), .single, k % 256⟩, k)) :: .load (.client ()) :: client 9 ++
      .load (.client ()) :: client 2
  let actions : List (Action 1 Unit (Thread 1 Unit)) :=
    submit ++ List.replicate 18 (.next (.worker 0) false) ++
      (List.range 256).flatMap fun k => submit ++ wait (k + 1)
  have hresult : (Interleaving.run (Interleaving.guarded (step id) latestCheck) actions
      (start (poolCreate d))).map
      (fun r =>
        (r.issued.getLast?, lgxJobIsComplete r ⟨.client (), .single, 0⟩, decide (0 ∈ r.jobs.executed))) =
      some (some (⟨.client (), .single, 0⟩, 0), true, false) := by
    decide +kernel
  have hinit : Reachable id (start (poolCreate d) : Run 1 Unit (Thread 1 Unit)) :=
    .init ⟨_, ⟨d, rfl, rfl⟩, rfl⟩
  obtain ⟨r, hreach, hr⟩ := hinit.exists_of_run_guarded (fun _ _ _ => allowed_of_latest) hresult
  obtain ⟨hlast, hcomplete, hexecuted⟩ : r.issued.getLast? = some (⟨.client (), .single, 0⟩, 0) ∧
      lgxJobIsComplete r ⟨.client (), .single, 0⟩ = true ∧ decide (0 ∈ r.jobs.executed) = false := by
    simpa only [Prod.mk.injEq] using hr
  have hissued := List.mem_of_getLast? hlast
  have hpending : 0 ∉ r.jobs.executed := of_decide_eq_false hexecuted
  exact ⟨r, hreach, hissued, hcomplete, hpending, fun h => hpending (h.complete _ 0 hissued hcomplete)⟩

/-! ## The condition -/

/-- The record whose completion flag a thread sets next. -/
def finishes : Pc → Option ℕ
  | .finish _ job => some job
  | _ => none

/-- No handle that was returned, or that is about to be, has this record. -/
structure Run.Spare (r : Run n Client Home) (job : ℕ) : Prop where
  handles : ∀ handle k, (handle, k) ∈ r.issued → r.storage handle ≠ some job
  stores : ∀ u, r.toStore u ≠ some job
  unwritten : ∀ u, (r.state.pc u).unwritten ≠ some job

/-- An entry of an array is used only once.  A record is used again only if no handle has it, nobody else has
taken it, and nobody is about to set its completion flag for the job before.  The completion flag of a parent
is set only after the parent was executed. -/
def Lasting (r : Run n Client Home) : Action n Client Home → Prop
  | .next t _ =>
      match r.state.pc t with
      | .submitAlloc _ _ =>
          r.Spare (r.state.jobPoolHead % jobPoolCapacity) ∧
            ∀ u, (r.state.pc u).unflagged ≠ some (r.state.jobPoolHead % jobPoolCapacity)
      | .submitFlag job _ _ => ∀ u, finishes (r.state.pc u) ≠ some job
      | .parentDone _ parent => ∀ k, r.jobs.owner parent = some k → k ∈ r.jobs.executed
      | _ => True
  | .store t => ∀ kind, r.out t = some kind → r.index (home t, kind) < kind.capacity
  | _ => True

/-- The states of the runs in which every step is lasting. -/
def LastingReachable : Run n Client Home → Prop :=
  Interleaving.Reachable (fun r => ∃ s, JobSystem.Initial s ∧ r = start s) (step home)
    fun r a => Allowed r a ∧ Lasting home r a

/-- No entry of an array and no record is used a second time, and the completion flag of a parent is set only
after the parent was executed. -/
def Few (r : Run n Client Home) : Action n Client Home → Prop
  | .next t _ =>
      match r.state.pc t with
      | .submitAlloc _ _ => r.state.jobPoolHead < jobPoolCapacity
      | .parentDone _ parent => ∀ k, r.jobs.owner parent = some k → k ∈ r.jobs.executed
      | _ => True
  | .store t => ∀ kind, r.out t = some kind → r.index (home t, kind) < kind.capacity
  | _ => True

/-- The states of the runs with few submissions. -/
def FewReachable : Run n Client Home → Prop :=
  Interleaving.Reachable (fun r => ∃ s, JobSystem.Initial s ∧ r = start s) (step home)
    fun r a => Allowed r a ∧ Few home r a

end LgxRuntime.Threading.JobHandles
