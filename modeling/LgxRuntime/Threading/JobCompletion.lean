import LgxRuntime.Threading.JobTrace

/-!
# Completion flags and parents

A job that is submitted with a parent is counted in `remaining_children` of the parent until it has
reported that it is complete.  The completion flag of a job is set by the thread that has executed it, and
by the thread that reports the last of its children.  Neither of them looks at what the other one waits for:
the first does not look at the children, and the second does not look whether the parent was executed.

If both of them only set the flag when there is nothing left to wait for, the flag of a job means that it
and its children are complete, whichever way the records are used again.
-/

namespace LgxRuntime.Threading.JobCompletion

open Function (update)
open JobSystem

variable {n : ℕ} {Client : Type}

/-! ## Runs -/

/-- The pool, with the jobs whose completion flag was set, the parents of the jobs, the jobs that have
reported to their parents, and the records that are between the ring and a call. -/
structure Run (n : ℕ) (Client : Type) where
  state : State n Client
  jobs : Jobs
  completed : List ℕ
  parentOf : ℕ → Option ℕ
  reported : List ℕ
  queued : ℕ → Bool

variable [DecidableEq Client]

/-- The next step of a thread, which leads to a state of the pool. -/
def Run.next (r : Run n Client) (t : Thread n Client) (s' : State n Client) : Run n Client :=
  { state := s'
    jobs := r.jobs.after (r.state.pc t)
    completed := match r.state.pc t with
      | .finish _ job | .parentDone _ job => (r.jobs.owner job).toList ++ r.completed
      | _ => r.completed
    parentOf := match r.state.pc t with
      | .submitParent job desc _ =>
          match r.jobs.owner job with
          | some k => update r.parentOf k (desc.parent.bind r.jobs.owner)
          | none => r.parentOf
      | _ => r.parentOf
    reported := match r.state.pc t with
      | .parent _ job => (r.jobs.owner job).toList ++ r.reported
      | _ => r.reported
    queued := match r.state.pc t with
      | .submitWrite job _ _ => update r.queued job true
      | .call _ job => update r.queued job false
      | _ => r.queued }

/-- One step. -/
def step (r : Run n Client) (a : Action n Client) : Option (Run n Client) :=
  (JobSystem.step r.state a).map fun s' =>
    match a with
    | .next t _ => r.next t s'
    | _ => { r with state := s' }

/-- A new pool. -/
def start (s : State n Client) : Run n Client :=
  { state := s
    jobs := .init
    completed := []
    parentOf := fun _ => none
    reported := []
    queued := fun _ => false }

/-- The states of the runs of any number of workers and clients. -/
def Reachable : Run n Client → Prop :=
  Interleaving.Reachable (fun r => ∃ s, JobSystem.Initial s ∧ r = start s) step fun _ _ => True

/-- A job was executed, and every job that was submitted with it as the parent is complete. -/
def Done (r : Run n Client) (k : ℕ) : Prop :=
  k ∈ r.jobs.executed ∧ ∀ c, r.parentOf c = some k → c ∈ r.completed ∧ c ∈ r.jobs.executed

/-- A completion flag says that the job is done, and `lgx_job_wait` only returns then. -/
structure Joined (r : Run n Client) : Prop where
  flag : ∀ job k, r.jobs.owner job = some k → (r.state.jobPool job).completionFlag ≠ 0 → Done r k
  wait : ∀ c job weak r', r.state.pc (.client c) = .enter (.waiter job) →
    step r (.next (.client c) weak) = some r' → r'.state.pc (.client c) = .returns .success →
      ∀ k, r.jobs.owner job = some k → Done r k

/-- A parent is executed while its child is in the ring: its flag is set, and `lgx_job_wait` returns. -/
theorem not_joined_of_pending_child : ∃ r : Run 1 Bool, Reachable r ∧
    (r.state.jobPool 0).completionFlag = 1 ∧ r.jobs.owner 0 = some 0 ∧ r.parentOf 1 = some 0 ∧
    r.jobs.executed = [0] ∧ ¬ Joined r := by
  let d : WorkDeque.Deque ℕ :=
    { buffer := fun _ => none, top := 0, bottom := 0, capacity := 1024, mask := 1023 }
  let client (c : Bool) (k : ℕ) : List (Action 1 Bool) := List.replicate k (.next (.client c) false)
  let actions : List (Action 1 Bool) :=
    .submit true ⟨1, 10, none⟩ :: client true 10 ++ .submit true ⟨2, 20, some 0⟩ :: client true 10 ++
      .wait false (some 0) :: client false 9
  have hresult : (Interleaving.run step actions (start (poolCreate d))).map
      (fun r => ((r.state.jobPool 0).completionFlag, r.jobs.owner 0, r.parentOf 1, r.jobs.executed)) =
      some (1, some 0, some 0, [0]) := by
    decide +kernel
  obtain ⟨r, hrun, hr⟩ := Option.map_eq_some_iff.mp hresult
  obtain ⟨hflag, howner, hparent, hexecuted⟩ : (r.state.jobPool 0).completionFlag = 1 ∧
      r.jobs.owner 0 = some 0 ∧ r.parentOf 1 = some 0 ∧ r.jobs.executed = [0] := by
    simpa only [Prod.mk.injEq] using hr
  have hreach : Reachable r :=
    Interleaving.Reachable.run (.init ⟨_, ⟨d, rfl, rfl⟩, rfl⟩) (fun _ _ => trivial) hrun
  refine ⟨r, hreach, hflag, howner, hparent, hexecuted, fun hjoined => ?_⟩
  have hmem := ((hjoined.flag 0 0 howner (by rw [hflag]; decide)).2 1 hparent).2
  rw [hexecuted] at hmem
  exact absurd hmem (by decide)

/-! ## The condition -/

/-- The record is not used, or its job is complete and no thread is at it. -/
def Free (r : Run n Client) (job : ℕ) : Prop :=
  (r.jobs.owner job = none ∨ (r.state.jobPool job).completionFlag ≠ 0) ∧
    ∀ t, (r.state.pc t).record ≠ some job

/-- A record is used again when its job is complete, a job is called once, a parent is a job that is not
complete, and a completion flag is set when the function of the job was called and no child is left. -/
def Orderly (r : Run n Client) : Action n Client → Prop
  | .next t _ =>
      match r.state.pc t with
      | .submitAlloc _ _ => Free r (r.state.jobPoolHead % jobPoolCapacity)
      | .submitParent _ desc _ => ∀ parent, desc.parent = some parent →
          r.jobs.owner parent ≠ none ∧ (r.state.jobPool parent).completionFlag = 0
      | .call _ job => r.queued job = true
      | .finish _ job => (r.state.jobPool job).remainingChildren = 0
      | .parentDone _ parent =>
          (r.state.jobPool parent).remainingChildren = 0 ∧
            ∃ k ∈ r.jobs.executed, r.jobs.owner parent = some k
      | _ => True
  | _ => True

/-- The states of the runs in which every step is orderly. -/
def OrderlyReachable : Run n Client → Prop :=
  Interleaving.Reachable (fun r => ∃ s, JobSystem.Initial s ∧ r = start s) step Orderly

end LgxRuntime.Threading.JobCompletion
