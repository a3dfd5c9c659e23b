import LgxRuntime.Machine
import LgxRuntime.Lib.Interleaving
import LgxRuntime.Lib.Ring
import Mathlib.Data.List.Perm.Basic

/-!
# The work-stealing deque

The owner pushes and pops jobs at `bottom`, thieves steal at `top`.  The owner takes a job by moving
`bottom` down before it loads `top`: only if the job is the last one it has to win a race for it, which
is decided by a compare-and-swap on `top`.

The functions are cut into their atomic steps.  What was pushed, from the call on, and what was returned
is recorded in the state.
-/

namespace LgxRuntime.Threading.WorkDeque

open Function (update update_self update_of_ne)
open Ring (slot slot_ne)

/-! ## The deque -/

/-- `lgx_work_deque_t`; `none` is `NULL`. -/
structure Deque (Job : Type) where
  buffer : ℕ → Option Job
  top : ℤ
  bottom : ℤ
  capacity : ℕ
  mask : ℕ

variable {Job Thief : Type}

/-- `lgx_work_deque_init`, if there is memory; `none` if the call does not return. -/
def lgxWorkDequeInit (capacity : ℕ) : Option (Deque Job) :=
  (Ring.roundUp capacity).map fun cap =>
    { buffer := fun _ => none, top := 0, bottom := 0, capacity := cap, mask := cap - 1 }

/-- `i & dq->mask`: the index is converted to a `size_t`. -/
def Deque.index (d : Deque Job) (i : ℤ) : ℕ :=
  (i % 2 ^ 64).toNat &&& d.mask

/-! ## The owner -/

/-- Where the owner is, with its local variables. -/
inductive OwnerPc (Job : Type)
  | idle
  /-- `lgx_work_deque_push`, at the load of `bottom`. -/
  | pushLoad (job : Job)
  /-- At the write of the job into the buffer. -/
  | pushWrite (job : Job) (b : ℤ)
  /-- At the store of `bottom`. -/
  | pushStore (job : Job) (b : ℤ)
  /-- `lgx_work_deque_pop`, at the load of `bottom`. -/
  | popLoad
  /-- At the store of `bottom`. -/
  | popStore (b : ℤ)
  /-- At the load of `top`. -/
  | popTop (b : ℤ)
  /-- The deque is not empty; at the read of the buffer. -/
  | popRead (b t : ℤ)
  /-- At the compare-and-swap for the last job. -/
  | popCas (t : ℤ) (job : Option Job)
  /-- At the store of `bottom` after the race. -/
  | popFinish (t : ℤ) (job : Option Job)
  /-- The deque is empty; at the store of `bottom`. -/
  | popEmpty (t : ℤ)
  /-- `lgx_work_deque_pop` is about to return. -/
  | popped (result : Option Job)

/-- The next step of the owner. -/
def ownerStep (d : Deque Job) : OwnerPc Job → Option (Deque Job × OwnerPc Job)
  | .idle => none
  | .pushLoad job => some (d, .pushWrite job d.bottom)
  | .pushWrite job b =>
      -- nothing checks that the slot is free
      some ({ d with buffer := update d.buffer (d.index b) (some job) }, .pushStore job b)
  | .pushStore _ b => some ({ d with bottom := wrapInt64 (b + 1) }, .idle)
  | .popLoad => some (d, .popStore (wrapInt64 (d.bottom - 1)))
  -- the job below `bottom` is reserved before `top` is looked at
  | .popStore b => some ({ d with bottom := b }, .popTop b)
  | .popTop b => some (d, if d.top ≤ b then .popRead b d.top else .popEmpty d.top)
  | .popRead b t =>
      let job := d.buffer (d.index b)
      -- a thief can only be after the same job if it is the last one
      some (d, if t = b then .popCas t job else .popped job)
  | .popCas t job =>
      -- a failed compare-and-swap loads what it finds into `t`
      if d.top = t then some ({ d with top := wrapInt64 (t + 1) }, .popFinish t job)
      else some (d, .popFinish d.top none)
  | .popFinish t job => some ({ d with bottom := wrapInt64 (t + 1) }, .popped job)
  | .popEmpty t => some ({ d with bottom := t }, .popped none)
  | .popped _ => some (d, .idle)

/-- The job that `lgx_work_deque_pop` returns. -/
def OwnerPc.result : OwnerPc Job → Option Job
  | .popped result => result
  | _ => none

/-- While the owner tries to get the last job, `bottom` is one below the end of the deque. -/
def OwnerPc.reserve : OwnerPc Job → ℕ
  | .popTop _ | .popCas _ _ | .popFinish _ _ | .popEmpty _ => 1
  | .popRead b t => if t = b then 1 else 0
  | _ => 0

/-- The job that is being pushed, or that the owner has taken and not returned yet. -/
def OwnerPc.hand (d : Deque Job) : OwnerPc Job → List Job
  | .pushLoad job | .pushWrite job _ | .pushStore job _ => [job]
  | .popRead b t => if t = b then [] else (d.buffer (d.index b)).toList
  | .popFinish _ job => job.toList
  | _ => []

/-! ## The thieves -/

/-- Where a thief is in `lgx_work_deque_steal`. -/
inductive ThiefPc (Job : Type)
  | idle
  /-- At the load of `top`. -/
  | stealTop
  /-- At the load of `bottom`. -/
  | stealBottom (t : ℤ)
  /-- The deque is not empty; at the read of the buffer. -/
  | stealRead (t : ℤ)
  /-- At the compare-and-swap on `top`. -/
  | stealCas (t : ℤ) (job : Option Job)
  /-- About to return. -/
  | stolen (result : Option Job)

/-- The next step of a thief. -/
def thiefStep (d : Deque Job) : ThiefPc Job → Option (Deque Job × ThiefPc Job)
  | .idle => none
  | .stealTop => some (d, .stealBottom d.top)
  | .stealBottom t => some (d, if t < d.bottom then .stealRead t else .stolen none)
  | .stealRead t => some (d, .stealCas t (d.buffer (d.index t)))
  | .stealCas t job =>
      -- here `t` is not used any more after a failure
      if d.top = t then some ({ d with top := wrapInt64 (t + 1) }, .stolen job)
      else some (d, .stolen none)
  | .stolen _ => some (d, .idle)

/-- The job that `lgx_work_deque_steal` returns. -/
def ThiefPc.result : ThiefPc Job → Option Job
  | .stolen result => result
  | _ => none

/-! ## Runs -/

/-- The deque with its threads, and the jobs that were pushed and returned. -/
structure State (Job Thief : Type) where
  deque : Deque Job
  owner : OwnerPc Job
  thieves : Thief → ThiefPc Job
  pushed : List Job
  returned : List Job

/-- A call, or the next step of a thread. -/
inductive Action (Job Thief : Type)
  | push (job : Job)
  | pop
  | owner
  | steal (thief : Thief)
  | thief (thief : Thief)

/-- All threads are outside of a new deque. -/
structure Initial (s : State Job Thief) (capacity : ℕ) : Prop where
  deque : lgxWorkDequeInit capacity = some s.deque
  owner : s.owner = .idle
  thieves : ∀ thief, s.thieves thief = .idle
  pushed : s.pushed = []
  returned : s.returned = []

variable [DecidableEq Thief]

/-- One step. -/
def step (s : State Job Thief) : Action Job Thief → Option (State Job Thief)
  | .push job =>
      match s.owner with
      | .idle => some { s with owner := .pushLoad job, pushed := job :: s.pushed }
      | _ => none
  | .pop =>
      match s.owner with
      | .idle => some { s with owner := .popLoad }
      | _ => none
  | .owner =>
      (ownerStep s.deque s.owner).map fun result =>
        { s with
          deque := result.1
          owner := result.2
          returned := result.2.result.toList ++ s.returned }
  | .steal thief =>
      match s.thieves thief with
      | .idle => some { s with thieves := update s.thieves thief .stealTop }
      | _ => none
  | .thief thief =>
      (thiefStep s.deque (s.thieves thief)).map fun result =>
        { s with
          deque := result.1
          thieves := update s.thieves thief result.2
          returned := result.2.result.toList ++ s.returned }

/-- At most `capacity` jobs are pushed and not returned. -/
def Allowed (s : State Job Thief) : Action Job Thief → Prop
  | .push _ => s.pushed.length < s.returned.length + s.deque.capacity
  | _ => True

instance (s : State Job Thief) : (a : Action Job Thief) → Decidable (Allowed s a)
  | .push _ => inferInstanceAs (Decidable (s.pushed.length < s.returned.length + s.deque.capacity))
  | .pop | .owner | .steal _ | .thief _ => inferInstanceAs (Decidable True)

/-- The states of the runs of one owner and any number of thieves. -/
def Reachable : State Job Thief → Prop :=
  Interleaving.Reachable (fun s => ∃ capacity, Initial s capacity) step Allowed

/-- All threads are outside of the deque. -/
def Quiescent (s : State Job Thief) : Prop :=
  s.owner = .idle ∧ ∀ thief, s.thieves thief = .idle

/-- No job is left in the deque, and the owner has none. -/
def State.Empty (s : State Job Thief) : Prop :=
  s.deque.bottom + s.owner.reserve ≤ s.deque.top ∧ s.owner.hand s.deque = [] ∧ s.owner.result = none

/-- The owner alone gets everything back that was not returned. -/
def Retrievable (s : State Job Thief) : Prop :=
  ∃ actions s', (∀ a ∈ actions, a = .pop ∨ a = .owner) ∧
    Interleaving.run step actions s = some s' ∧ s'.pushed = s.pushed ∧ s'.returned.Perm s.pushed

/-- What is returned was pushed, no more often than it was pushed, and the rest is not lost. -/
structure Sound [DecidableEq Job] (s : State Job Thief) : Prop where
  returned_pushed : ∀ job ∈ s.returned, job ∈ s.pushed
  count_le : ∀ job, s.returned.count job ≤ s.pushed.count job
  retrievable : Quiescent s → Retrievable s

/-- The race for the last job is not lost, and `bottom` stays below `INT64_MAX`. -/
def Fits (s : State Job Thief) : Action Job Thief → Prop
  | .push _ => s.deque.bottom < 2 ^ 63 - 1
  | .owner =>
      match s.owner with
      | .popCas t _ => s.deque.top = t
      | _ => True
  | _ => True

/-- The states of the runs in which every step fits. -/
def FitReachable : State Job Thief → Prop :=
  Interleaving.Reachable (fun s => ∃ capacity, Initial s capacity) step
    fun s a => Allowed s a ∧ Fits s a

/-- A lost race leaves `bottom` one too high: the job that was popped before is popped again. -/
theorem returned_twice_after_lost_race : ∃ s : State ℕ Unit, Reachable s ∧ s.pushed = [1, 0] ∧
    s.returned = [1, 0, 1] ∧ ¬ Sound s := by
  let d : Deque ℕ := { buffer := fun _ => none, top := 0, bottom := 0, capacity := 2, mask := 1 }
  let s₀ : State ℕ Unit :=
    { deque := d, owner := .idle, thieves := fun _ => .idle, pushed := [], returned := [] }
  let owner (n : ℕ) : List (Action ℕ Unit) := List.replicate n .owner
  let thief (n : ℕ) : List (Action ℕ Unit) := List.replicate n (.thief ())
  let actions : List (Action ℕ Unit) :=
    .push 0 :: owner 3 ++ .push 1 :: owner 3 ++ .pop :: owner 5 ++
      -- the thief sees the last job before the owner takes it
      .steal () :: thief 2 ++ .pop :: owner 4 ++ thief 2 ++ owner 3 ++ .pop :: owner 6
  have hresult : (Interleaving.run
      (Interleaving.guarded step fun s a => decide (Allowed s a)) actions s₀).map
      (fun s => (s.pushed, s.returned)) = some ([1, 0], [1, 0, 1]) := by
    decide +kernel
  have hinit : Reachable s₀ := .init ⟨2, rfl, rfl, fun _ => rfl, rfl, rfl⟩
  obtain ⟨s, hreach, hs⟩ :=
    hinit.exists_of_run_guarded (fun _ _ _ h => of_decide_eq_true h) hresult
  obtain ⟨hpushed, hreturned⟩ := Prod.mk.inj hs
  refine ⟨s, hreach, hpushed, hreturned, ?_⟩
  intro hsound
  have hcount := hsound.count_le 1
  rw [hpushed, hreturned] at hcount
  exact absurd hcount (by decide)

end LgxRuntime.Threading.WorkDeque
