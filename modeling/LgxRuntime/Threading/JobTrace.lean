import LgxRuntime.Threading.JobSystem

/-!
# What happens to the jobs

The jobs are numbered in the order in which their completion flags are cleared.  From then on the record
belongs to the job, until the record is used for another one.  A job is executed when the function in its
record is called.

The steps from which a record changes are written out, one by one; every other step leaves the records alone.
-/

namespace LgxRuntime.Threading.JobSystem

open Function (update update_self update_of_ne)

/-! ## The numbers of the jobs -/

/-- The job to which a record belongs, the number of jobs, and the jobs that were executed. -/
structure Jobs where
  owner : ℕ → Option ℕ
  count : ℕ
  executed : List ℕ

/-- No record was used. -/
def Jobs.init : Jobs :=
  { owner := fun _ => none, count := 0, executed := [] }

/-- What the next step of a thread does to the jobs. -/
def Jobs.after (jobs : Jobs) : Pc → Jobs
  | .submitFlag job _ _ =>
      { jobs with owner := update jobs.owner job (some jobs.count), count := jobs.count + 1 }
  | .call _ job => { jobs with executed := (jobs.owner job).toList ++ jobs.executed }
  | _ => jobs

theorem Jobs.mem_executed_after {jobs : Jobs} {pc : Pc} {k : ℕ} (hk : k ∈ jobs.executed) :
    k ∈ (jobs.after pc).executed := by
  cases pc <;> first | exact hk | exact List.mem_append_right _ hk

/-! ## The steps that leave the records alone -/

/-- The record of the job that a thread submits or executes. -/
def Pc.record : Pc → Option ℕ
  | .submitFill job _ _ | .submitChildren job _ _ | .submitFlag job _ _ | .submitParent job _ _
  | .submitHead job _ | .submitWrite job _ _ => some job
  | .finish _ job | .parent _ job => some job
  | _ => none

/-- The next step of the thread takes a record, writes to one, puts one into the ring, or calls a
function. -/
def Pc.acts : Pc → Bool
  | .submitAlloc _ _ | .submitFill _ _ _ | .submitChildren _ _ _ | .submitFlag _ _ _
  | .submitParent _ _ _ | .submitHead _ _ | .submitWrite _ _ _ => true
  | .call _ _ | .finish _ _ | .parent _ _ | .parentDone _ _ => true
  | _ => false

/-- The record that a thread has taken, and whose completion flag is not cleared yet. -/
def Pc.unflagged : Pc → Option ℕ
  | .submitFill job _ _ | .submitChildren job _ _ | .submitFlag job _ _ => some job
  | _ => none

/-- The record that a thread is about to put into the ring. -/
def Pc.unwritten : Pc → Option ℕ
  | .submitParent job _ _ | .submitHead job _ | .submitWrite job _ _ => some job
  | _ => none

theorem Pc.hand_of_unflagged {pc : Pc} {job : ℕ} (h : pc.unflagged = some job) : pc.hand = some job := by
  cases pc <;> first | exact h | cases h

theorem Pc.hand_of_unwritten {pc : Pc} {job : ℕ} (h : pc.unwritten = some job) : pc.hand = some job := by
  cases pc <;> first | exact h | cases h

theorem Pc.unflagged_of_unwritten {pc : Pc} {job : ℕ} (h : pc.unwritten = some job) :
    pc.unflagged = none := by
  cases pc <;> first | rfl | cases h

theorem Pc.unflagged_of_record {pc : Pc} (h : pc.record = none) : pc.unflagged = none := by
  cases pc <;> first | rfl | cases h

theorem Pc.unwritten_of_record {pc : Pc} (h : pc.record = none) : pc.unwritten = none := by
  cases pc <;> first | rfl | cases h

theorem Mode.record_exhausted (mode : Mode) (round : Round) : (mode.exhausted round).record = none := by
  cases mode with
  | worker =>
      cases round with
      | first => rfl
      | spin k =>
          simp only [Mode.exhausted]
          split <;> rfl
  | waiter handle => rfl

theorem Mode.exhausted_ne_exited (mode : Mode) (round : Round) : mode.exhausted round ≠ .exited := by
  cases mode with
  | worker =>
      cases round with
      | first => simp [Mode.exhausted]
      | spin k =>
          simp only [Mode.exhausted]
          split <;> simp
  | waiter handle => simp [Mode.exhausted]

variable {n : ℕ} {Client : Type}

/-- The workers with a list of clients. -/
def threadsOf (clients : List Client) : List (Thread n Client) :=
  (List.finRange n).map .worker ++ clients.map .client

theorem mem_threadsOf {clients : List Client} (hall : ∀ c, c ∈ clients) (t : Thread n Client) :
    t ∈ threadsOf clients := by
  cases t with
  | worker w => simp [threadsOf]
  | client c => simp [threadsOf, hall c]

variable [DecidableEq Client] {s s' : State n Client} {t : Thread n Client} {weak : Bool}

/-- A client calls a function when it is in none. -/
theorem enterCall_eq {c : Client} {pc' : Pc} (hstep : enterCall s c pc' = some s') :
    s.pc (.client c) = .idle ∧ s' = s.goto (.client c) pc' := by
  simp only [enterCall] at hstep
  split at hstep
  · rename_i hpc
    cases hstep
    exact ⟨hpc, rfl⟩
  · cases hstep

/-- A thread without a record moves on, and nothing happens to the records.  Only a worker at the head of
its loop can end. -/
structure Moves (s : State n Client) (t : Thread n Client) (s' : State n Client) (pc' : Pc) : Prop where
  jobPool : s'.jobPool = s.jobPool
  jobPoolHead : s'.jobPoolHead = s.jobPoolHead
  shutdown : s'.shutdownRequested = s.shutdownRequested
  pc : s'.pc = update s.pc t pc'
  from_none : (s.pc t).record = none
  to_none : pc'.record = none
  exited : pc' = .exited → s.pc t = .enter .worker ∧ s.shutdownRequested = true

namespace Moves

theorem unflagged {pc' : Pc} (h : Moves s t s' pc') : pc'.unflagged = (s.pc t).unflagged := by
  rw [Pc.unflagged_of_record h.to_none, Pc.unflagged_of_record h.from_none]

theorem unwritten {pc' : Pc} (h : Moves s t s' pc') : pc'.unwritten = (s.pc t).unwritten := by
  rw [Pc.unwritten_of_record h.to_none, Pc.unwritten_of_record h.from_none]

theorem loop (hstep : stepLoop s t (s.pc t) = some s') : ∃ pc', Moves s t s' pc' := by
  cases hpc : s.pc t with
  | enter mode =>
      rw [hpc] at hstep
      cases mode with
      | worker =>
          cases hstep
          refine ⟨_, rfl, rfl, rfl, rfl, by rw [hpc]; rfl, by split <;> rfl, fun hexited => ⟨hpc, ?_⟩⟩
          by_contra hrunning
          rw [if_neg hrunning] at hexited
          cases hexited
      | waiter handle =>
          cases hstep
          refine ⟨_, rfl, rfl, rfl, rfl, by rw [hpc]; rfl, by split <;> rfl, fun hexited => ?_⟩
          split at hexited <;> cases hexited
  | park | returns result =>
      rw [hpc] at hstep
      cases hstep
      exact ⟨_, rfl, rfl, rfl, rfl, by rw [hpc]; rfl, rfl, by simp⟩
  | _ =>
      rw [hpc] at hstep
      cases hstep

theorem submitNext {descs : List JobDesc} (hpc : s.pc t = .submitNext descs)
    (hstep : stepSubmit s t (s.pc t) = some s') : ∃ pc', Moves s t s' pc' := by
  rw [hpc] at hstep
  cases descs with
  | nil =>
      cases hstep
      exact ⟨_, rfl, rfl, rfl, rfl, by rw [hpc]; rfl, rfl, by simp⟩
  | cons desc descs =>
      simp only [stepSubmit] at hstep
      split at hstep
      · cases hstep
        exact ⟨_, rfl, rfl, rfl, rfl, by rw [hpc]; rfl, rfl, by simp⟩
      · cases hstep
        exact ⟨_, rfl, rfl, rfl, rfl, by rw [hpc]; rfl, rfl, by simp⟩

theorem take (hstep : stepTake s t weak (s.pc t) = some s') : ∃ pc', Moves s t s' pc' := by
  cases hpc : s.pc t with
  | loadTail mode =>
      rw [hpc] at hstep
      cases hstep
      exact ⟨_, rfl, rfl, rfl, rfl, by rw [hpc]; rfl, rfl, by simp⟩
  | loadHead mode tail =>
      rw [hpc] at hstep
      simp only [stepTake] at hstep
      split at hstep
      · cases mode <;> cases hstep <;> exact ⟨_, rfl, rfl, rfl, rfl, by rw [hpc]; rfl, rfl, by simp⟩
      · cases hstep
        exact ⟨_, rfl, rfl, rfl, rfl, by rw [hpc]; rfl, rfl, by simp⟩
  | casTail mode tail =>
      rw [hpc] at hstep
      simp only [stepTake] at hstep
      split at hstep
      · cases hstep
        exact ⟨_, rfl, rfl, rfl, rfl, by rw [hpc]; rfl, rfl, by simp⟩
      · cases mode <;> cases hstep <;> exact ⟨_, rfl, rfl, rfl, rfl, by rw [hpc]; rfl, rfl, by simp⟩
  | take mode tail =>
      rw [hpc] at hstep
      simp only [stepTake] at hstep
      split at hstep
      · cases hstep
        refine ⟨s.pc t, rfl, rfl, rfl, (Function.update_eq_self t s.pc).symm, by rw [hpc]; rfl,
          by rw [hpc]; rfl, fun hexited => ?_⟩
        rw [hpc] at hexited
        cases hexited
      · cases hstep
        exact ⟨_, rfl, rfl, rfl, rfl, by rw [hpc]; rfl, rfl, by simp⟩
  | clear mode tail job =>
      rw [hpc] at hstep
      cases mode <;> cases hstep <;> exact ⟨_, rfl, rfl, rfl, rfl, by rw [hpc]; rfl, rfl, by simp⟩
  | _ =>
      rw [hpc] at hstep
      cases hstep

theorem own (hstep : stepOwn s t (s.pc t) = some s') : ∃ pc', Moves s t s' pc' := by
  cases t with
  | client c => cases hpc : s.pc (.client c) <;> rw [hpc] at hstep <;> cases hstep
  | worker w =>
      cases hpc : s.pc (.worker w) with
      | push job | pop round =>
          rw [hpc] at hstep
          obtain ⟨d, -, rfl⟩ := Option.map_eq_some_iff.mp hstep
          exact ⟨_, rfl, rfl, rfl, rfl, by rw [hpc]; rfl, rfl, by simp⟩
      | pushing =>
          rw [hpc] at hstep
          obtain ⟨d, -, rfl⟩ := Option.map_eq_some_iff.mp hstep
          refine ⟨_, rfl, rfl, rfl, rfl, by rw [hpc]; rfl, by split <;> rfl, fun hexited => ?_⟩
          split at hexited <;> cases hexited
      | popping round =>
          rw [hpc] at hstep
          obtain ⟨d, -, rfl⟩ := Option.map_eq_some_iff.mp hstep
          split <;> exact ⟨_, rfl, rfl, rfl, rfl, by rw [hpc]; rfl, rfl, by simp⟩
      | _ =>
          rw [hpc] at hstep
          cases hstep

theorem steal (hstep : stepSteal s t (s.pc t) = some s') : ∃ pc', Moves s t s' pc' := by
  cases hpc : s.pc t with
  | steal mode round i =>
      rw [hpc] at hstep
      simp only [stepSteal] at hstep
      split at hstep
      · split at hstep
        · obtain ⟨d, -, rfl⟩ := Option.map_eq_some_iff.mp hstep
          exact ⟨_, rfl, rfl, rfl, rfl, by rw [hpc]; rfl, rfl, by simp⟩
        · cases hstep
          exact ⟨_, rfl, rfl, rfl, rfl, by rw [hpc]; rfl, rfl, by simp⟩
      · cases hstep
        exact ⟨_, rfl, rfl, rfl, rfl, by rw [hpc]; rfl, mode.record_exhausted round,
          fun hexited => absurd hexited (mode.exhausted_ne_exited round)⟩
  | stealing mode round i =>
      rw [hpc] at hstep
      simp only [stepSteal] at hstep
      split at hstep
      · obtain ⟨d, -, rfl⟩ := Option.map_eq_some_iff.mp hstep
        split <;> exact ⟨_, rfl, rfl, rfl, rfl, by rw [hpc]; rfl, rfl, by simp⟩
      · cases hstep
  | _ =>
      rw [hpc] at hstep
      cases hstep

/-- The steps from all other places. -/
theorem of_next (hacts : (s.pc t).acts = false) (hstep : step s (.next t weak) = some s') :
    ∃ pc', Moves s t s' pc' := by
  simp only [step, stepThread, Option.orElse_eq_orElse, Option.orElse_eq_or, Option.or_eq_some_iff]
    at hstep
  rcases hstep with hstep | ⟨-, hstep | ⟨-, hstep | ⟨-, hstep | ⟨-, hstep | ⟨-, hstep⟩⟩⟩⟩⟩
  · exact loop hstep
  · cases hpc : s.pc t with
    | submitNext descs => exact submitNext hpc hstep
    | _ =>
        rw [hpc] at hacts hstep
        first | (cases hstep; done) | cases hacts
  · exact take hstep
  · exact own hstep
  · exact steal hstep
  · cases hpc : s.pc t <;> rw [hpc] at hacts hstep <;> first | (cases hstep; done) | cases hacts

/-- A client calls a function. -/
theorem enter {c : Client} {pc' : Pc} (hstep : enterCall s c pc' = some s') (hnone : pc'.record = none)
    (hexited : pc' ≠ .exited) : Moves s (.client c) s' pc' := by
  obtain ⟨hpc, rfl⟩ := enterCall_eq hstep
  exact ⟨rfl, rfl, rfl, rfl, by rw [hpc]; rfl, hnone, fun heq => absurd heq hexited⟩

/-- The calls of the clients. -/
theorem outside {a : Action n Client} (hnext : ∀ t weak, a ≠ .next t weak) (hshutdown : a ≠ .shutdown)
    (hstep : step s a = some s') : ∃ c pc', Moves s (.client c) s' pc' := by
  cases a with
  | submit c desc => exact ⟨c, _, enter hstep rfl (by simp)⟩
  | submitBatch c descs => cases descs <;> exact ⟨c, _, enter hstep rfl (by simp)⟩
  | wait c handle => cases handle <;> exact ⟨c, _, enter hstep rfl (by simp)⟩
  | next t weak => exact absurd rfl (hnext t weak)
  | shutdown => exact absurd rfl hshutdown

end Moves

/-! ## The other steps -/

omit [DecidableEq Client] in
/-- A completion flag that is set stays set when another one is. -/
theorem State.flag_setJob {job : ℕ} (x : ℕ) (hx : (s.jobPool x).completionFlag ≠ 0) :
    ((s.setJob job fun j => { j with completionFlag := 1 }).jobPool x).completionFlag ≠ 0 := by
  by_cases hxj : x = job
  · simp [hxj, State.setJob]
  · simpa [State.setJob, update_of_ne hxj] using hx

namespace State

variable {job parent : ℕ}

/-- The two writes of a submission with a parent. -/
def link (s : State n Client) (job parent : ℕ) : State n Client :=
  (s.setJob job fun j => { j with parent := some parent }).setJob parent fun j =>
    { j with remainingChildren := (j.remainingChildren + 1) % 2 ^ 32 }

omit [DecidableEq Client] in
theorem link_completionFlag (x : ℕ) :
    ((s.link job parent).jobPool x).completionFlag = (s.jobPool x).completionFlag := by
  have hfirst : ∀ y, ((s.setJob job fun j => { j with parent := some parent }).jobPool y).completionFlag =
      (s.jobPool y).completionFlag :=
    Interleaving.apply_update_self (f := JobInternal.completionFlag) rfl
  rw [← hfirst x]
  refine Interleaving.apply_update_self (f := JobInternal.completionFlag) ?_ x
  rfl

omit [DecidableEq Client] in
theorem link_remainingChildren (x : ℕ) :
    ((s.link job parent).jobPool x).remainingChildren =
      if x = parent then ((s.jobPool x).remainingChildren + 1) % 2 ^ 32
      else (s.jobPool x).remainingChildren := by
  have hfirst : ∀ y, ((s.setJob job fun j => { j with parent := some parent }).jobPool
      y).remainingChildren = (s.jobPool y).remainingChildren :=
    Interleaving.apply_update_self (f := JobInternal.remainingChildren) rfl
  split
  · rename_i hx
    simp only [link, hx, ← hfirst parent]
    simp only [setJob, update_self]
  · rename_i hx
    simp only [link, ← hfirst x]
    simp only [setJob, update_of_ne hx]

omit [DecidableEq Client] in
theorem link_parent (x : ℕ) :
    ((s.link job parent).jobPool x).parent = if x = job then some parent else (s.jobPool x).parent := by
  refine (Interleaving.apply_update_self (f := JobInternal.parent) (by rfl) x).trans ?_
  split
  · rename_i hx
    simp only [hx, setJob, update_self]
  · rename_i hx
    simp only [setJob, update_of_ne hx]

end State

section

variable {mode : Mode} {job : ℕ} {desc : JobDesc} {descs : List JobDesc}

theorem step_submitAlloc (hpc : s.pc t = .submitAlloc desc descs) :
    step s (.next t weak) = some
      { s.goto t (.submitFill (s.jobPoolHead % jobPoolCapacity) desc descs) with
        jobPoolHead := (s.jobPoolHead + 1) % 2 ^ 32
        submitted := (desc.func, desc.data) :: s.submitted } := by
  simp only [step, stepThread, hpc]
  rfl

theorem step_submitFill (hpc : s.pc t = .submitFill job desc descs) :
    step s (.next t weak) = some
      ((s.setJob job fun j => { j with func := desc.func, data := desc.data }).goto t
        (.submitChildren job desc descs)) := by
  simp only [step, stepThread, hpc]
  rfl

theorem step_submitChildren (hpc : s.pc t = .submitChildren job desc descs) :
    step s (.next t weak) = some
      ((s.setJob job fun j => { j with remainingChildren := 0 }).goto t (.submitFlag job desc descs)) := by
  simp only [step, stepThread, hpc]
  rfl

theorem step_submitFlag (hpc : s.pc t = .submitFlag job desc descs) :
    step s (.next t weak) = some
      ((s.setJob job fun j => { j with completionFlag := 0 }).goto t (.submitParent job desc descs)) := by
  simp only [step, stepThread, hpc]
  rfl

theorem step_submitParent_none (hpc : s.pc t = .submitParent job desc descs) (hparent : desc.parent = none) :
    step s (.next t weak) = some
      ((s.setJob job fun j => { j with parent := none }).goto t (.submitHead job descs)) := by
  simp only [step, stepThread, hpc, stepSubmit, hparent]
  rfl

theorem step_submitParent_some {parent : ℕ} (hpc : s.pc t = .submitParent job desc descs)
    (hparent : desc.parent = some parent) :
    step s (.next t weak) = some ((s.link job parent).goto t (.submitHead job descs)) := by
  simp only [step, stepThread, hpc, stepSubmit, hparent]
  rfl

theorem step_submitHead (hpc : s.pc t = .submitHead job descs) :
    step s (.next t weak) = some
      { s.goto t (.submitWrite job s.submitHead descs) with submitHead := wrap64 (s.submitHead + 1) } := by
  simp only [step, stepThread, hpc]
  rfl

theorem step_submitWrite {pos : ℕ} (hpc : s.pc t = .submitWrite job pos descs) :
    step s (.next t weak) = some
      { s.goto t (.submitNext descs) with
        submitQueue := update s.submitQueue (pos % submitQueueCap) (some job) } := by
  simp only [step, stepThread, hpc]
  rfl

theorem step_call (hpc : s.pc t = .call mode job) :
    step s (.next t weak) = some
      { s.goto t (.finish mode job) with
        called := ((s.jobPool job).func, (s.jobPool job).data) :: s.called } := by
  simp only [step, stepThread, hpc]
  cases t <;> rfl

theorem step_finish (hpc : s.pc t = .finish mode job) :
    step s (.next t weak) = some
      ((s.setJob job fun j => { j with completionFlag := 1 }).goto t (.parent mode job)) := by
  simp only [step, stepThread, hpc]
  cases t <;> rfl

theorem step_parent_none (hpc : s.pc t = .parent mode job) (hparent : (s.jobPool job).parent = none) :
    step s (.next t weak) = some (s.goto t (.enter mode)) := by
  simp only [step, stepThread, hpc, stepCall, hparent]
  cases t <;> rfl

theorem step_parent_some {parent : ℕ} (hpc : s.pc t = .parent mode job)
    (hparent : (s.jobPool job).parent = some parent) :
    step s (.next t weak) = some
      ((s.setJob parent fun j =>
        { j with remainingChildren :=
            ((s.jobPool parent).remainingChildren + (2 ^ 32 - 1)) % 2 ^ 32 }).goto t
        (if (s.jobPool parent).remainingChildren = 1 then .parentDone mode parent else .enter mode)) := by
  simp only [step, stepThread, hpc, stepCall, hparent]
  cases t <;> rfl

theorem step_parentDone {parent : ℕ} (hpc : s.pc t = .parentDone mode parent) :
    step s (.next t weak) = some
      ((s.setJob parent fun j => { j with completionFlag := 1 }).goto t (.enter mode)) := by
  simp only [step, stepThread, hpc]
  cases t <;> rfl

end

/-! ## What a step keeps -/

/-- The next step of the thread takes a record, gives it to a job, or puts it into the ring. -/
def Pc.hands : Pc → Bool
  | .submitAlloc _ _ | .submitFlag _ _ _ | .submitWrite _ _ _ => true
  | _ => false

/-- The next step of the thread writes a completion flag. -/
def Pc.marks : Pc → Bool
  | .submitFlag _ _ _ | .finish _ _ | .parentDone _ _ => true
  | _ => false

/-- The next step of a thread moves no other thread and requests no shutdown.  Apart from few places, it
keeps the record that the thread submits, the number of records, and the completion flags. -/
structure Steps (s : State n Client) (t : Thread n Client) (s' : State n Client) (pc' : Pc) : Prop where
  pc : s'.pc = update s.pc t pc'
  shutdown : s'.shutdownRequested = s.shutdownRequested
  exited : pc' = .exited → s.pc t = .enter .worker ∧ s.shutdownRequested = true
  head : (s.pc t).hands = false → s'.jobPoolHead = s.jobPoolHead
  unflagged : (s.pc t).hands = false → pc'.unflagged = (s.pc t).unflagged
  unwritten : (s.pc t).hands = false → pc'.unwritten = (s.pc t).unwritten
  flag : (s.pc t).marks = false →
    ∀ x, (s'.jobPool x).completionFlag = (s.jobPool x).completionFlag
  finish : (∀ mode job, s.pc t ≠ .call mode job) → ∀ mode job, pc' ≠ .finish mode job

namespace Steps

variable {pc' : Pc}

theorem unflagged_eq (h : Steps s t s' pc') (hhands : (s.pc t).hands = false) (u : Thread n Client) :
    (s'.pc u).unflagged = (s.pc u).unflagged :=
  Interleaving.apply_eq_of_update (f := Pc.unflagged) h.pc (h.unflagged hhands) u

theorem unwritten_eq (h : Steps s t s' pc') (hhands : (s.pc t).hands = false) (u : Thread n Client) :
    (s'.pc u).unwritten = (s.pc u).unwritten :=
  Interleaving.apply_eq_of_update (f := Pc.unwritten) h.pc (h.unwritten hhands) u

theorem of_moves (h : Moves s t s' pc') : Steps s t s' pc' := by
  refine ⟨h.pc, h.shutdown, h.exited, fun _ => h.jobPoolHead, fun _ => h.unflagged, fun _ => h.unwritten,
    fun _ x => ?_, fun _ mode job heq => ?_⟩
  · rw [h.jobPool]
  · have hnone := h.to_none
    rw [heq] at hnone
    cases hnone

/-- A thread that submits goes on, and the completion flags stay as they are. -/
theorem of_submit (hpc : s'.pc = update s.pc t pc')
    (hshutdown : s'.shutdownRequested = s.shutdownRequested) (hexited : pc' ≠ .exited)
    (hhead : s'.jobPoolHead = s.jobPoolHead) (hunflagged : pc'.unflagged = (s.pc t).unflagged)
    (hunwritten : pc'.unwritten = (s.pc t).unwritten)
    (hflag : ∀ x, (s'.jobPool x).completionFlag = (s.jobPool x).completionFlag)
    (hfinish : ∀ mode job, pc' ≠ .finish mode job) : Steps s t s' pc' :=
  ⟨hpc, hshutdown, fun heq => absurd heq hexited, fun _ => hhead, fun _ => hunflagged, fun _ => hunwritten,
    fun _ => hflag, fun _ => hfinish⟩

theorem of_next (hstep : step s (.next t weak) = some s') : ∃ pc', Steps s t s' pc' := by
  cases hpc : s.pc t with
  | submitAlloc desc descs =>
      rw [step_submitAlloc hpc] at hstep
      cases hstep
      exact ⟨_, rfl, rfl, by simp, by simp [hpc, Pc.hands], by simp [hpc, Pc.hands],
        by simp [hpc, Pc.hands], fun _ _ => rfl, by simp⟩
  | submitFill job desc descs =>
      rw [step_submitFill hpc] at hstep
      cases hstep
      exact ⟨_, of_submit rfl rfl (by simp) rfl (by rw [hpc]; rfl) (by rw [hpc]; rfl)
        (Interleaving.apply_update_self (f := JobInternal.completionFlag) rfl) (by simp)⟩
  | submitChildren job desc descs =>
      rw [step_submitChildren hpc] at hstep
      cases hstep
      exact ⟨_, of_submit rfl rfl (by simp) rfl (by rw [hpc]; rfl) (by rw [hpc]; rfl)
        (Interleaving.apply_update_self (f := JobInternal.completionFlag) rfl) (by simp)⟩
  | submitFlag job desc descs =>
      rw [step_submitFlag hpc] at hstep
      cases hstep
      exact ⟨_, rfl, rfl, by simp, fun _ => rfl, by simp [hpc, Pc.hands], by simp [hpc, Pc.hands],
        by simp [hpc, Pc.marks], by simp⟩
  | submitParent job desc descs =>
      cases hparent : desc.parent with
      | none =>
          rw [step_submitParent_none hpc hparent] at hstep
          cases hstep
          exact ⟨_, of_submit rfl rfl (by simp) rfl (by rw [hpc]; rfl) (by rw [hpc]; rfl)
            (Interleaving.apply_update_self (f := JobInternal.completionFlag) rfl) (by simp)⟩
      | some parent =>
          rw [step_submitParent_some hpc hparent] at hstep
          cases hstep
          exact ⟨_, of_submit rfl rfl (by simp) rfl (by rw [hpc]; rfl) (by rw [hpc]; rfl)
            State.link_completionFlag (by simp)⟩
  | submitHead job descs =>
      rw [step_submitHead hpc] at hstep
      cases hstep
      exact ⟨_, of_submit rfl rfl (by simp) rfl (by rw [hpc]; rfl) (by rw [hpc]; rfl) (fun _ => rfl)
        (by simp)⟩
  | submitWrite job pos descs =>
      rw [step_submitWrite hpc] at hstep
      cases hstep
      exact ⟨_, rfl, rfl, by simp, fun _ => rfl, by simp [hpc, Pc.hands], by simp [hpc, Pc.hands],
        fun _ _ => rfl, by simp⟩
  | call mode job =>
      rw [step_call hpc] at hstep
      cases hstep
      exact ⟨_, rfl, rfl, by simp, fun _ => rfl, fun _ => by rw [hpc]; rfl, fun _ => by rw [hpc]; rfl,
        fun _ _ => rfl, fun hnot => absurd hpc (hnot mode job)⟩
  | finish mode job =>
      rw [step_finish hpc] at hstep
      cases hstep
      exact ⟨_, rfl, rfl, by simp, fun _ => rfl, fun _ => by rw [hpc]; rfl, fun _ => by rw [hpc]; rfl,
        by simp [hpc, Pc.marks], by simp⟩
  | parent mode job =>
      cases hparent : (s.jobPool job).parent with
      | none =>
          rw [step_parent_none hpc hparent] at hstep
          cases hstep
          exact ⟨_, rfl, rfl, by simp, fun _ => rfl, fun _ => by rw [hpc]; rfl, fun _ => by rw [hpc]; rfl,
            fun _ _ => rfl, by simp⟩
      | some parent =>
          rw [step_parent_some hpc hparent] at hstep
          cases hstep
          refine ⟨_, rfl, rfl, fun hexited => ?_, fun _ => rfl, fun _ => by rw [hpc]; split <;> rfl,
            fun _ => by rw [hpc]; split <;> rfl,
            fun _ => Interleaving.apply_update_self (f := JobInternal.completionFlag) rfl,
            fun _ mode' job' heq => ?_⟩
          · split at hexited <;> cases hexited
          · split at heq <;> cases heq
  | parentDone mode parent =>
      rw [step_parentDone hpc] at hstep
      cases hstep
      exact ⟨_, rfl, rfl, by simp, fun _ => rfl, fun _ => by rw [hpc]; rfl, fun _ => by rw [hpc]; rfl,
        by simp [hpc, Pc.marks], by simp⟩
  | _ =>
      obtain ⟨pc', hmoves⟩ := Moves.of_next (by rw [hpc]; rfl) hstep
      exact ⟨pc', of_moves hmoves⟩

end Steps

end LgxRuntime.Threading.JobSystem
