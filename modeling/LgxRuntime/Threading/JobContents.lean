import LgxRuntime.Threading.JobTrace

/-!
# Where the records come from

A record that a thread calls was put into the ring by a submission, even if a ring was overrun or a race was
lost on the way: no step makes up a record.  A property of records that holds when their completion flags
are cleared holds of everything in the ring, in the deques and in the hands of the threads.
-/

namespace LgxRuntime.Threading

open Function (update update_self update_of_ne)
open Interleaving (of_eq_none)

/-! ## The deques -/

namespace WorkDeque

variable {Job Thief : Type}

/-- The job in a local variable of the owner. -/
def OwnerPc.job : OwnerPc Job → Option Job
  | .pushLoad job | .pushWrite job _ | .pushStore job _ => some job
  | .popCas _ job | .popFinish _ job => job
  | .popped result => result
  | _ => none

/-- The job in a local variable of a thief. -/
def ThiefPc.job : ThiefPc Job → Option Job
  | .stealCas _ job => job
  | .stolen result => result
  | _ => none

/-- Everything in the buffer and in the local variables has a property. -/
structure Contains (P : Job → Prop) (s : State Job Thief) : Prop where
  buffer : ∀ i job, s.deque.buffer i = some job → P job
  owner : ∀ job, s.owner.job = some job → P job
  thieves : ∀ thief job, (s.thieves thief).job = some job → P job

namespace Contains

variable {P P' : Job → Prop} {s s' : State Job Thief}

theorem mono (h : Contains P s) (hmono : ∀ job, P job → P' job) : Contains P' s :=
  ⟨fun i job hjob => hmono job (h.buffer i job hjob), fun job hjob => hmono job (h.owner job hjob),
    fun thief job hjob => hmono job (h.thieves thief job hjob)⟩

/-- A step of the owner. -/
theorem ownerStep (h : Contains P s) {d : Deque Job} {pc : OwnerPc Job}
    (hstep : WorkDeque.ownerStep s.deque s.owner = some (d, pc)) :
    (∀ i job, d.buffer i = some job → P job) ∧ ∀ job, pc.job = some job → P job := by
  have howner := h.owner
  cases hpc : s.owner with
  | pushWrite job b =>
      rw [hpc] at hstep howner
      cases hstep
      refine ⟨fun i x hx => ?_, howner⟩
      rcases Interleaving.update_cases hx with ⟨-, hnew⟩ | ⟨-, hold⟩
      · exact howner x hnew
      · exact h.buffer i x hold
  | popTop b =>
      rw [hpc] at hstep
      cases hstep
      refine ⟨h.buffer, fun x hx => ?_⟩
      split at hx <;> cases hx
  | popRead b t =>
      rw [hpc] at hstep
      cases hstep
      refine ⟨h.buffer, fun x hx => ?_⟩
      split at hx <;> exact h.buffer _ x hx
  | popCas t job =>
      rw [hpc] at hstep howner
      simp only [WorkDeque.ownerStep] at hstep
      split at hstep
      · cases hstep
        exact ⟨h.buffer, howner⟩
      · cases hstep
        exact ⟨h.buffer, of_eq_none rfl⟩
  | pushLoad job | popFinish t job =>
      rw [hpc] at hstep howner
      cases hstep
      exact ⟨h.buffer, howner⟩
  | pushStore job b | popLoad | popStore b | popEmpty t | popped result =>
      rw [hpc] at hstep
      cases hstep
      exact ⟨h.buffer, of_eq_none rfl⟩
  | idle =>
      rw [hpc] at hstep
      cases hstep

/-- A step of a thief. -/
theorem thiefStep (h : Contains P s) {thief : Thief} {d : Deque Job} {pc : ThiefPc Job}
    (hstep : WorkDeque.thiefStep s.deque (s.thieves thief) = some (d, pc)) :
    d.buffer = s.deque.buffer ∧ ∀ job, pc.job = some job → P job := by
  have hthief := h.thieves thief
  cases hpc : s.thieves thief with
  | stealBottom t =>
      rw [hpc] at hstep
      cases hstep
      refine ⟨rfl, fun x hx => ?_⟩
      split at hx <;> cases hx
  | stealRead t =>
      rw [hpc] at hstep
      cases hstep
      exact ⟨rfl, h.buffer _⟩
  | stealCas t job =>
      rw [hpc] at hstep hthief
      simp only [WorkDeque.thiefStep] at hstep
      split at hstep
      · cases hstep
        exact ⟨rfl, hthief⟩
      · cases hstep
        exact ⟨rfl, of_eq_none rfl⟩
  | stealTop | stolen result =>
      rw [hpc] at hstep
      cases hstep
      exact ⟨rfl, of_eq_none rfl⟩
  | idle =>
      rw [hpc] at hstep
      cases hstep

variable [DecidableEq Thief]

/-- A thief moves on. -/
theorem setThief (h : Contains P s) {thief : Thief} {pc : ThiefPc Job}
    (hpc : ∀ job, pc.job = some job → P job) :
    Contains P { s with thieves := update s.thieves thief pc } := by
  refine ⟨h.buffer, h.owner, fun u job hu => ?_⟩
  rcases Interleaving.apply_update_cases (f := ThiefPc.job) hu with ⟨-, hnew⟩ | ⟨-, hold⟩
  · exact hpc job hnew
  · exact h.thieves u job hold

theorem step (h : Contains P s) {a : Action Job Thief} (hpush : ∀ job, a = .push job → P job)
    (hstep : WorkDeque.step s a = some s') : Contains P s' := by
  cases a with
  | push job =>
      simp only [WorkDeque.step] at hstep
      split at hstep
      · cases hstep
        refine ⟨h.buffer, fun x hx => ?_, h.thieves⟩
        obtain rfl := Option.some.inj hx
        exact hpush _ rfl
      · cases hstep
  | pop =>
      simp only [WorkDeque.step] at hstep
      split at hstep
      · cases hstep
        exact ⟨h.buffer, of_eq_none rfl, h.thieves⟩
      · cases hstep
  | owner =>
      obtain ⟨⟨d, pc⟩, hresult, rfl⟩ := Option.map_eq_some_iff.mp hstep
      obtain ⟨hbuffer, howner⟩ := h.ownerStep hresult
      exact ⟨hbuffer, howner, h.thieves⟩
  | steal thief =>
      simp only [WorkDeque.step] at hstep
      split at hstep
      · cases hstep
        exact h.setThief (of_eq_none rfl)
      · cases hstep
  | thief thief =>
      obtain ⟨⟨d, pc⟩, hresult, rfl⟩ := Option.map_eq_some_iff.mp hstep
      obtain ⟨hbuffer, hthief⟩ := h.thiefStep hresult
      have hset : Contains P { s with thieves := update s.thieves thief pc } := h.setThief hthief
      exact ⟨fun i job hjob => h.buffer i job (hbuffer ▸ hjob), hset.owner, hset.thieves⟩

end Contains

end WorkDeque

/-! ## The pool -/

namespace JobSystem

variable {n : ℕ} {Client : Type}

/-- The record in a local variable of a thread, once its completion flag is cleared. -/
def Pc.carries : Pc → Option ℕ
  | .submitParent job _ _ | .submitHead job _ | .submitWrite job _ _ => some job
  | .clear _ _ job | .push job | .call _ job | .finish _ job | .parent _ job => some job
  | _ => none

theorem Mode.carries_exhausted (mode : Mode) (round : Round) : (mode.exhausted round).carries = none := by
  cases mode with
  | worker =>
      cases round with
      | first => rfl
      | spin k =>
          simp only [Mode.exhausted]
          split <;> rfl
  | waiter handle => rfl

/-- Every record in the ring, in the deques and in the local variables has a property. -/
structure Contents (P : ℕ → Prop) (s : State n Client) : Prop where
  queue : ∀ i job, s.submitQueue i = some job → P job
  deques : ∀ w, WorkDeque.Contains P (s.deques w)
  threads : ∀ t job, (s.pc t).carries = some job → P job

namespace Contents

variable {P P' : ℕ → Prop} {s s' : State n Client} {t : Thread n Client} {pc' : Pc} {weak : Bool}

theorem init {d : WorkDeque.Deque ℕ} (hd : WorkDeque.lgxWorkDequeInit dequeInitialCap = some d) :
    Contents P (poolCreate d : State n Client) := by
  refine ⟨fun _ => of_eq_none rfl, fun w => ⟨fun i job hjob => ?_, of_eq_none rfl, fun _ => of_eq_none rfl⟩,
    fun t job ht => ?_⟩
  · obtain ⟨cap, -, rfl⟩ := Option.map_eq_some_iff.mp hd
    cases hjob
  · cases t <;> cases ht

theorem mono (h : Contents P s) (hmono : ∀ job, P job → P' job) : Contents P' s :=
  ⟨fun i job hjob => hmono job (h.queue i job hjob), fun w => (h.deques w).mono hmono,
    fun t job hjob => hmono job (h.threads t job hjob)⟩

variable [DecidableEq Client]

theorem threads_update (h : Contents P s) (hpc : s'.pc = update s.pc t pc')
    (hnew : ∀ job, pc'.carries = some job → P job) (u : Thread n Client) (job : ℕ)
    (hu : (s'.pc u).carries = some job) : P job := by
  rw [hpc] at hu
  rcases Interleaving.apply_update_cases (f := Pc.carries) hu with ⟨-, hself⟩ | ⟨-, hold⟩
  · exact hnew job hself
  · exact h.threads u job hold

/-- A thread moves on, and the ring and the deques stay as they are. -/
theorem goto (h : Contents P s) (hpc : s'.pc = update s.pc t pc') (hqueue : s'.submitQueue = s.submitQueue)
    (hdeques : s'.deques = s.deques) (hnew : ∀ job, pc'.carries = some job → P job) : Contents P s' := by
  refine ⟨?_, ?_, h.threads_update hpc hnew⟩
  · rw [hqueue]
    exact h.queue
  · rw [hdeques]
    exact h.deques

/-- A thread writes into the ring, and moves on. -/
theorem write (h : Contents P s) (hpc : s'.pc = update s.pc t pc') {i : ℕ} {entry : Option ℕ}
    (hqueue : s'.submitQueue = update s.submitQueue i entry) (hdeques : s'.deques = s.deques)
    (hentry : ∀ job, entry = some job → P job) (hnew : ∀ job, pc'.carries = some job → P job) :
    Contents P s' := by
  refine ⟨fun j job hjob => ?_, ?_, h.threads_update hpc hnew⟩
  · rw [hqueue] at hjob
    rcases Interleaving.update_cases hjob with ⟨-, hself⟩ | ⟨-, hold⟩
    · exact hentry job hself
    · exact h.queue j job hold
  · rw [hdeques]
    exact h.deques

/-- A deque changes, and a thread moves on. -/
theorem setDeque (h : Contents P s) {w : Fin n} {d : WorkDeque.State ℕ (Thread n Client)}
    (hd : WorkDeque.Contains P d) (hnew : ∀ job, pc'.carries = some job → P job) :
    Contents P (s.setDeque w d t pc') := by
  refine ⟨h.queue, fun v => ?_, h.threads_update rfl hnew⟩
  by_cases hv : v = w
  · subst hv
    simp only [State.setDeque, update_self]
    exact hd
  · simp only [State.setDeque, update_of_ne hv]
    exact h.deques v

theorem loop (h : Contents P s) (hstep : stepLoop s t (s.pc t) = some s') : Contents P s' := by
  cases hpc : s.pc t with
  | enter mode =>
      rw [hpc] at hstep
      cases mode with
      | worker | waiter handle =>
          cases hstep
          refine h.goto rfl rfl rfl fun x hx => ?_
          split at hx <;> cases hx
  | park | returns result =>
      rw [hpc] at hstep
      cases hstep
      exact h.goto rfl rfl rfl (of_eq_none rfl)
  | _ =>
      rw [hpc] at hstep
      cases hstep

theorem submitNext (h : Contents P s) {descs : List JobDesc} (hpc : s.pc t = .submitNext descs)
    (hstep : stepSubmit s t (s.pc t) = some s') : Contents P s' := by
  rw [hpc] at hstep
  cases descs with
  | nil =>
      cases hstep
      exact h.goto rfl rfl rfl (of_eq_none rfl)
  | cons desc descs =>
      simp only [stepSubmit] at hstep
      split at hstep
      · cases hstep
        exact h.goto rfl rfl rfl (of_eq_none rfl)
      · cases hstep
        exact h.goto rfl rfl rfl (of_eq_none rfl)

theorem take (h : Contents P s) (hstep : stepTake s t weak (s.pc t) = some s') : Contents P s' := by
  cases hpc : s.pc t with
  | loadTail mode =>
      rw [hpc] at hstep
      cases hstep
      exact h.goto rfl rfl rfl (of_eq_none rfl)
  | loadHead mode tail =>
      rw [hpc] at hstep
      simp only [stepTake] at hstep
      split at hstep
      · cases mode <;> cases hstep <;> exact h.goto rfl rfl rfl (of_eq_none rfl)
      · cases hstep
        exact h.goto rfl rfl rfl (of_eq_none rfl)
  | casTail mode tail =>
      rw [hpc] at hstep
      simp only [stepTake] at hstep
      split at hstep
      · cases hstep
        exact h.goto rfl rfl rfl (of_eq_none rfl)
      · cases mode <;> cases hstep <;> exact h.goto rfl rfl rfl (of_eq_none rfl)
  | take mode tail =>
      rw [hpc] at hstep
      simp only [stepTake] at hstep
      split at hstep
      · cases hstep
        exact h
      · rename_i job hjob
        cases hstep
        refine h.goto rfl rfl rfl fun x hx => ?_
        obtain rfl := Option.some.inj hx
        exact h.queue _ _ hjob
  | clear mode tail job =>
      have hjob := h.threads t job (by rw [hpc]; rfl)
      rw [hpc] at hstep
      cases mode with
      | worker | waiter handle =>
          cases hstep
          refine h.write rfl rfl rfl (of_eq_none rfl) fun x hx => ?_
          obtain rfl := Option.some.inj hx
          exact hjob
  | _ =>
      rw [hpc] at hstep
      cases hstep

theorem own (h : Contents P s) (hstep : stepOwn s t (s.pc t) = some s') : Contents P s' := by
  cases t with
  | client c => cases hpc : s.pc (.client c) <;> rw [hpc] at hstep <;> cases hstep
  | worker w =>
      cases hpc : s.pc (.worker w) with
      | push job =>
          have hjob := h.threads (.worker w) job (by rw [hpc]; rfl)
          rw [hpc] at hstep
          obtain ⟨d, hd, rfl⟩ := Option.map_eq_some_iff.mp hstep
          refine h.setDeque ((h.deques w).step (fun x hx => ?_) hd) (of_eq_none rfl)
          cases hx
          exact hjob
      | pushing =>
          rw [hpc] at hstep
          obtain ⟨d, hd, rfl⟩ := Option.map_eq_some_iff.mp hstep
          refine h.setDeque ((h.deques w).step (by simp) hd) fun x hx => ?_
          split at hx <;> cases hx
      | pop round =>
          rw [hpc] at hstep
          obtain ⟨d, hd, rfl⟩ := Option.map_eq_some_iff.mp hstep
          exact h.setDeque ((h.deques w).step (by simp) hd) (of_eq_none rfl)
      | popping round =>
          rw [hpc] at hstep
          obtain ⟨d, hd, rfl⟩ := Option.map_eq_some_iff.mp hstep
          have hcontains := (h.deques w).step (by simp) hd
          have hidle : WorkDeque.Contains P { d with owner := .idle } :=
            ⟨hcontains.buffer, of_eq_none rfl, hcontains.thieves⟩
          split
          · rename_i job howner
            refine h.setDeque hidle fun x hx => ?_
            obtain rfl := Option.some.inj hx
            exact hcontains.owner _ (by rw [howner]; rfl)
          · exact h.setDeque hidle (of_eq_none rfl)
          · exact h.setDeque hcontains (of_eq_none rfl)
      | _ =>
          rw [hpc] at hstep
          cases hstep

theorem steal (h : Contents P s) (hstep : stepSteal s t (s.pc t) = some s') : Contents P s' := by
  cases hpc : s.pc t with
  | steal mode round i =>
      rw [hpc] at hstep
      simp only [stepSteal] at hstep
      split at hstep
      · split at hstep
        · obtain ⟨d, hd, rfl⟩ := Option.map_eq_some_iff.mp hstep
          exact h.setDeque ((h.deques _).step (by simp) hd) (of_eq_none rfl)
        · cases hstep
          exact h.goto rfl rfl rfl (of_eq_none rfl)
      · cases hstep
        refine h.goto rfl rfl rfl fun job hjob => ?_
        rw [mode.carries_exhausted round] at hjob
        cases hjob
  | stealing mode round i =>
      rw [hpc] at hstep
      simp only [stepSteal] at hstep
      split at hstep
      · obtain ⟨d, hd, rfl⟩ := Option.map_eq_some_iff.mp hstep
        have hcontains := (h.deques _).step (by simp) hd
        have hidle : WorkDeque.Contains P { d with thieves := update d.thieves t .idle } :=
          hcontains.setThief (of_eq_none rfl)
        split
        · rename_i job hthief
          refine h.setDeque hidle fun x hx => ?_
          obtain rfl := Option.some.inj hx
          exact hcontains.thieves t _ (by rw [hthief]; rfl)
        · exact h.setDeque hidle (of_eq_none rfl)
        · exact h.setDeque hcontains (of_eq_none rfl)
      · cases hstep
  | _ =>
      rw [hpc] at hstep
      cases hstep

/-- The steps that take no record and write to none. -/
theorem of_other (h : Contents P s) (hacts : (s.pc t).acts = false)
    (hstep : step s (.next t weak) = some s') : Contents P s' := by
  simp only [step, stepThread, Option.orElse_eq_orElse, Option.orElse_eq_or, Option.or_eq_some_iff]
    at hstep
  rcases hstep with hstep | ⟨-, hstep | ⟨-, hstep | ⟨-, hstep | ⟨-, hstep | ⟨-, hstep⟩⟩⟩⟩⟩
  · exact h.loop hstep
  · cases hpc : s.pc t with
    | submitNext descs => exact h.submitNext hpc hstep
    | _ =>
        rw [hpc] at hacts hstep
        first | (cases hstep; done) | cases hacts
  · exact h.take hstep
  · exact h.own hstep
  · exact h.steal hstep
  · cases hpc : s.pc t <;> rw [hpc] at hacts hstep <;> first | (cases hstep; done) | cases hacts

/-- A thread that carries a record goes on with it. -/
theorem carry (h : Contents P s) (hpc : s'.pc = update s.pc t pc') (hqueue : s'.submitQueue = s.submitQueue)
    (hdeques : s'.deques = s.deques) (hcarries : pc'.carries = (s.pc t).carries) : Contents P s' := by
  refine h.goto hpc hqueue hdeques fun job hjob => h.threads t job ?_
  rw [← hcarries]
  exact hjob

/-- The next step of a thread. -/
theorem next (h : Contents P s) (hflag : ∀ job desc descs, s.pc t = .submitFlag job desc descs → P job)
    (hstep : step s (.next t weak) = some s') : Contents P s' := by
  cases hpc : s.pc t with
  | submitAlloc desc descs =>
      rw [step_submitAlloc hpc] at hstep
      cases hstep
      exact h.goto rfl rfl rfl (of_eq_none rfl)
  | submitFill job desc descs =>
      rw [step_submitFill hpc] at hstep
      cases hstep
      exact h.goto rfl rfl rfl (of_eq_none rfl)
  | submitChildren job desc descs =>
      rw [step_submitChildren hpc] at hstep
      cases hstep
      exact h.goto rfl rfl rfl (of_eq_none rfl)
  | submitFlag job desc descs =>
      rw [step_submitFlag hpc] at hstep
      cases hstep
      refine h.goto rfl rfl rfl fun x hx => ?_
      obtain rfl := Option.some.inj hx
      exact hflag _ _ _ hpc
  | submitParent job desc descs =>
      cases hparent : desc.parent with
      | none =>
          rw [step_submitParent_none hpc hparent] at hstep
          cases hstep
          exact h.carry rfl rfl rfl (by rw [hpc]; rfl)
      | some parent =>
          rw [step_submitParent_some hpc hparent] at hstep
          cases hstep
          exact h.carry rfl rfl rfl (by rw [hpc]; rfl)
  | submitHead job descs =>
      rw [step_submitHead hpc] at hstep
      cases hstep
      exact h.carry rfl rfl rfl (by rw [hpc]; rfl)
  | submitWrite job pos descs =>
      have hjob := h.threads t job (by rw [hpc]; rfl)
      rw [step_submitWrite hpc] at hstep
      cases hstep
      refine h.write rfl rfl rfl (fun x hx => ?_) (of_eq_none rfl)
      obtain rfl := Option.some.inj hx
      exact hjob
  | call mode job =>
      rw [step_call hpc] at hstep
      cases hstep
      exact h.carry rfl rfl rfl (by rw [hpc]; rfl)
  | finish mode job =>
      rw [step_finish hpc] at hstep
      cases hstep
      exact h.carry rfl rfl rfl (by rw [hpc]; rfl)
  | parent mode job =>
      cases hparent : (s.jobPool job).parent with
      | none =>
          rw [step_parent_none hpc hparent] at hstep
          cases hstep
          exact h.goto rfl rfl rfl (of_eq_none rfl)
      | some parent =>
          rw [step_parent_some hpc hparent] at hstep
          cases hstep
          refine h.goto rfl rfl rfl fun x hx => ?_
          split at hx <;> cases hx
  | parentDone mode parent =>
      rw [step_parentDone hpc] at hstep
      cases hstep
      exact h.goto rfl rfl rfl (of_eq_none rfl)
  | _ => exact h.of_other (by rw [hpc]; rfl) hstep

end Contents

/-! ## Before a record is used again -/

/-- No record was used twice so far: a record that a thread has taken belongs to no job yet, and everything
in the ring, in the deques and in the hands of the threads belongs to one. -/
structure Fresh (owner : ℕ → Option ℕ) (s : State n Client) : Prop where
  contents : Contents (fun job => owner job ≠ none) s
  head_le : s.jobPoolHead ≤ jobPoolCapacity
  owner_lt : ∀ job k, owner job = some k → job < s.jobPoolHead
  taken : ∀ t job, (s.pc t).unflagged = some job → owner job = none ∧ job < s.jobPoolHead
  taken_unique : ∀ t u job, (s.pc t).unflagged = some job → (s.pc u).unflagged = some job → t = u

namespace Fresh

theorem init {s : State n Client} (h : Initial s) : Fresh (fun _ => none) s := by
  obtain ⟨d, hd, rfl⟩ := h
  have hnone : ∀ t : Thread n Client, ((poolCreate d : State n Client).pc t).unflagged = none := by
    intro t
    cases t <;> rfl
  refine ⟨Contents.init hd, Nat.zero_le _, fun _ => of_eq_none rfl, fun t job ht => ?_, fun t u job ht => ?_⟩
  · rw [hnone t] at ht
    cases ht
  · rw [hnone t] at ht
    cases ht

variable [DecidableEq Client] {owner : ℕ → Option ℕ} {s s' : State n Client} {t : Thread n Client}
  {pc' : Pc} {weak : Bool}

/-- A thread goes on with the record that it has taken. -/
theorem move (h : Fresh owner s) (hcontents : Contents (fun job => owner job ≠ none) s')
    (hhead : s'.jobPoolHead = s.jobPoolHead) (hpc : s'.pc = update s.pc t pc')
    (hunflagged : pc'.unflagged = (s.pc t).unflagged) : Fresh owner s' := by
  have hsame : ∀ u, (s'.pc u).unflagged = (s.pc u).unflagged :=
    Interleaving.apply_eq_of_update (f := Pc.unflagged) hpc hunflagged
  refine ⟨hcontents, ?_, ?_, ?_, ?_⟩
  · rw [hhead]
    exact h.head_le
  · rw [hhead]
    exact h.owner_lt
  · simp only [hsame, hhead]
    exact h.taken
  · simp only [hsame]
    exact h.taken_unique

/-- A thread calls a function, or loads a handle. -/
theorem goto (h : Fresh owner s) (hunflagged : pc'.unflagged = (s.pc t).unflagged)
    (hcarries : pc'.carries = none) : Fresh owner (s.goto t pc') := by
  refine h.move (h.contents.goto rfl rfl rfl fun x hx => ?_) rfl rfl hunflagged
  rw [hcarries] at hx
  cases hx

omit [DecidableEq Client] in
theorem shutdown (h : Fresh owner s) : Fresh owner { s with shutdownRequested := true } :=
  ⟨⟨h.contents.queue, h.contents.deques, h.contents.threads⟩, h.head_le, h.owner_lt, h.taken,
    h.taken_unique⟩

/-- A record is taken. -/
theorem submitAlloc (h : Fresh owner s) {desc : JobDesc} {descs : List JobDesc}
    (hlt : s.jobPoolHead < jobPoolCapacity) (hcontents : Contents (fun job => owner job ≠ none) s')
    (hpc' : s'.pc = update s.pc t (.submitFill (s.jobPoolHead % jobPoolCapacity) desc descs))
    (hhead : s'.jobPoolHead = (s.jobPoolHead + 1) % 2 ^ 32) : Fresh owner s' := by
  have hcapacity : jobPoolCapacity < 2 ^ 32 := by decide
  rw [Nat.mod_eq_of_lt hlt] at hpc'
  rw [Nat.mod_eq_of_lt (by omega)] at hhead
  refine ⟨hcontents, by omega, fun x k hk => ?_, fun u x hu => ?_, fun u v x hu hv => ?_⟩
  · rw [hhead]
    exact Nat.lt_succ_of_lt (h.owner_lt x k hk)
  · rw [hpc'] at hu
    rw [hhead]
    rcases Interleaving.apply_update_cases (f := Pc.unflagged) hu with ⟨-, hnew⟩ | ⟨-, hold⟩
    · obtain rfl := Option.some.inj hnew
      refine ⟨?_, Nat.lt_succ_self _⟩
      cases howner : owner s.jobPoolHead with
      | none => rfl
      | some k => exact absurd (h.owner_lt _ k howner) (lt_irrefl _)
    · exact ⟨(h.taken u x hold).1, Nat.lt_succ_of_lt (h.taken u x hold).2⟩
  · rw [hpc'] at hu hv
    refine Interleaving.apply_unique_update (f := Pc.unflagged) h.taken_unique (fun y hy w _ hw => ?_) u v x
      hu hv
    obtain rfl := Option.some.inj hy
    exact absurd (h.taken w _ hw).2 (lt_irrefl _)

/-- The completion flag is cleared, and the record belongs to a job. -/
theorem submitFlag (h : Fresh owner s) {job count : ℕ} {desc : JobDesc} {descs : List JobDesc}
    (hpc : s.pc t = .submitFlag job desc descs) (hstep : step s (.next t weak) = some s') :
    Fresh (update owner job (some count)) s' := by
  have hself : (s.pc t).unflagged = some job := by rw [hpc]; rfl
  have hcontents : Contents (fun x => update owner job (some count) x ≠ none) s' := by
    refine (h.contents.mono fun x hx => ?_).next (fun x _ _ hx => ?_) hstep
    · by_cases hxj : x = job
      · simp [hxj]
      · rwa [update_of_ne hxj]
    · rw [hpc] at hx
      cases hx
      simp
  rw [step_submitFlag hpc] at hstep
  cases hstep
  refine ⟨hcontents, h.head_le, fun x k hk => ?_, fun u x hu => ?_, fun u v x hu hv => ?_⟩
  · rcases Interleaving.update_cases hk with ⟨rfl, -⟩ | ⟨-, hold⟩
    · exact (h.taken t x hself).2
    · exact h.owner_lt x k hold
  · rcases Interleaving.apply_update_cases (f := Pc.unflagged) hu with ⟨-, hnew⟩ | ⟨hut, hold⟩
    · cases hnew
    · have hxj : x ≠ job := by
        rintro rfl
        exact hut (h.taken_unique u t x hold hself)
      rw [update_of_ne hxj]
      exact h.taken u x hold
  · exact Interleaving.apply_unique_update (f := Pc.unflagged) h.taken_unique (fun y hy => by cases hy) u v x
      hu hv

/-- The next step of a thread, while records are left that were not used. -/
theorem next {jobs : Jobs} (h : Fresh jobs.owner s)
    (hlt : ∀ desc descs, s.pc t = .submitAlloc desc descs → s.jobPoolHead < jobPoolCapacity)
    (hstep : step s (.next t weak) = some s') : Fresh (jobs.after (s.pc t)).owner s' := by
  by_cases hflag : ∃ job desc descs, s.pc t = .submitFlag job desc descs
  · obtain ⟨job, desc, descs, hpc⟩ := hflag
    rw [hpc]
    exact h.submitFlag hpc hstep
  have hcontents := h.contents.next
    (fun job desc descs hpc => absurd ⟨job, desc, descs, hpc⟩ hflag) hstep
  cases hpc : s.pc t with
  | submitAlloc desc descs =>
      rw [step_submitAlloc hpc] at hstep
      cases hstep
      exact h.submitAlloc (hlt desc descs hpc) hcontents rfl rfl
  | submitFlag job desc descs => exact absurd ⟨job, desc, descs, hpc⟩ hflag
  | submitWrite job pos descs =>
      rw [step_submitWrite hpc] at hstep
      cases hstep
      exact h.move hcontents rfl rfl (by rw [hpc]; rfl)
  | _ =>
      obtain ⟨pc', hsteps⟩ := Steps.of_next hstep
      exact h.move hcontents (hsteps.head (by rw [hpc]; rfl)) hsteps.pc
        (hsteps.unflagged (by rw [hpc]; rfl))

end Fresh

end JobSystem

end LgxRuntime.Threading
