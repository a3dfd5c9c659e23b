import LgxRuntime.Threading.JobContents
import LgxRuntime.Threading.JobHandles

/-!
# Handles last as long as nothing is used again too early

From the time at which a thread has taken a record until the handle is returned, the record stays with the
job, and afterwards it stays with the handle.
-/

namespace LgxRuntime.Threading.JobHandles

open Function (update update_self update_of_ne)
open Interleaving (apply_update_self update_cases apply_update_cases of_eq_none)
open JobSystem

variable {n : ℕ} {Client Home : Type} {r : Run n Client Home}

/-- Every handle that was or will be returned has the record of its job, and the completion flag of a record
is set only if its job was executed. -/
structure Steady (r : Run n Client Home) : Prop where
  taken : ∀ t job, (r.state.pc t).unflagged = some job → r.Spare job
  taken_unique : ∀ t u job, (r.state.pc t).unflagged = some job → (r.state.pc u).unflagged = some job →
    t = u
  submitting : ∀ t job, (r.state.pc t).unwritten = some job → r.jobs.owner job = some (r.number t)
  toStore : ∀ t job, r.toStore t = some job → r.jobs.owner job = some (r.number t)
  called : ∀ t job, finishes (r.state.pc t) = some job → ∀ k, r.jobs.owner job = some k →
    k ∈ r.jobs.executed
  flag : ∀ job k, r.jobs.owner job = some k → (r.state.jobPool job).completionFlag ≠ 0 →
    k ∈ r.jobs.executed
  issued : ∀ handle k, (handle, k) ∈ r.issued → handle.slot < r.index (handle.home, handle.kind) ∧
    ∃ job, r.storage handle = some job ∧ r.jobs.owner job = some k
  waiting : ∀ t handle k, r.waiting t = some (handle, k) → (handle, k) ∈ r.issued
  loaded : ∀ t, r.loaded t = true → ∃ job handle k, r.state.pc t = .enter (.waiter job) ∧
    r.waiting t = some (handle, k) ∧ r.storage handle = some job
  waited : ∀ handle k, (handle, k) ∈ r.waited → k ∈ r.jobs.executed

theorem Run.Spare.congr {r' : Run n Client Home} {job : ℕ} (h : r.Spare job) (hissued : r'.issued = r.issued)
    (hstorage : r'.storage = r.storage) (htoStore : r'.toStore = r.toStore)
    (hpc : r'.state.pc = r.state.pc) : r'.Spare job := by
  refine ⟨?_, ?_, ?_⟩
  · rw [hissued, hstorage]
    exact h.handles
  · rw [htoStore]
    exact h.stores
  · rw [hpc]
    exact h.unwritten

theorem Steady.init {s : State n Client} (h : JobSystem.Initial s) :
    Steady (start s : Run n Client Home) := by
  obtain ⟨d, -, rfl⟩ := h
  have hplaces : ∀ t : Thread n Client, ((poolCreate d : State n Client).pc t).record = none ∧
      finishes ((poolCreate d : State n Client).pc t) = none := by
    intro t
    cases t <;> exact ⟨rfl, rfl⟩
  refine ⟨fun t job ht => ?_, fun t u job ht => ?_, fun t job ht => ?_, fun _ => of_eq_none rfl,
    fun t => of_eq_none (hplaces t).2, fun _ => of_eq_none rfl, by simp [start], by simp [start],
    by simp [start], by simp [start]⟩
  · rw [start, Pc.unflagged_of_record (hplaces t).1] at ht
    cases ht
  · rw [start, Pc.unflagged_of_record (hplaces t).1] at ht
    cases ht
  · rw [start, Pc.unwritten_of_record (hplaces t).1] at ht
    cases ht

/-- The job of a handle was executed if the completion flag of the record of the handle is set. -/
theorem Steady.executed (h : Steady r) {handle : Handle Home} {k job : ℕ} (hissued : (handle, k) ∈ r.issued)
    (hjob : r.storage handle = some job) (hflag : (r.state.jobPool job).completionFlag ≠ 0) :
    k ∈ r.jobs.executed := by
  obtain ⟨-, job', hjob', howner⟩ := h.issued handle k hissued
  obtain rfl : job' = job := Option.some.inj (hjob'.symm.trans hjob)
  exact h.flag job' k howner hflag

theorem Steady.faithful (h : Steady r) : Faithful r := by
  refine ⟨fun handle k hk => (h.issued handle k hk).2, fun handle k hk hcomplete => ?_, h.waited⟩
  obtain ⟨-, job, hjob, -⟩ := h.issued handle k hk
  simp only [lgxJobIsComplete, hjob, decide_eq_true_eq] at hcomplete
  exact h.executed hk hjob hcomplete

theorem finishes_of_record {pc : Pc} (h : pc.record = none) : finishes pc = none := by
  cases pc <;> first | rfl | cases h

theorem exists_waiter_of_looks {pc : Pc} (h : looks pc = true) : ∃ job, pc = .enter (.waiter job) := by
  unfold looks at h
  split at h
  · rename_i job
    exact ⟨job, rfl⟩
  · cases h

/-- The places from which a step changes nothing but the pool. -/
def plain : Pc → Bool
  | .submitFlag _ _ _ | .submitWrite _ _ _ | .call _ _ | .enter (.waiter _) => false
  | _ => true

theorem Run.next_of_plain [DecidableEq Client] (r : Run n Client Home) {t : Thread n Client}
    {s' : State n Client} (hplain : plain (r.state.pc t) = true) :
    r.next t s' = { r with state := s', loaded := update r.loaded t false } := by
  cases hpc : r.state.pc t with
  | submitFlag job desc descs | submitWrite job pos descs | call mode job =>
      rw [hpc] at hplain
      cases hplain
  | enter mode =>
      cases mode with
      | worker => simp only [Run.next, hpc, Jobs.after]
      | waiter handle =>
          rw [hpc] at hplain
          cases hplain
  | _ => simp only [Run.next, hpc, Jobs.after]

namespace Steady

variable [DecidableEq Client] {t : Thread n Client} {pc' : Pc} {job : ℕ} {s' : State n Client}

/-! ## A thread moves on -/

/-- What is loaded by the other threads, after one of them has moved on. -/
theorem loaded_update (h : Steady r) (hpc : s'.pc = update r.state.pc t pc') (u : Thread n Client)
    (hu : update r.loaded t false u = true) : ∃ job handle k, s'.pc u = .enter (.waiter job) ∧
      r.waiting u = some (handle, k) ∧ r.storage handle = some job := by
  rcases update_cases hu with ⟨-, hnew⟩ | ⟨hut, hold⟩
  · cases hnew
  · rw [hpc, update_of_ne hut]
    exact h.loaded u hold

/-- A thread goes on with the record that it has, and more jobs may be executed.  Whatever flag it sets, or
is about to set, is that of a job that was executed. -/
theorem move (h : Steady r) {jobs' : Jobs} (howner : jobs'.owner = r.jobs.owner)
    (hexecuted : ∀ k ∈ r.jobs.executed, k ∈ jobs'.executed) (hpc : s'.pc = update r.state.pc t pc')
    (hunflagged : pc'.unflagged = (r.state.pc t).unflagged)
    (hunwritten : pc'.unwritten = (r.state.pc t).unwritten)
    (hfinishes : ∀ x, finishes pc' = some x → ∀ k, r.jobs.owner x = some k → k ∈ jobs'.executed)
    (hflag : ∀ x k, r.jobs.owner x = some k → (s'.jobPool x).completionFlag ≠ 0 →
      (r.state.jobPool x).completionFlag ≠ 0 ∨ k ∈ jobs'.executed) :
    Steady { r with state := s', jobs := jobs', loaded := update r.loaded t false } := by
  have hunflagged' : ∀ u, (s'.pc u).unflagged = (r.state.pc u).unflagged :=
    Interleaving.apply_eq_of_update (f := Pc.unflagged) hpc hunflagged
  have hunwritten' : ∀ u, (s'.pc u).unwritten = (r.state.pc u).unwritten :=
    Interleaving.apply_eq_of_update (f := Pc.unwritten) hpc hunwritten
  refine ⟨fun u x hu => ?_, fun u v x hu hv => ?_, fun u x hu => ?_, fun u x hu => ?_,
    fun u x hu k hk => ?_, fun x k hk hset => ?_, fun handle k hk => ?_, h.waiting, h.loaded_update hpc,
    fun handle k hk => hexecuted k (h.waited handle k hk)⟩
  · simp only [hunflagged'] at hu
    obtain ⟨hhandles, hstores, hfree⟩ := h.taken u x hu
    refine ⟨hhandles, hstores, fun v => ?_⟩
    simp only [hunwritten']
    exact hfree v
  · simp only [hunflagged'] at hu hv
    exact h.taken_unique u v x hu hv
  · simp only [hunwritten'] at hu
    simp only [howner]
    exact h.submitting u x hu
  · simp only [howner]
    exact h.toStore u x hu
  · simp only [howner] at hk
    simp only [hpc] at hu
    rcases apply_update_cases hu with ⟨-, hnew⟩ | ⟨-, hold⟩
    · exact hfinishes x hnew k hk
    · exact hexecuted k (h.called u x hold k hk)
  · simp only [howner] at hk
    rcases hflag x k hk hset with hold | hnew
    · exact hexecuted k (h.flag x k hk hold)
    · exact hnew
  · simp only [howner]
    exact h.issued handle k hk

/-- A thread goes on, and the flags that it sets are those of jobs that were executed. -/
theorem mark (h : Steady r) (hpc : s'.pc = update r.state.pc t pc')
    (hunflagged : pc'.unflagged = (r.state.pc t).unflagged)
    (hunwritten : pc'.unwritten = (r.state.pc t).unwritten) (hfinishes : finishes pc' = none)
    (hflag : ∀ x k, r.jobs.owner x = some k → (s'.jobPool x).completionFlag ≠ 0 →
      (r.state.jobPool x).completionFlag ≠ 0 ∨ k ∈ r.jobs.executed) :
    Steady { r with state := s', loaded := update r.loaded t false } :=
  h.move rfl (fun _ hk => hk) hpc hunflagged hunwritten (of_eq_none hfinishes) hflag

/-- A thread goes on and sets no flag. -/
theorem walk (h : Steady r) (hpc : s'.pc = update r.state.pc t pc')
    (hunflagged : pc'.unflagged = (r.state.pc t).unflagged)
    (hunwritten : pc'.unwritten = (r.state.pc t).unwritten) (hfinishes : finishes pc' = none)
    (hflag : ∀ x, (s'.jobPool x).completionFlag = (r.state.jobPool x).completionFlag) :
    Steady { r with state := s', loaded := update r.loaded t false } := by
  refine h.mark hpc hunflagged hunwritten hfinishes fun x k hk hset => Or.inl ?_
  rw [← hflag x]
  exact hset

/-- A job is executed. -/
theorem call (h : Steady r) {mode : Mode} (hpc : r.state.pc t = .call mode job)
    (hpc' : s'.pc = update r.state.pc t (.finish mode job)) (hpool : s'.jobPool = r.state.jobPool) :
    Steady
      { r with
        state := s'
        jobs := { r.jobs with executed := (r.jobs.owner job).toList ++ r.jobs.executed }
        loaded := update r.loaded t false } := by
  refine h.move rfl (fun k hk => List.mem_append_right _ hk) hpc' (by rw [hpc]; rfl) (by rw [hpc]; rfl)
    (fun x hx k hk => ?_) fun x k hk hset => Or.inl ?_
  · obtain rfl := Option.some.inj hx
    refine List.mem_append_left _ ?_
    rw [hk]
    exact List.mem_singleton_self k
  · rw [← hpool]
    exact hset

/-- A record is taken that no handle has. -/
theorem submitAlloc (h : Steady r) {desc : JobDesc} {descs : List JobDesc}
    (hpc : r.state.pc t = .submitAlloc desc descs) (hspare : r.Spare job)
    (hfree : ∀ u, (r.state.pc u).unflagged ≠ some job)
    (hpc' : s'.pc = update r.state.pc t (.submitFill job desc descs))
    (hpool : s'.jobPool = r.state.jobPool) :
    Steady { r with state := s', loaded := update r.loaded t false } := by
  have hunwritten : ∀ u, (s'.pc u).unwritten = (r.state.pc u).unwritten :=
    Interleaving.apply_eq_of_update (f := Pc.unwritten) hpc' (by rw [hpc]; rfl)
  have hfinishes : ∀ u, finishes (s'.pc u) = finishes (r.state.pc u) :=
    Interleaving.apply_eq_of_update hpc' (by rw [hpc]; rfl)
  refine ⟨fun u x hu => ?_, fun u v x hu hv => ?_, fun u x hu => ?_, h.toStore, fun u x hu => ?_,
    fun x k hk hset => ?_, h.issued, h.waiting, h.loaded_update hpc', h.waited⟩
  · have hx : r.Spare x := by
      simp only [hpc'] at hu
      rcases apply_update_cases (f := Pc.unflagged) hu with ⟨-, hnew⟩ | ⟨-, hold⟩
      · obtain rfl := Option.some.inj hnew
        exact hspare
      · exact h.taken u x hold
    refine ⟨hx.handles, hx.stores, fun v => ?_⟩
    simp only [hunwritten]
    exact hx.unwritten v
  · simp only [hpc'] at hu hv
    refine Interleaving.apply_unique_update (f := Pc.unflagged) h.taken_unique (fun y hy w _ hw => ?_) u v x
      hu hv
    obtain rfl := Option.some.inj hy
    exact hfree w hw
  · simp only [hunwritten] at hu
    exact h.submitting u x hu
  · simp only [hfinishes] at hu
    exact h.called u x hu
  · simp only [hpool] at hset
    exact h.flag x k hk hset

/-- The completion flag of a record is cleared, and the record belongs to the next job. -/
theorem submitFlag (h : Steady r) {desc : JobDesc} {descs : List JobDesc}
    (hpc : r.state.pc t = .submitFlag job desc descs)
    (hunfinished : ∀ u, finishes (r.state.pc u) ≠ some job) (hnone : r.toStore t = none)
    (hpc' : s'.pc = update r.state.pc t (.submitParent job desc descs))
    (hpool : s'.jobPool = update r.state.jobPool job { r.state.jobPool job with completionFlag := 0 }) :
    Steady
      { r with
        state := s'
        jobs := { r.jobs with
          owner := update r.jobs.owner job (some r.jobs.count)
          count := r.jobs.count + 1 }
        loaded := update r.loaded t false
        number := update r.number t r.jobs.count } := by
  have hself : (r.state.pc t).unflagged = some job := by rw [hpc]; rfl
  have hspare := h.taken t job hself
  have hfinishes : ∀ u, finishes (s'.pc u) = finishes (r.state.pc u) :=
    Interleaving.apply_eq_of_update hpc' (by rw [hpc]; rfl)
  refine ⟨fun u x hu => ?_, fun u v x hu hv => ?_, fun u x hu => ?_, fun u x hu => ?_,
    fun u x hu k hk => ?_, fun x k hk hset => ?_, fun handle k hk => ?_, h.waiting, h.loaded_update hpc',
    h.waited⟩
  · simp only [hpc'] at hu
    rcases apply_update_cases (f := Pc.unflagged) hu with ⟨-, hnew⟩ | ⟨hut, hold⟩
    · cases hnew
    · obtain ⟨hhandles, hstores, hfree⟩ := h.taken u x hold
      refine ⟨hhandles, hstores, fun v hv => ?_⟩
      simp only [hpc'] at hv
      rcases apply_update_cases (f := Pc.unwritten) hv with ⟨-, hnew⟩ | ⟨-, hv⟩
      · obtain rfl := Option.some.inj hnew
        exact hut (h.taken_unique u t _ hold hself)
      · exact hfree v hv
  · simp only [hpc'] at hu hv
    exact Interleaving.apply_unique_update (f := Pc.unflagged) h.taken_unique (fun y hy => by cases hy) u v x
      hu hv
  · simp only [hpc'] at hu
    rcases apply_update_cases (f := Pc.unwritten) hu with ⟨hut, hnew⟩ | ⟨hut, hold⟩
    · obtain rfl := Option.some.inj hnew
      simp only [hut, update_self]
    · have hxj : x ≠ job := by
        rintro rfl
        exact hspare.unwritten u hold
      simp only [update_of_ne hut, update_of_ne hxj]
      exact h.submitting u x hold
  · have hut : u ≠ t := by
      rintro rfl
      rw [hnone] at hu
      cases hu
    have hxj : x ≠ job := by
      rintro rfl
      exact hspare.stores u hu
    simp only [update_of_ne hut, update_of_ne hxj]
    exact h.toStore u x hu
  · simp only [hfinishes] at hu
    have hxj : x ≠ job := by
      rintro rfl
      exact hunfinished u hu
    simp only [update_of_ne hxj] at hk
    exact h.called u x hu k hk
  · rcases update_cases hk with ⟨hxj, -⟩ | ⟨hxj, hold⟩
    · simp only [hxj, hpool, update_self] at hset
      exact absurd rfl hset
    · simp only [hpool, update_of_ne hxj] at hset
      exact h.flag x k hold hset
  · obtain ⟨hslot, x, hx, howner⟩ := h.issued handle k hk
    have hxj : x ≠ job := by
      rintro rfl
      exact hspare.handles handle k hk hx
    refine ⟨hslot, x, hx, ?_⟩
    simp only [update_of_ne hxj]
    exact howner

/-- A record is put into the ring, and its handle may have to be written. -/
theorem submitWrite (h : Steady r) {pos : ℕ} {descs : List JobDesc}
    (hpc : r.state.pc t = .submitWrite job pos descs)
    (hpc' : s'.pc = update r.state.pc t (.submitNext descs)) (hpool : s'.jobPool = r.state.jobPool) :
    Steady
      { r with
        state := s'
        toStore := update r.toStore t ((r.out t).map fun _ => job)
        loaded := update r.loaded t false } := by
  have hself : (r.state.pc t).unwritten = some job := by rw [hpc]; rfl
  have hunflagged : ∀ u, (s'.pc u).unflagged = (r.state.pc u).unflagged :=
    Interleaving.apply_eq_of_update (f := Pc.unflagged) hpc' (by rw [hpc]; rfl)
  have hfinishes : ∀ u, finishes (s'.pc u) = finishes (r.state.pc u) :=
    Interleaving.apply_eq_of_update hpc' (by rw [hpc]; rfl)
  have hunwritten : ∀ u x, (s'.pc u).unwritten = some x → (r.state.pc u).unwritten = some x := by
    intro u x hu
    rw [hpc'] at hu
    rcases apply_update_cases (f := Pc.unwritten) hu with ⟨-, hnew⟩ | ⟨-, hold⟩
    · cases hnew
    · exact hold
  have hstores : ∀ u x, update r.toStore t ((r.out t).map fun _ => job) u = some x →
      u = t ∧ x = job ∨ r.toStore u = some x := by
    intro u x hu
    rcases update_cases hu with ⟨hut, hnew⟩ | ⟨-, hold⟩
    · obtain ⟨-, -, hx⟩ := Option.map_eq_some_iff.mp hnew
      exact Or.inl ⟨hut, hx.symm⟩
    · exact Or.inr hold
  refine ⟨fun u x hu => ?_, fun u v x hu hv => ?_, fun u x hu => h.submitting u x (hunwritten u x hu),
    fun u x hu => ?_, fun u x hu => ?_, fun x k hk hset => ?_, h.issued, h.waiting, h.loaded_update hpc',
    h.waited⟩
  · simp only [hunflagged] at hu
    have hspare := h.taken u x hu
    refine ⟨hspare.handles, fun v hv => ?_, fun v hv => hspare.unwritten v (hunwritten v x hv)⟩
    rcases hstores v x hv with ⟨-, rfl⟩ | hold
    · exact hspare.unwritten t hself
    · exact hspare.stores v hold
  · simp only [hunflagged] at hu hv
    exact h.taken_unique u v x hu hv
  · rcases hstores u x hu with ⟨rfl, rfl⟩ | hold
    · exact h.submitting u x hself
    · exact h.toStore u x hold
  · simp only [hfinishes] at hu
    exact h.called u x hu
  · simp only [hpool] at hset
    exact h.flag x k hk hset

omit [DecidableEq Client] in
/-- The flag of one more record is set, whose job was executed. -/
theorem flag_or_executed (hjob : ∀ k, r.jobs.owner job = some k → k ∈ r.jobs.executed) (x k : ℕ)
    (hk : r.jobs.owner x = some k)
    (hset : ((r.state.setJob job fun j => { j with completionFlag := 1 }).jobPool x).completionFlag ≠ 0) :
    (r.state.jobPool x).completionFlag ≠ 0 ∨ k ∈ r.jobs.executed := by
  by_cases hxj : x = job
  · subst hxj
    exact Or.inr (hjob k hk)
  · simp only [State.setJob, update_of_ne hxj] at hset
    exact Or.inl hset

/-- The steps that keep the record and write no completion flag. -/
theorem other (h : Steady r) {weak : Bool} (hhands : (r.state.pc t).hands = false)
    (hmarks : (r.state.pc t).marks = false) (hplain : plain (r.state.pc t) = true)
    (hstep : JobSystem.step r.state (.next t weak) = some s') : Steady (r.next t s') := by
  obtain ⟨pc', hsteps⟩ := Steps.of_next hstep
  have hcall : ∀ mode job, r.state.pc t ≠ .call mode job := by
    intro mode job hpc
    rw [hpc] at hplain
    cases hplain
  have hfinishes : finishes pc' = none := by
    cases hpc : pc' with
    | finish mode job => exact absurd hpc (hsteps.finish hcall mode job)
    | _ => rfl
  rw [r.next_of_plain hplain]
  exact h.walk hsteps.pc (hsteps.unflagged hhands) (hsteps.unwritten hhands) hfinishes (hsteps.flag hmarks)

/-- A thread that waits looks at the completion flag of the record that it has loaded. -/
theorem look (h : Steady r) {weak : Bool} (hpc : r.state.pc t = .enter (.waiter job))
    (hloaded : r.loaded t = true) (hstep : JobSystem.step r.state (.next t weak) = some s') :
    Steady (r.next t s') := by
  obtain ⟨job', handle, k, hpc', hwaiting, hstorage⟩ := h.loaded t hloaded
  rw [hpc] at hpc'
  cases hpc'
  have hresult : JobSystem.step r.state (.next t weak) = some (r.state.goto t
      (if (r.state.jobPool job).completionFlag = 0 then .loadTail (.waiter job)
        else .returns .success)) := by
    simp only [JobSystem.step, stepThread, hpc]
    rfl
  rw [hresult] at hstep
  cases hstep
  by_cases hflag : (r.state.jobPool job).completionFlag = 0
  · rw [if_pos hflag]
    simp only [Run.next, hpc, Jobs.after, State.goto, update_self]
    exact h.walk rfl (by rw [hpc]; rfl) (by rw [hpc]; rfl) rfl fun x => rfl
  · rw [if_neg hflag]
    simp only [Run.next, hpc, Jobs.after, State.goto, update_self]
    have hmoved : Steady
        { r with state := r.state.goto t (.returns .success), loaded := update r.loaded t false } :=
      h.walk rfl (by rw [hpc]; rfl) (by rw [hpc]; rfl) rfl fun x => rfl
    refine
      { hmoved with
        taken := fun u x hu => (hmoved.taken u x hu).congr rfl rfl rfl rfl
        waited := fun handle' k' hk' => ?_ }
    rcases List.mem_append.mp hk' with hnew | hold
    · rw [hwaiting] at hnew
      cases List.mem_singleton.mp hnew
      exact h.executed (h.waiting t handle k hwaiting) hstorage hflag
    · exact h.waited handle' k' hold

variable {home : Thread n Client → Home}

/-- The next step of a thread in the pool. -/
theorem next (h : Steady r) {weak : Bool} (hready : r.ready t = true)
    (hlasting : Lasting home r (.next t weak)) (hstep : JobSystem.step r.state (.next t weak) = some s') :
    Steady (r.next t s') := by
  simp only [Run.ready, Bool.and_eq_true, Option.isNone_iff_eq_none] at hready
  obtain ⟨hstored, hready⟩ := hready
  cases hpc : r.state.pc t with
  | submitAlloc desc descs =>
      rw [step_submitAlloc hpc] at hstep
      cases hstep
      rw [r.next_of_plain (by rw [hpc]; rfl)]
      simp only [Lasting, hpc] at hlasting
      exact h.submitAlloc hpc hlasting.1 hlasting.2 rfl rfl
  | submitFlag job desc descs =>
      rw [step_submitFlag hpc] at hstep
      cases hstep
      simp only [Lasting, hpc] at hlasting
      simp only [Run.next, hpc, Jobs.after]
      exact h.submitFlag hpc hlasting hstored rfl rfl
  | submitWrite job pos descs =>
      rw [step_submitWrite hpc] at hstep
      cases hstep
      simp only [Run.next, hpc, Jobs.after]
      exact h.submitWrite hpc rfl rfl
  | call mode job =>
      rw [step_call hpc] at hstep
      cases hstep
      simp only [Run.next, hpc, Jobs.after]
      exact h.call hpc rfl rfl
  | finish mode job =>
      rw [step_finish hpc] at hstep
      cases hstep
      rw [r.next_of_plain (by rw [hpc]; rfl)]
      exact h.mark rfl (by rw [hpc]; rfl) (by rw [hpc]; rfl) rfl
        (flag_or_executed fun k => h.called t job (by rw [hpc]; rfl) k)
  | parentDone mode parent =>
      rw [step_parentDone hpc] at hstep
      cases hstep
      rw [r.next_of_plain (by rw [hpc]; rfl)]
      simp only [Lasting, hpc] at hlasting
      exact h.mark rfl (by rw [hpc]; rfl) (by rw [hpc]; rfl) rfl (flag_or_executed hlasting)
  | enter mode =>
      cases mode with
      | worker => exact h.other (by rw [hpc]; rfl) (by rw [hpc]; rfl) (by rw [hpc]; rfl) hstep
      | waiter job =>
          refine h.look hpc ?_ hstep
          simpa [hpc, looks] using hready
  | _ => exact h.other (by rw [hpc]; rfl) (by rw [hpc]; rfl) (by rw [hpc]; rfl) hstep

/-! ## The other steps -/

/-- A client calls a function. -/
theorem enter (h : Steady r) {c : Client} {out' : Thread n Client → Option Kind}
    {waiting' : Option (Handle Home × ℕ)} (hstep : enterCall r.state c pc' = some s')
    (hnone : pc'.record = none)
    (hwaiting : ∀ handle k, waiting' = some (handle, k) → (handle, k) ∈ r.issued) :
    Steady { r with state := s', out := out', waiting := update r.waiting (.client c) waiting' } := by
  obtain ⟨hidle, rfl⟩ := enterCall_eq hstep
  have hloaded : r.loaded (.client c) = false := by
    cases hloaded : r.loaded (.client c) with
    | false => rfl
    | true =>
        obtain ⟨job, -, -, hpc, -⟩ := h.loaded (.client c) hloaded
        rw [hidle] at hpc
        cases hpc
  have hmoved : Steady
      { r with
        state := r.state.goto (.client c) pc'
        loaded := update r.loaded (.client c) false } := by
    refine h.walk rfl ?_ ?_ (finishes_of_record hnone) fun x => rfl
    · rw [Pc.unflagged_of_record hnone, hidle]
      rfl
    · rw [Pc.unwritten_of_record hnone, hidle]
      rfl
  refine
    { hmoved with
      taken := fun u x hu => (hmoved.taken u x hu).congr rfl rfl rfl rfl
      waiting := fun u handle k hu => ?_
      loaded := fun u hu => ?_ }
  · rcases update_cases hu with ⟨-, hnew⟩ | ⟨-, hold⟩
    · exact hwaiting handle k hnew
    · exact h.waiting u handle k hold
  · have huc : u ≠ .client c := by
      rintro rfl
      exact absurd (hloaded.symm.trans hu) Bool.false_ne_true
    simp only [update_of_ne huc, State.goto]
    exact h.loaded u hu

/-- A client calls a function that does not wait. -/
theorem enter_submit (h : Steady r) {c : Client} {out' : Thread n Client → Option Kind}
    (hstep : enterCall r.state c pc' = some s') (hnone : pc'.record = none) :
    Steady { r with state := s', out := out' } := by
  have hmoved : Steady
      { r with
        state := s'
        out := out'
        waiting := update r.waiting (.client c) (r.waiting (.client c)) } :=
    h.enter hstep hnone (h.waiting (.client c))
  rw [Function.update_eq_self] at hmoved
  exact hmoved

omit [DecidableEq Client] in
theorem shutdown (h : Steady r) : Steady { r with state := { r.state with shutdownRequested := true } } :=
  { h with taken := fun u x hu => (h.taken u x hu).congr rfl rfl rfl rfl }

/-- A thread that waits loads the record from the handle. -/
theorem load (h : Steady r) {handle : Handle Home} {k : ℕ} (hwaiting : r.waiting t = some (handle, k))
    (hlooks : looks (r.state.pc t) = true) (hjob : r.storage handle = some job) :
    Steady
      { r with
        state := r.state.goto t (.enter (.waiter job))
        loaded := update r.loaded t true } := by
  obtain ⟨old, hpc⟩ := exists_waiter_of_looks hlooks
  have hmoved : Steady
      { r with
        state := r.state.goto t (.enter (.waiter job))
        loaded := update r.loaded t false } :=
    h.walk rfl (by rw [hpc]; rfl) (by rw [hpc]; rfl) rfl fun x => rfl
  refine
    { hmoved with
      taken := fun u x hu => (hmoved.taken u x hu).congr rfl rfl rfl rfl
      loaded := fun u hu => ?_ }
  rcases update_cases hu with ⟨rfl, -⟩ | ⟨hut, hold⟩
  · exact ⟨job, handle, k, update_self u _ _, hwaiting, hjob⟩
  · simp only [State.goto, update_of_ne hut]
    exact h.loaded u hold

variable [DecidableEq Home]

/-- A handle is written into an entry that was not used before. -/
theorem store (h : Steady r) {kind : Kind} (hjob : r.toStore t = some job)
    (hlt : r.index (home t, kind) < kind.capacity) : Steady (r.store home t job kind) := by
  have hcapacity : kind.capacity < 2 ^ 32 := by cases kind <;> decide
  have hnew : ∀ {handle k}, (handle, k) ∈ r.issued →
      handle ≠ ⟨home t, kind, r.index (home t, kind)⟩ := by
    rintro handle k hk rfl
    exact absurd (h.issued _ k hk).1 (lt_irrefl _)
  have hindex : ∀ at', r.index at' ≤ update r.index (home t, kind) (r.index (home t, kind) + 1) at' := by
    intro at'
    by_cases hat : at' = (home t, kind)
    · rw [hat, update_self]
      exact Nat.le_succ _
    · rw [update_of_ne hat]
  have hsucc : r.index (home t, kind) + 1 < 2 ^ 32 := by omega
  simp only [Run.store, Nat.mod_eq_of_lt hlt, Nat.mod_eq_of_lt hsucc]
  have hstores : ∀ u x, update r.toStore t none u = some x → r.toStore u = some x := by
    intro u x hu
    rcases update_cases hu with ⟨-, hnone⟩ | ⟨-, hold⟩
    · cases hnone
    · exact hold
  refine ⟨fun u x hu => ?_, h.taken_unique, h.submitting, fun u x hu => h.toStore u x (hstores u x hu),
    h.called, h.flag, fun handle k hk => ?_, fun u handle k hu => ?_, fun u hu => ?_, h.waited⟩
  · have hspare := h.taken u x hu
    refine ⟨fun handle k hk hx => ?_, fun v hv => hspare.stores v (hstores v x hv), hspare.unwritten⟩
    rcases update_cases hx with ⟨-, hx⟩ | ⟨hne, hx⟩
    · obtain rfl := Option.some.inj hx
      exact hspare.stores t hjob
    · rcases List.mem_cons.mp hk with hself | hold
      · exact hne (Prod.mk.inj hself).1
      · exact hspare.handles handle k hold hx
  · rcases List.mem_cons.mp hk with hself | hold
    · cases hself
      refine ⟨?_, job, update_self _ _ _, h.toStore t job hjob⟩
      simp only [update_self]
      exact Nat.lt_succ_self _
    · obtain ⟨hslot, x, hx, howner⟩ := h.issued handle k hold
      refine ⟨lt_of_lt_of_le hslot (hindex _), x, ?_, howner⟩
      simp only [update_of_ne (hnew hold)]
      exact hx
  · exact List.mem_cons_of_mem _ (h.waiting u handle k hu)
  · obtain ⟨x, handle, k, hpc, hwaiting, hx⟩ := h.loaded u hu
    refine ⟨x, handle, k, hpc, hwaiting, ?_⟩
    simp only [update_of_ne (hnew (h.waiting u handle k hwaiting))]
    exact hx

/-- One step. -/
theorem step (h : Steady r) {r' : Run n Client Home} {a : Action n Client Home} (hallowed : Allowed r a)
    (hlasting : Lasting home r a) (hstep : JobHandles.step home r a = some r') : Steady r' := by
  cases a with
  | submit c desc handles =>
      obtain ⟨s', hs', rfl⟩ := Option.map_eq_some_iff.mp hstep
      exact h.enter_submit hs' rfl
  | submitBatch c descs handles =>
      obtain ⟨s', hs', rfl⟩ := Option.map_eq_some_iff.mp hstep
      cases descs <;> exact h.enter_submit hs' rfl
  | wait c handle =>
      cases handle with
      | none =>
          obtain ⟨s', hs', rfl⟩ := Option.map_eq_some_iff.mp hstep
          exact h.enter_submit hs' rfl
      | some handle =>
          obtain ⟨handle, k⟩ := handle
          obtain ⟨s', hs', rfl⟩ := Option.map_eq_some_iff.mp hstep
          obtain ⟨-, job, hjob, -⟩ := h.issued handle k hallowed
          rw [hjob] at hs'
          refine h.enter hs' rfl fun handle' k' hk' => ?_
          cases hk'
          exact hallowed
  | next t weak =>
      simp only [JobHandles.step] at hstep
      split at hstep
      · rename_i hready
        obtain ⟨s', hs', rfl⟩ := Option.map_eq_some_iff.mp hstep
        exact h.next hready hlasting hs'
      · cases hstep
  | store t =>
      simp only [JobHandles.step] at hstep
      split at hstep
      · rename_i job kind hjob hout
        cases hstep
        exact h.store hjob (hlasting kind hout)
      · cases hstep
  | load t =>
      simp only [JobHandles.step] at hstep
      split at hstep
      · rename_i handle k hwaiting
        obtain ⟨hlooks, hstep⟩ := Option.ite_none_right_eq_some.mp hstep
        obtain ⟨job, hjob, rfl⟩ := Option.map_eq_some_iff.mp hstep
        rw [Bool.and_eq_true] at hlooks
        exact h.load hwaiting hlooks.1 hjob
      · cases hstep
  | shutdown =>
      cases hstep
      exact h.shutdown

end Steady

section

variable [DecidableEq Client] [DecidableEq Home] {home : Thread n Client → Home}

theorem steady_of_lastingReachable (h : LastingReachable home r) : Steady r := by
  refine Interleaving.Reachable.invariant h ?_ fun r r' a hr hallowed hstep => ?_
  · rintro r ⟨s, hs, rfl⟩
    exact Steady.init hs
  · exact hr.step hallowed.1 hallowed.2 hstep

/-- As long as every step is lasting, a handle designates the job for which it was returned. -/
theorem faithful_of_lastingReachable (h : LastingReachable home r) : Faithful r :=
  (steady_of_lastingReachable h).faithful

end

/-- `Allowed` and `Lasting`, for one worker and one client. -/
def lastingCheck (r : Run 1 Unit (Thread 1 Unit)) : Action 1 Unit (Thread 1 Unit) → Bool
  | .wait _ (some handle) => decide (handle ∈ r.issued)
  | .next t _ =>
      match r.state.pc t with
      | .submitAlloc _ _ =>
          let job := r.state.jobPoolHead % jobPoolCapacity
          r.issued.all (fun handle => decide (r.storage handle.1 ≠ some job)) &&
            (threadsOf [()]).all fun u =>
              decide (r.toStore u ≠ some job ∧ (r.state.pc u).unwritten ≠ some job ∧
                (r.state.pc u).unflagged ≠ some job)
      | .submitFlag job _ _ =>
          (threadsOf [()]).all fun u => decide (finishes (r.state.pc u) ≠ some job)
      | .parentDone _ parent => (r.jobs.owner parent).all fun k => decide (k ∈ r.jobs.executed)
      | _ => true
  | .store t => (r.out t).all fun kind => decide (r.index (t, kind) < kind.capacity)
  | _ => true

theorem lasting_of_check {r : Run 1 Unit (Thread 1 Unit)} {a : Action 1 Unit (Thread 1 Unit)}
    (hcheck : lastingCheck r a = true) : Allowed r a ∧ Lasting id r a := by
  have hthreads : ∀ u : Thread 1 Unit, u ∈ threadsOf [()] := mem_threadsOf (by simp)
  cases a with
  | wait c handle =>
      cases handle with
      | none => exact ⟨trivial, trivial⟩
      | some handle =>
          have hissued : handle ∈ r.issued := of_decide_eq_true hcheck
          exact ⟨hissued, trivial⟩
  | next t weak =>
      refine ⟨trivial, ?_⟩
      cases hpc : r.state.pc t with
      | submitAlloc desc descs =>
          simp only [Lasting, hpc]
          simp only [lastingCheck, hpc, Bool.and_eq_true, List.all_eq_true, decide_eq_true_eq] at hcheck
          obtain ⟨hissued, hfree⟩ := hcheck
          exact ⟨⟨fun handle k hk => hissued (handle, k) hk, fun u => (hfree u (hthreads u)).1,
            fun u => (hfree u (hthreads u)).2.1⟩, fun u => (hfree u (hthreads u)).2.2⟩
      | submitFlag job desc descs =>
          simp only [Lasting, hpc]
          simp only [lastingCheck, hpc, List.all_eq_true, decide_eq_true_eq] at hcheck
          exact fun u => hcheck u (hthreads u)
      | parentDone mode parent =>
          simp only [Lasting, hpc]
          simp only [lastingCheck, hpc] at hcheck
          intro k hk
          rw [hk] at hcheck
          exact of_decide_eq_true hcheck
      | _ => simp only [Lasting, hpc]
  | store t =>
      refine ⟨trivial, fun kind hkind => ?_⟩
      simp only [lastingCheck, hkind] at hcheck
      exact of_decide_eq_true hcheck
  | _ => exact ⟨trivial, trivial⟩

/-- A client waits for a job and then for the two jobs of a batch, of which one has the first job as its
parent. -/
theorem faithful_after_waits : ∃ r : Run 1 Unit (Thread 1 Unit), LastingReachable id r ∧
    r.waited = [(⟨.client (), .batch, 1⟩, 2), (⟨.client (), .single, 0⟩, 0)] ∧ r.jobs.executed = [2, 1, 0] ∧
    Faithful r := by
  let d : WorkDeque.Deque ℕ :=
    { buffer := fun _ => none, top := 0, bottom := 0, capacity := 1024, mask := 1023 }
  let client (k : ℕ) : List (Action 1 Unit (Thread 1 Unit)) := List.replicate k (.next (.client ()) false)
  let actions : List (Action 1 Unit (Thread 1 Unit)) :=
    .submit () ⟨1, 10, none⟩ true :: client 8 ++ .store (.client ()) :: client 2 ++
      .wait () (some (⟨.client (), .single, 0⟩, 0)) :: .load (.client ()) :: client 9 ++
      .load (.client ()) :: client 2 ++
      .submitBatch () [⟨2, 20, none⟩, ⟨3, 30, some 0⟩] true :: client 8 ++ .store (.client ()) ::
      client 8 ++ .store (.client ()) :: client 2 ++
      .wait () (some (⟨.client (), .batch, 1⟩, 2)) :: .load (.client ()) :: client 9 ++
      .load (.client ()) :: client 10 ++ .load (.client ()) :: client 2
  have hresult : (Interleaving.run (Interleaving.guarded (step id) lastingCheck) actions
      (start (poolCreate d))).map (fun r => (r.waited, r.jobs.executed)) =
      some ([(⟨.client (), .batch, 1⟩, 2), (⟨.client (), .single, 0⟩, 0)], [2, 1, 0]) := by
    decide +kernel
  have hinit : LastingReachable id (start (poolCreate d) : Run 1 Unit (Thread 1 Unit)) :=
    .init ⟨_, ⟨d, rfl, rfl⟩, rfl⟩
  obtain ⟨r, hreach, hr⟩ := hinit.exists_of_run_guarded (fun _ _ _ => lasting_of_check) hresult
  obtain ⟨hwaited, hexecuted⟩ : r.waited = [(⟨.client (), .batch, 1⟩, 2), (⟨.client (), .single, 0⟩, 0)] ∧
      r.jobs.executed = [2, 1, 0] := by
    simpa only [Prod.mk.injEq] using hr
  exact ⟨r, hreach, hwaited, hexecuted, faithful_of_lastingReachable hreach⟩

/-! ## Few submissions -/

section

variable [DecidableEq Client] [DecidableEq Home] {home : Thread n Client → Home}

omit [DecidableEq Client] [DecidableEq Home] in
/-- As long as no record was used twice, the next one that is taken is spare, and nobody sets the completion
flag of a record that belongs to no job yet. -/
theorem lasting_of_few {a : Action n Client Home} (hsteady : Steady r)
    (hfresh : Fresh r.jobs.owner r.state) (hfew : Few home r a) : Lasting home r a := by
  cases a with
  | next t weak =>
      cases hpc : r.state.pc t with
      | submitAlloc desc descs =>
          simp only [Few, hpc] at hfew
          simp only [Lasting, hpc, Nat.mod_eq_of_lt hfew]
          have hunowned : ∀ k, r.jobs.owner r.state.jobPoolHead ≠ some k := by
            intro k hk
            exact absurd (hfresh.owner_lt _ k hk) (lt_irrefl _)
          refine ⟨⟨fun handle k hk hjob => ?_, fun u hu => ?_, fun u hu => ?_⟩, fun u hu => ?_⟩
          · obtain ⟨-, job, hjob', howner⟩ := hsteady.issued handle k hk
            obtain rfl : job = r.state.jobPoolHead := Option.some.inj (hjob'.symm.trans hjob)
            exact hunowned k howner
          · exact hunowned _ (hsteady.toStore u _ hu)
          · exact hunowned _ (hsteady.submitting u _ hu)
          · exact absurd (hfresh.taken u _ hu).2 (lt_irrefl _)
      | submitFlag job desc descs =>
          simp only [Lasting, hpc]
          intro u hu
          have hcarries : (r.state.pc u).carries = some job := by
            cases hpcu : r.state.pc u <;> rw [hpcu] at hu <;> first | exact hu | cases hu
          exact hfresh.contents.threads u job hcarries (hfresh.taken t job (by rw [hpc]; rfl)).1
      | parentDone mode parent =>
          simp only [Few, hpc] at hfew
          simp only [Lasting, hpc]
          exact hfew
      | _ => simp only [Lasting, hpc]
  | store t => exact hfew
  | _ => trivial

/-- The records in one step. -/
theorem fresh_step {r' : Run n Client Home} {a : Action n Client Home}
    (hfresh : Fresh r.jobs.owner r.state) (hfew : Few home r a) (hstep : step home r a = some r') :
    Fresh r'.jobs.owner r'.state := by
  -- a client that calls a function has no record
  have henter : ∀ {c pc' s'}, enterCall r.state c pc' = some s' → pc'.unflagged = none →
      pc'.carries = none → Fresh r.jobs.owner s' := by
    intro c pc' s' hs' hunflagged hcarries
    obtain ⟨hidle, rfl⟩ := enterCall_eq hs'
    refine hfresh.goto ?_ hcarries
    rw [hidle]
    exact hunflagged
  cases a with
  | submit c desc handles =>
      obtain ⟨s', hs', rfl⟩ := Option.map_eq_some_iff.mp hstep
      exact henter hs' rfl rfl
  | submitBatch c descs handles =>
      obtain ⟨s', hs', rfl⟩ := Option.map_eq_some_iff.mp hstep
      cases descs <;> exact henter hs' rfl rfl
  | wait c handle =>
      cases handle with
      | none =>
          obtain ⟨s', hs', rfl⟩ := Option.map_eq_some_iff.mp hstep
          exact henter hs' rfl rfl
      | some handle =>
          obtain ⟨s', hs', rfl⟩ := Option.map_eq_some_iff.mp hstep
          cases hjob : r.storage handle.1 <;> rw [hjob] at hs' <;> exact henter hs' rfl rfl
  | next t weak =>
      simp only [step] at hstep
      split at hstep
      · obtain ⟨s', hs', rfl⟩ := Option.map_eq_some_iff.mp hstep
        refine hfresh.next (fun desc descs hpc => ?_) hs'
        simpa only [Few, hpc] using hfew
      · cases hstep
  | store t =>
      simp only [step] at hstep
      split at hstep
      · cases hstep
        exact hfresh
      · cases hstep
  | load t =>
      simp only [step] at hstep
      split at hstep
      · obtain ⟨hlooks, hstep⟩ := Option.ite_none_right_eq_some.mp hstep
        obtain ⟨job, -, rfl⟩ := Option.map_eq_some_iff.mp hstep
        rw [Bool.and_eq_true] at hlooks
        obtain ⟨old, hpc⟩ := exists_waiter_of_looks hlooks.1
        refine hfresh.goto ?_ rfl
        rw [hpc]
        rfl
      · cases hstep
  | shutdown =>
      cases hstep
      exact hfresh.shutdown

/-- With few submissions every step is lasting, so that every handle designates its job. -/
theorem lastingReachable_of_fewReachable (h : FewReachable home r) : LastingReachable home r := by
  have hboth : LastingReachable home r ∧ Fresh r.jobs.owner r.state := by
    refine Interleaving.Reachable.invariant
      (I := fun r => LastingReachable home r ∧ Fresh r.jobs.owner r.state) h ?_
      fun r r' a hr hallowed hstep => ?_
    · rintro r ⟨s, hs, rfl⟩
      exact ⟨.init ⟨s, hs, rfl⟩, Fresh.init hs⟩
    · obtain ⟨hreach, hfresh⟩ := hr
      have hlasting := lasting_of_few (steady_of_lastingReachable hreach) hfresh hallowed.2
      exact ⟨hreach.step a ⟨hallowed.1, hlasting⟩ hstep, fresh_step hfresh hallowed.2 hstep⟩
  exact hboth.1

end

end LgxRuntime.Threading.JobHandles
