import LgxRuntime.Threading.JobSystemInvariant
import LgxRuntime.Threading.JobTrace

/-!
# Shutting down the job system

`lgx_threading_shutdown` requests the shutdown and waits until every worker has left its loop.  A worker
looks at the request before it looks for a job: what is in the ring and in the deques then is not executed
any more.

If the last worker only leaves when nothing is left, then all jobs were executed whose submission has
returned before the request.
-/

namespace LgxRuntime.Threading.JobShutdown

open Function (update update_self update_of_ne)
open Interleaving (apply_update_self)
open JobSystem

variable {n : ℕ} {Client : Type}

/-! ## Runs -/

/-- The pool, with the jobs that the current call of a thread has put into the ring, and the jobs of the
calls that have returned `LGX_THREADING_SUCCESS` before the shutdown. -/
structure Run (n : ℕ) (Client : Type) where
  state : State n Client
  jobs : Jobs
  put : Thread n Client → List ℕ
  accepted : List ℕ

variable [DecidableEq Client]

/-- The next step of a thread, which leads to a state of the pool. -/
def Run.next (r : Run n Client) (t : Thread n Client) (s' : State n Client) : Run n Client :=
  { state := s'
    jobs := r.jobs.after (r.state.pc t)
    put := match r.state.pc t with
      | .submitWrite job _ _ => update r.put t ((r.jobs.owner job).toList ++ r.put t)
      | .returns _ => update r.put t []
      | _ => r.put
    accepted := match r.state.pc t with
      | .returns .success => if r.state.shutdownRequested then r.accepted else r.put t ++ r.accepted
      | _ => r.accepted }

/-- One step. -/
def step (r : Run n Client) (a : Action n Client) : Option (Run n Client) :=
  (JobSystem.step r.state a).map fun s' =>
    match a with
    | .next t _ => r.next t s'
    | _ => { r with state := s' }

/-- A new pool. -/
def Initial (r : Run n Client) : Prop :=
  ∃ s, JobSystem.Initial s ∧ r = { state := s, jobs := .init, put := fun _ => [], accepted := [] }

/-- The states of the runs of any number of workers and clients. -/
def Reachable : Run n Client → Prop :=
  Interleaving.Reachable Initial step fun _ _ => True

/-- When all workers have ended, and `lgx_threading_shutdown` returns, every job was executed whose
submission had returned before. -/
def Drained (r : Run n Client) : Prop :=
  (∀ w, r.state.pc (.worker w) = .exited) → ∀ k ∈ r.accepted, k ∈ r.jobs.executed

/-- All workers have ended. -/
def ended (s : State n Client) : Bool :=
  (List.finRange n).all fun w =>
    match s.pc (.worker w) with
    | .exited => true
    | _ => false

omit [DecidableEq Client] in
theorem exited_of_ended {s : State n Client} (h : ended s = true) (w : Fin n) :
    s.pc (.worker w) = .exited := by
  have hended := List.all_eq_true.mp h w (List.mem_finRange w)
  split at hended
  · rename_i hpc
    exact hpc
  · cases hended

/-- A job that was accepted is in the ring when the worker finds the request of a shutdown. -/
theorem not_drained_of_shutdown : ∃ r : Run 1 Unit, Reachable r ∧ r.accepted = [0] ∧
    r.jobs.executed = [] ∧ r.state.called = [] ∧ ¬ Drained r := by
  let d : WorkDeque.Deque ℕ :=
    { buffer := fun _ => none, top := 0, bottom := 0, capacity := 1024, mask := 1023 }
  let actions : List (Action 1 Unit) :=
    .submit () ⟨7, 42, none⟩ :: List.replicate 10 (.next (.client ()) false) ++
      [.shutdown, .next (.worker 0) false]
  let start : Run 1 Unit := { state := poolCreate d, jobs := .init, put := fun _ => [], accepted := [] }
  have hresult : (Interleaving.run step actions start).map
      (fun r => (r.accepted, r.jobs.executed, r.state.called, ended r.state)) =
      some ([0], [], [], true) := by
    decide +kernel
  obtain ⟨r, hrun, hr⟩ := Option.map_eq_some_iff.mp hresult
  obtain ⟨haccepted, hexecuted, hcalled, hended⟩ : r.accepted = [0] ∧ r.jobs.executed = [] ∧
      r.state.called = [] ∧ ended r.state = true := by
    simpa only [Prod.mk.injEq] using hr
  have hreach : Reachable r :=
    Interleaving.Reachable.run (.init ⟨_, ⟨d, rfl, rfl⟩, rfl⟩) (fun _ _ => trivial) hrun
  refine ⟨r, hreach, haccepted, hexecuted, hcalled, fun hdrained => ?_⟩
  have hmem := hdrained (exited_of_ended hended) 0 (by rw [haccepted]; exact List.mem_singleton_self 0)
  rw [hexecuted] at hmem
  exact List.not_mem_nil hmem

/-! ## The condition -/

/-- A thread that takes a job from the ring, or is about to call one. -/
def takes : Pc → Bool
  | .take _ _ | .clear _ _ _ | .push _ | .call _ _ => true
  | _ => false

/-- The ring and the deques are empty, and no client has a job to execute. -/
structure NothingLeft (s : State n Client) : Prop where
  queue : s.submitTail = s.submitHead
  deques : ∀ w, (s.deques w).Empty
  clients : ∀ c, takes (s.pc (.client c)) = false

/-- A worker that leaves its loop leaves an empty deque, and the last one leaves nothing. -/
def Drains (s : State n Client) : Action n Client → Prop
  | .next (.worker w) _ =>
      s.pc (.worker w) = .enter .worker → s.shutdownRequested = true →
        (s.deques w).Empty ∧ ((∀ v, v ≠ w → s.pc (.worker v) = .exited) → NothingLeft s)
  | _ => True

/-- The states of the runs in which every step fits, and the workers leave nothing. -/
def DrainReachable : Run n Client → Prop :=
  Interleaving.Reachable Initial step fun r a => Fits r.state a ∧ Drains r.state a

/-! ## Where the jobs are -/

/-- The record belongs to a job that is not executed. -/
def Belongs (s : State n Client) (jobs : Jobs) (pending : List ℕ) (job k : ℕ) : Prop :=
  job ∈ pending ∧ jobs.owner job = some k ∧ ∀ t, (s.pc t).unflagged ≠ some job

/-- Every job was executed, or has a record that is pending.  What is about to be put into the ring was not
accepted. -/
structure Tracked (r : Run n Client) (pending : List ℕ) : Prop where
  lt_count : ∀ job k, r.jobs.owner job = some k → k < r.jobs.count
  kept : ∀ k < r.jobs.count, k ∈ r.jobs.executed ∨ ∃ job, Belongs r.state r.jobs pending job k
  unique : ∀ job job' k, Belongs r.state r.jobs pending job k →
    Belongs r.state r.jobs pending job' k → job = job'
  put_lt : ∀ t, ∀ k ∈ r.put t, k < r.jobs.count
  accepted_lt : ∀ k ∈ r.accepted, k < r.jobs.count
  unwritten : ∀ t job, (r.state.pc t).unwritten = some job →
    ∃ k, r.jobs.owner job = some k ∧ k ∉ r.accepted ∧ ∀ u, k ∉ r.put u

namespace Tracked

variable {r r' : Run n Client} {pending : List ℕ} {content : ℕ → ℕ × ℕ} {t : Thread n Client} {job : ℕ}

omit [DecidableEq Client] in
theorem init {s : State n Client} (h : JobSystem.Initial s) :
    Tracked { state := s, jobs := .init, put := fun _ => [], accepted := [] } [] := by
  obtain ⟨d, -, rfl⟩ := h
  refine ⟨fun job => Interleaving.of_eq_none rfl, by simp [Jobs.init], fun job job' k hjob => ?_, by simp,
    by simp, fun t job ht => ?_⟩
  · cases hjob.1
  · cases t with
    | worker w => cases ht
    | client c => cases ht

omit [DecidableEq Client] in
/-- A thread that has a record that is pending is the only one. -/
theorem eq_of_hand (hrep : Rep r.state pending content) {u : Thread n Client}
    (ht : (r.state.pc t).hand = some job) (hu : (r.state.pc u).hand = some job) : u = t := by
  have hplace : r.state.Holds job (.thread t) := ht
  have hplace' : r.state.Holds job (.thread u) := hu
  exact Place.thread.inj (hrep.custody.unique job _ _ hplace' hplace)

omit [DecidableEq Client] in
/-- No thread has cleared a flag or put a record into the ring. -/
theorem frame (h : Tracked r pending) (hjobs : r'.jobs = r.jobs)
    (hunflagged : ∀ u, (r'.state.pc u).unflagged = (r.state.pc u).unflagged)
    (hunwritten : ∀ u, (r'.state.pc u).unwritten = (r.state.pc u).unwritten)
    (hput : ∀ u, ∀ k ∈ r'.put u, k ∈ r.put u)
    (haccepted : ∀ k ∈ r'.accepted, k ∈ r.accepted ∨ ∃ u, k ∈ r.put u) : Tracked r' pending := by
  have hbelongs : ∀ job k, Belongs r'.state r'.jobs pending job k ↔
      Belongs r.state r.jobs pending job k := by
    intro job k
    simp only [Belongs, hunflagged, hjobs]
  refine ⟨fun job k hk => ?_, fun k hk => ?_, fun job job' k hjob hjob' => ?_, fun u k hk => ?_,
    fun k hk => ?_, fun u job hu => ?_⟩
  · rw [hjobs] at hk ⊢
    exact h.lt_count job k hk
  · simp only [hbelongs]
    rw [hjobs] at hk ⊢
    exact h.kept k hk
  · exact h.unique job job' k ((hbelongs job k).mp hjob) ((hbelongs job' k).mp hjob')
  · rw [hjobs]
    exact h.put_lt u k (hput u k hk)
  · rw [hjobs]
    rcases haccepted k hk with hk | ⟨u, hk⟩
    · exact h.accepted_lt k hk
    · exact h.put_lt u k hk
  · rw [hunwritten] at hu
    obtain ⟨k, hk, hnot, hnone⟩ := h.unwritten u job hu
    refine ⟨k, by rw [hjobs, hk], fun hmem => ?_, fun v hmem => hnone v (hput v k hmem)⟩
    rcases haccepted k hmem with hmem | ⟨v, hmem⟩
    · exact hnot hmem
    · exact hnone v hmem

/-- `alloc_job` returns an index that is not in use. -/
theorem submitAlloc (h : Tracked r pending) (hrep : Rep r.state pending content) {desc : JobDesc}
    {descs : List JobDesc} (hfree : ∀ place, ¬ r.state.Holds job place) {s' : State n Client}
    (hpc : r.state.pc t = .submitAlloc desc descs)
    (hpc' : s'.pc = update r.state.pc t (.submitFill job desc descs)) :
    Tracked { r with state := s' } (job :: pending) := by
  have hnew : job ∉ pending := by
    intro hmem
    obtain ⟨place, hplace⟩ := (hrep.custody.mem_iff job).mp hmem
    exact hfree place hplace
  have hself : (s'.pc t).unflagged = some job := by
    rw [hpc', update_self]
    rfl
  have hother : ∀ u, u ≠ t → s'.pc u = r.state.pc u := fun u hu => by rw [hpc', update_of_ne hu]
  have hbelongs : ∀ x k, Belongs s' r.jobs (job :: pending) x k ↔ Belongs r.state r.jobs pending x k := by
    intro x k
    constructor
    · rintro ⟨hmem, howner, hflagged⟩
      have hne : x ≠ job := by
        rintro rfl
        exact hflagged t hself
      refine ⟨(List.mem_cons.mp hmem).resolve_left hne, howner, fun u => ?_⟩
      by_cases hu : u = t
      · rw [hu, hpc]
        intro heq
        cases heq
      · rw [← hother u hu]
        exact hflagged u
    · rintro ⟨hmem, howner, hflagged⟩
      refine ⟨List.mem_cons_of_mem _ hmem, howner, fun u => ?_⟩
      by_cases hu : u = t
      · rw [hu, hself]
        intro heq
        rw [Option.some.inj heq] at hnew
        exact hnew hmem
      · rw [hother u hu]
        exact hflagged u
  refine ⟨h.lt_count, fun k hk => ?_, fun x x' k hx hx' => ?_, h.put_lt, h.accepted_lt, fun u x hu => ?_⟩
  · simp only [hbelongs]
    exact h.kept k hk
  · exact h.unique x x' k ((hbelongs x k).mp hx) ((hbelongs x' k).mp hx')
  · refine h.unwritten u x ?_
    by_cases hut : u = t
    · simp only [hut, hpc', update_self] at hu
      cases hu
    · simp only [hother u hut] at hu
      exact hu

/-- The completion flag of a record is cleared: the record belongs to the next job. -/
theorem submitFlag (h : Tracked r pending) (hrep : Rep r.state pending content) {desc : JobDesc}
    {descs : List JobDesc} (hpc : r.state.pc t = .submitFlag job desc descs) {s' : State n Client}
    (hpc' : s'.pc = update r.state.pc t (.submitParent job desc descs)) :
    Tracked
      { r with
        state := s'
        jobs := { r.jobs with
          owner := update r.jobs.owner job (some r.jobs.count)
          count := r.jobs.count + 1 } } pending := by
  have hhand : (r.state.pc t).hand = some job := by rw [hpc]; rfl
  have hplace : r.state.Holds job (.thread t) := hhand
  have hmem : job ∈ pending := hrep.custody.mem hplace
  have hother : ∀ u, u ≠ t → s'.pc u = r.state.pc u := fun u hu => by rw [hpc', update_of_ne hu]
  have hself : s'.pc t = .submitParent job desc descs := by rw [hpc', update_self]
  -- the record of another job is pending as it was
  have hbelongs : ∀ x k, x ≠ job → (Belongs s' { r.jobs with
      owner := update r.jobs.owner job (some r.jobs.count)
      count := r.jobs.count + 1 } pending x k ↔ Belongs r.state r.jobs pending x k) := by
    intro x k hx
    simp only [Belongs, update_of_ne hx]
    refine and_congr_right fun _ => and_congr_right fun _ => forall_congr' fun u => ?_
    by_cases hu : u = t
    · simp only [hu, hself, hpc, Pc.unflagged]
      exact ⟨fun _ heq => hx (Option.some.inj heq).symm, fun _ heq => by cases heq⟩
    · rw [hother u hu]
  have hnew : ∀ k, Belongs s' { r.jobs with
      owner := update r.jobs.owner job (some r.jobs.count)
      count := r.jobs.count + 1 } pending job k ↔ k = r.jobs.count := by
    intro k
    simp only [Belongs, update_self, Option.some.injEq]
    refine ⟨fun hk => hk.2.1.symm, fun hk => ⟨hmem, hk.symm, fun u hu => ?_⟩⟩
    by_cases hut : u = t
    · rw [hut, hself] at hu
      cases hu
    · rw [hother u hut] at hu
      exact hut (eq_of_hand hrep hhand (Pc.hand_of_unflagged hu))
  have hold : ∀ x k, Belongs r.state r.jobs pending x k → x ≠ job := by
    rintro x k ⟨-, -, hflagged⟩ rfl
    exact hflagged t (by rw [hpc]; rfl)
  refine ⟨fun x k hk => ?_, fun k hk => ?_, fun x x' k hx hx' => ?_, fun u k hk => ?_, fun k hk => ?_,
    fun u x hu => ?_⟩
  · rcases Interleaving.update_cases hk with ⟨-, hk⟩ | ⟨-, hk⟩
    · rw [← Option.some.inj hk]
      exact Nat.lt_succ_self _
    · exact Nat.lt_succ_of_lt (h.lt_count x k hk)
  · rcases Nat.lt_succ_iff_lt_or_eq.mp hk with hk | rfl
    · refine (h.kept k hk).imp_right ?_
      rintro ⟨x, hx⟩
      exact ⟨x, (hbelongs x k (hold x k hx)).mpr hx⟩
    · exact Or.inr ⟨job, (hnew _).mpr rfl⟩
  · -- the number of the new job is that of no other record
    have hlt : ∀ y, y ≠ job → Belongs s' { r.jobs with
        owner := update r.jobs.owner job (some r.jobs.count)
        count := r.jobs.count + 1 } pending y k → k < r.jobs.count := by
      intro y hy hbelongs'
      exact h.lt_count y k ((hbelongs y k hy).mp hbelongs').2.1
    by_cases hxj : x = job
    · by_cases hxj' : x' = job
      · rw [hxj, hxj']
      · have := hlt x' hxj' hx'
        rw [hxj] at hx
        have := (hnew k).mp hx
        omega
    · by_cases hxj' : x' = job
      · have := hlt x hxj hx
        rw [hxj'] at hx'
        have := (hnew k).mp hx'
        omega
      · exact h.unique x x' k ((hbelongs x k hxj).mp hx) ((hbelongs x' k hxj').mp hx')
  · exact Nat.lt_succ_of_lt (h.put_lt u k hk)
  · exact Nat.lt_succ_of_lt (h.accepted_lt k hk)
  · by_cases hut : u = t
    · subst hut
      simp only [hself, Pc.unwritten, Option.some.injEq] at hu
      subst hu
      refine ⟨r.jobs.count, update_self .., fun hk => ?_, fun v hk => ?_⟩
      · exact lt_irrefl _ (h.accepted_lt _ hk)
      · exact lt_irrefl _ (h.put_lt v _ hk)
    · simp only [hother u hut] at hu
      have hx : x ≠ job := by
        rintro rfl
        exact hut (eq_of_hand hrep hhand (Pc.hand_of_unwritten hu))
      obtain ⟨k, hk, hnot, hnone⟩ := h.unwritten u x hu
      exact ⟨k, (update_of_ne hx ..).trans hk, hnot, hnone⟩

/-- A record is put into the ring. -/
theorem submitWrite (h : Tracked r pending) (hrep : Rep r.state pending content) {pos : ℕ}
    {descs : List JobDesc} (hpc : r.state.pc t = .submitWrite job pos descs) {s' : State n Client}
    (hpc' : s'.pc = update r.state.pc t (.submitNext descs)) :
    Tracked
      { r with
        state := s'
        put := update r.put t ((r.jobs.owner job).toList ++ r.put t) } pending := by
  have hhand : (r.state.pc t).hand = some job := by rw [hpc]; rfl
  have hplace : r.state.Holds job (.thread t) := hhand
  obtain ⟨k, hk, hnot, hnone⟩ := h.unwritten t job (by rw [hpc]; rfl)
  have hother : ∀ u, u ≠ t → s'.pc u = r.state.pc u := fun u hu => by rw [hpc', update_of_ne hu]
  have hself : s'.pc t = .submitNext descs := by rw [hpc', update_self]
  have hunflagged : ∀ u, (s'.pc u).unflagged = (r.state.pc u).unflagged :=
    Interleaving.apply_eq_of_update (f := Pc.unflagged) hpc' (by rw [hpc]; rfl)
  have hbelongs : ∀ x k, Belongs s' r.jobs pending x k ↔ Belongs r.state r.jobs pending x k := by
    intro x k
    simp only [Belongs, hunflagged]
  have hput : ∀ u x, x ∈ update r.put t ((r.jobs.owner job).toList ++ r.put t) u →
      x = k ∨ x ∈ r.put u := by
    intro u x hx
    rw [hk] at hx
    by_cases hut : u = t
    · rw [hut, update_self] at hx
      rw [hut]
      exact List.mem_cons.mp hx
    · rw [update_of_ne hut] at hx
      exact Or.inr hx
  have hflagged : ∀ {x u}, (r.state.pc u).hand = some x → (r.state.pc u).unflagged = none →
      ∀ v, (r.state.pc v).unflagged ≠ some x := by
    intro x u hu hnone v hv
    rw [eq_of_hand hrep hu (Pc.hand_of_unflagged hv), hnone] at hv
    cases hv
  refine ⟨h.lt_count, fun x hx => ?_, fun x x' y hx hx' => ?_, fun u x hx => ?_, h.accepted_lt,
    fun u x hu => ?_⟩
  · simp only [hbelongs]
    exact h.kept x hx
  · exact h.unique x x' y ((hbelongs x y).mp hx) ((hbelongs x' y).mp hx')
  · rcases hput u x hx with rfl | hx
    · exact h.lt_count job x hk
    · exact h.put_lt u x hx
  · by_cases hut : u = t
    · simp only [hut, hself] at hu
      cases hu
    · simp only [hother u hut] at hu
      have hplace' : r.state.Holds x (.thread u) := Pc.hand_of_unwritten hu
      obtain ⟨y, hy, hnot', hnone'⟩ := h.unwritten u x hu
      refine ⟨y, hy, hnot', fun v hv => ?_⟩
      rcases hput v y hv with rfl | hv
      · -- another thread has another record, which belongs to another job
        have hjob : Belongs r.state r.jobs pending job y :=
          ⟨hrep.custody.mem hplace, hk, hflagged hhand (by rw [hpc]; rfl)⟩
        have hx : Belongs r.state r.jobs pending x y :=
          ⟨hrep.custody.mem hplace', hy, hflagged (Pc.hand_of_unwritten hu) (Pc.unflagged_of_unwritten hu)⟩
        obtain rfl := h.unique job x y hjob hx
        exact hut (eq_of_hand hrep hhand (Pc.hand_of_unwritten hu))
      · exact hnone' v hv

/-- A job is executed. -/
theorem call (h : Tracked r pending) {mode : Mode} (hpc : r.state.pc t = .call mode job)
    {s' : State n Client} (hpc' : s'.pc = update r.state.pc t (.finish mode job)) :
    Tracked
      { r with
        state := s'
        jobs := { r.jobs with executed := (r.jobs.owner job).toList ++ r.jobs.executed } }
      (pending.erase job) := by
  have hunflagged : ∀ u, (s'.pc u).unflagged = (r.state.pc u).unflagged :=
    Interleaving.apply_eq_of_update (f := Pc.unflagged) hpc' (by rw [hpc]; rfl)
  have hunwritten : ∀ u, (s'.pc u).unwritten = (r.state.pc u).unwritten :=
    Interleaving.apply_eq_of_update (f := Pc.unwritten) hpc' (by rw [hpc]; rfl)
  have hbelongs : ∀ x k, Belongs s' { r.jobs with
      executed := (r.jobs.owner job).toList ++ r.jobs.executed } (pending.erase job) x k →
      Belongs r.state r.jobs pending x k := by
    rintro x k ⟨hmem, howner, hflagged⟩
    simp only [hunflagged] at hflagged
    exact ⟨List.mem_of_mem_erase hmem, howner, hflagged⟩
  refine ⟨h.lt_count, fun k hk => ?_, fun x x' k hx hx' => ?_, h.put_lt, h.accepted_lt, fun u x hu => ?_⟩
  · rcases h.kept k hk with hexecuted | ⟨x, hmem, howner, hflagged⟩
    · exact Or.inl (List.mem_append_right _ hexecuted)
    · by_cases hx : x = job
      · subst hx
        refine Or.inl (List.mem_append_left _ ?_)
        rw [howner]
        exact List.mem_singleton_self k
      · refine Or.inr ⟨x, (List.mem_erase_of_ne hx).mpr hmem, howner, ?_⟩
        simp only [hunflagged]
        exact hflagged
  · exact h.unique x x' k (hbelongs x k hx) (hbelongs x' k hx')
  · simp only [hunwritten] at hu
    exact h.unwritten u x hu

/-- The next step of a thread. -/
theorem next (h : Tracked r pending) (hrep : Rep r.state pending content) {weak : Bool}
    (hfits : Fits r.state (.next t weak)) {s' : State n Client}
    (hstep : JobSystem.step r.state (.next t weak) = some s') :
    Tracked (r.next t s') (pendingAfter pending r.state.jobPoolHead (r.state.pc t)) := by
  obtain ⟨pc', hsteps⟩ := Steps.of_next hstep
  unfold Run.next
  cases hpc : r.state.pc t with
  | submitAlloc desc descs =>
      simp only [Fits, hpc] at hfits
      rw [step_submitAlloc hpc] at hstep
      cases hstep
      exact h.submitAlloc hrep hfits hpc rfl
  | submitFlag job desc descs =>
      rw [step_submitFlag hpc] at hstep
      cases hstep
      exact h.submitFlag hrep hpc rfl
  | submitWrite job pos descs =>
      rw [step_submitWrite hpc] at hstep
      cases hstep
      exact h.submitWrite hrep hpc rfl
  | call mode job =>
      rw [step_call hpc] at hstep
      cases hstep
      exact h.call hpc rfl
  | returns result =>
      refine h.frame rfl (hsteps.unflagged_eq (by rw [hpc]; rfl)) (hsteps.unwritten_eq (by rw [hpc]; rfl))
        (fun u k hk => ?_) fun k hk => ?_
      · by_cases hut : u = t
        · simp [hut] at hk
        · simpa only [update_of_ne hut] using hk
      · cases result with
        | success =>
            by_cases hrequested : r.state.shutdownRequested
            · simp only [hrequested, if_true] at hk
              exact Or.inl hk
            · simp only [hrequested, Bool.false_eq_true, if_false] at hk
              exact (List.mem_append.mp hk).symm.imp_right fun hk => ⟨t, hk⟩
        | _ => exact Or.inl hk
  | _ =>
      exact h.frame rfl (hsteps.unflagged_eq (by rw [hpc]; rfl)) (hsteps.unwritten_eq (by rw [hpc]; rfl))
        (fun u k hk => hk) fun k hk => Or.inl hk

/-- A call of a client, or the request of a shutdown. -/
theorem outside (h : Tracked r pending) {a : Action n Client} (hnext : ∀ t weak, a ≠ .next t weak)
    {s' : State n Client} (hstep : JobSystem.step r.state a = some s') :
    Tracked { r with state := s' } pending := by
  by_cases hshutdown : a = .shutdown
  · subst hshutdown
    cases hstep
    exact h.frame rfl (fun _ => rfl) (fun _ => rfl) (fun u k hk => hk) fun k hk => Or.inl hk
  · obtain ⟨c, pc', hmoves⟩ := Moves.outside hnext hshutdown hstep
    exact h.frame rfl (Interleaving.apply_eq_of_update (f := Pc.unflagged) hmoves.pc hmoves.unflagged)
      (Interleaving.apply_eq_of_update (f := Pc.unwritten) hmoves.pc hmoves.unwritten)
      (fun u k hk => hk) fun k hk => Or.inl hk

omit [DecidableEq Client] in
/-- When nothing is left, what was accepted was executed. -/
theorem executed_of_nothingLeft (h : Tracked r pending) (hrep : Rep r.state pending content)
    (hleft : NothingLeft r.state)
    (hworkers : ∀ w, r.state.pc (.worker w) = .exited ∨ r.state.pc (.worker w) = .enter .worker) (k : ℕ)
    (hk : k ∈ r.accepted) : k ∈ r.jobs.executed := by
  refine (h.kept k (h.accepted_lt k hk)).resolve_right ?_
  rintro ⟨job, hmem, howner, hflagged⟩
  have hreads : ∀ t, (r.state.pc t).reads = none := by
    intro t
    cases t with
    | worker w => rcases hworkers w with hpc | hpc <;> rw [hpc] <;> rfl
    | client c =>
        have hclient := hleft.clients c
        cases hpc : r.state.pc (.client c) <;> rw [hpc] at hclient <;> first | rfl | cases hclient
  obtain ⟨place, hplace⟩ := (hrep.custody.mem_iff job).mp hmem
  cases place with
  | slot i =>
      simp only [State.Holds, hrep.ring.cell_eq_none hleft.queue hreads i] at hplace
      cases hplace
  | deque w =>
      have hperm := (hrep.kept w).perm_of_empty (hleft.deques w)
      simp only [State.Holds, hperm.count_eq, lt_irrefl] at hplace
  | thread t =>
      simp only [State.Holds] at hplace
      cases t with
      | worker w =>
          rcases hworkers w with hpc | hpc <;> rw [hpc] at hplace <;> cases hplace
      | client c =>
          -- the client is about to submit the job, so that its call has not returned
          have hclient := hleft.clients c
          have hnot := hflagged (.client c)
          have hunwritten : (r.state.pc (.client c)).unwritten = some job := by
            cases hpc : r.state.pc (.client c) <;> rw [hpc] at hplace hclient hnot <;>
              first | exact absurd hplace hnot | exact hplace | (cases hplace; done) | cases hclient
          obtain ⟨k', hk', hrejected, -⟩ := h.unwritten _ _ hunwritten
          obtain rfl := Option.some.inj (howner.symm.trans hk')
          exact hrejected hk

end Tracked

/-! ## Runs that drain -/

/-- The jobs are tracked, and when all workers have ended what was accepted was executed. -/
structure Shutdown (r : Run n Client) : Prop where
  tracked : ∃ pending content, Rep r.state pending content ∧ Tracked r pending
  ended : (∀ w, r.state.pc (.worker w) = .exited) → r.state.shutdownRequested = true ∧ Drained r

namespace Shutdown

variable {r r' : Run n Client}

omit [DecidableEq Client] in
theorem init [NeZero n] (h : Initial r) : Shutdown r := by
  obtain ⟨s, hinit, rfl⟩ := h
  refine ⟨?_, fun hexited => ?_⟩
  · obtain ⟨d, hd, rfl⟩ := hinit
    exact ⟨[], _, Rep.init hd, Tracked.init ⟨d, hd, rfl⟩⟩
  · obtain ⟨d, -, rfl⟩ := hinit
    cases hexited 0

/-- The next step of a thread. -/
theorem next (h : Shutdown r) {t : Thread n Client} {weak : Bool} (hfits : Fits r.state (.next t weak))
    (hdrains : Drains r.state (.next t weak)) {s' : State n Client}
    (hstep : JobSystem.step r.state (.next t weak) = some s') : Shutdown (r.next t s') := by
  obtain ⟨⟨pending, content, hrep, htracked⟩, hended⟩ := h
  obtain ⟨content', hrep'⟩ := hrep.next hfits hstep
  refine ⟨⟨_, content', hrep', htracked.next hrep hfits hstep⟩, fun hexited => ?_⟩
  obtain ⟨pc', hsteps⟩ := Steps.of_next hstep
  have hpc' := hsteps.pc
  -- nothing more is accepted once the shutdown is requested
  have haccepted : r.state.shutdownRequested = true → (r.next t s').accepted = r.accepted := by
    intro hrequested
    simp only [Run.next, hrequested, if_true]
    split <;> rfl
  by_cases hall : ∀ w, r.state.pc (.worker w) = .exited
  · obtain ⟨hrequested, hdrained⟩ := hended hall
    refine ⟨hsteps.shutdown.trans hrequested, fun _ k hk => ?_⟩
    rw [haccepted hrequested] at hk
    exact Jobs.mem_executed_after (hdrained hall k hk)
  · -- the last worker leaves its loop in this step
    obtain ⟨w, hw⟩ := not_forall.mp hall
    have hsame : ∀ u, u ≠ t → s'.pc u = r.state.pc u := fun u hu => by rw [hpc', update_of_ne hu]
    have hwt : Thread.worker w = t := by
      by_contra hne
      exact hw ((hsame _ hne).symm.trans (hexited w))
    subst hwt
    have hpc'' : pc' = .exited := by
      have hworker : s'.pc (.worker w) = .exited := hexited w
      rwa [hpc', update_self] at hworker
    obtain ⟨henter, hrequested⟩ := hsteps.exited hpc''
    have hothers : ∀ v, v ≠ w → r.state.pc (.worker v) = .exited := by
      intro v hv
      have hne : Thread.worker v ≠ (.worker w : Thread n Client) := fun heq => hv (Thread.worker.inj heq)
      exact (hsame _ hne).symm.trans (hexited v)
    have hleft := (hdrains henter hrequested).2 hothers
    refine ⟨hsteps.shutdown.trans hrequested, fun _ k hk => ?_⟩
    rw [haccepted hrequested] at hk
    refine Jobs.mem_executed_after (htracked.executed_of_nothingLeft hrep hleft (fun v => ?_) k hk)
    by_cases hv : v = w
    · exact Or.inr (hv ▸ henter)
    · exact Or.inl (hothers v hv)

/-- A call of a client, or the request of a shutdown. -/
theorem outside (h : Shutdown r) {a : Action n Client} (hnext : ∀ t weak, a ≠ .next t weak)
    {s' : State n Client} (hstep : JobSystem.step r.state a = some s') :
    Shutdown { r with state := s' } := by
  obtain ⟨⟨pending, content, hrep, htracked⟩, hended⟩ := h
  refine ⟨⟨pending, content, hrep.outside hnext hstep, htracked.outside hnext hstep⟩, fun hexited => ?_⟩
  by_cases hshutdown : a = .shutdown
  · subst hshutdown
    cases hstep
    exact ⟨rfl, fun _ => (hended hexited).2 hexited⟩
  · obtain ⟨c, pc', hmoves⟩ := Moves.outside hnext hshutdown hstep
    have hall : ∀ w, r.state.pc (.worker w) = .exited := by
      intro w
      have hworker : s'.pc (.worker w) = .exited := hexited w
      rwa [hmoves.pc, update_of_ne (by simp)] at hworker
    obtain ⟨hrequested, hdrained⟩ := hended hall
    exact ⟨hmoves.shutdown.trans hrequested, fun _ => hdrained hall⟩

theorem step (h : Shutdown r) {a : Action n Client} (hallowed : Fits r.state a ∧ Drains r.state a)
    (hstep : JobShutdown.step r a = some r') : Shutdown r' := by
  obtain ⟨s', hs', rfl⟩ := Option.map_eq_some_iff.mp hstep
  cases a with
  | next t weak => exact h.next hallowed.1 hallowed.2 hs'
  | _ => exact h.outside (by simp) hs'

end Shutdown

/-- In every run in which none of the rings is overrun, no race for the last job of a deque is lost, and
the last worker leaves its loop only when no job is left, every job whose submission had returned before the
shutdown was requested is executed when `lgx_threading_shutdown` returns. -/
theorem drained_of_drainReachable [NeZero n] {r : Run n Client} (hreach : DrainReachable r) :
    Drained r := by
  have h : Shutdown r := by
    apply Interleaving.Reachable.invariant (I := Shutdown) hreach
    · exact fun r hinit => Shutdown.init hinit
    · exact fun r r' a hr hallowed hstep => hr.step hallowed hstep
  exact fun hexited => (h.ended hexited).2 hexited

/-! ## A run that drains -/

/-- `oneJob`, and the worker leaves nothing. -/
def drainCheck (r : Run 1 Unit) (a : Action 1 Unit) : Bool :=
  oneJob r.state a &&
    match a with
    | .next (.worker w) _ =>
        let d := r.state.deques w
        !r.state.shutdownRequested ||
          (decide (r.state.submitTail = r.state.submitHead ∧
              d.deque.bottom + d.owner.reserve ≤ d.deque.top) &&
            (d.owner.hand d.deque).isEmpty && d.owner.result.isNone && !takes (r.state.pc (.client ())))
    | _ => true

theorem DrainReachable.fitReachable {r : Run n Client} (h : DrainReachable r) : FitReachable r.state := by
  apply Interleaving.Reachable.invariant (I := fun r => FitReachable r.state) h
  · rintro r ⟨s, hinit, rfl⟩
    exact .init hinit
  · rintro r r' a hr hallowed hstep
    obtain ⟨s', hs', rfl⟩ := Option.map_eq_some_iff.mp hstep
    cases a <;> exact hr.step _ hallowed.1 hs'

theorem allowed_of_drainCheck {r : Run 1 Unit} {a : Action 1 Unit} (hreach : DrainReachable r)
    (hcheck : drainCheck r a = true) : Fits r.state a ∧ Drains r.state a := by
  obtain ⟨hone, hcheck⟩ := Bool.and_eq_true_iff.mp hcheck
  refine ⟨fits_of_oneJob hreach.fitReachable hone, ?_⟩
  cases a with
  | next t weak =>
      cases t with
      | worker w =>
          intro _ hrequested
          simp only [hrequested, Bool.not_true, Bool.false_or, Bool.and_eq_true, decide_eq_true_eq,
            List.isEmpty_iff, Option.isNone_iff_eq_none, Bool.not_eq_true'] at hcheck
          obtain ⟨⟨⟨⟨hqueue, hempty⟩, hhand⟩, hresult⟩, htakes⟩ := hcheck
          have hdeques : ∀ v, (r.state.deques v).Empty := by
            intro v
            rw [Subsingleton.elim v w]
            exact ⟨hempty, hhand, hresult⟩
          exact ⟨hdeques w, fun _ => ⟨hqueue, hdeques, fun _ => htakes⟩⟩
      | client c => trivial
  | _ => trivial

/-- A client submits a job and executes it while it waits, before the shutdown. -/
theorem drained_after_wait : ∃ r : Run 1 Unit, DrainReachable r ∧ r.accepted = [0] ∧
    r.jobs.executed = [0] ∧ (∀ w, r.state.pc (.worker w) = .exited) ∧ Drained r := by
  let d : WorkDeque.Deque ℕ :=
    { buffer := fun _ => none, top := 0, bottom := 0, capacity := 1024, mask := 1023 }
  let client (k : ℕ) : List (Action 1 Unit) := List.replicate k (.next (.client ()) false)
  let actions : List (Action 1 Unit) :=
    .submit () ⟨7, 42, none⟩ :: client 10 ++ .wait () (some 0) :: client 11 ++
      [.shutdown, .next (.worker 0) false]
  let start : Run 1 Unit := { state := poolCreate d, jobs := .init, put := fun _ => [], accepted := [] }
  have hresult : (Interleaving.run (Interleaving.guarded step drainCheck) actions start).map
      (fun r => (r.accepted, r.jobs.executed, ended r.state)) = some ([0], [0], true) := by
    decide +kernel
  have hinit : DrainReachable start := .init ⟨_, ⟨d, rfl, rfl⟩, rfl⟩
  obtain ⟨r, hreach, hr⟩ := hinit.exists_of_run_guarded (fun _ _ => allowed_of_drainCheck) hresult
  obtain ⟨haccepted, hexecuted, hended⟩ : r.accepted = [0] ∧ r.jobs.executed = [0] ∧
      ended r.state = true := by
    simpa only [Prod.mk.injEq] using hr
  exact ⟨r, hreach, haccepted, hexecuted, exited_of_ended hended, drained_of_drainReachable hreach⟩

end LgxRuntime.Threading.JobShutdown
