import LgxRuntime.Lib.Headcount
import LgxRuntime.Threading.JobCompletion

/-!
# Every child is counted

A record is with one thread from `alloc_job` to the ring, and with one thread from the call to the report;
this thread knows how far the job is.  The children of a job that have not reported are counted in
`remaining_children`.  There are no more of them than records, so that the counter does not overflow.
-/

namespace LgxRuntime.Threading.JobCompletion

open Function (update update_self update_of_ne)
open Interleaving (headcount apply_update_self forall_update of_eq_none)
open JobSystem

variable {n : ℕ} {Client : Type} [DecidableEq Client]

/-! ## The records and their threads -/

/-- What a thread does with the record that it has. -/
inductive Stage
  | none
  /-- The record is taken, and its flag is not cleared yet. -/
  | taken (job : ℕ)
  /-- The flag is cleared, and the parent is not written yet. -/
  | unlinked (job : ℕ)
  | linked (job : ℕ)
  /-- The function was called. -/
  | called (job : ℕ)
  /-- The flag was set, and the parent does not know yet. -/
  | flagged (job : ℕ)

/-- The stage of a thread. -/
def stage : Pc → Stage
  | .submitFill job _ _ | .submitChildren job _ _ | .submitFlag job _ _ => .taken job
  | .submitParent job _ _ => .unlinked job
  | .submitHead job _ | .submitWrite job _ _ => .linked job
  | .finish _ job => .called job
  | .parent _ job => .flagged job
  | _ => .none

namespace Stage

/-- The record that a thread has. -/
def record : Stage → Option ℕ
  | .none => Option.none
  | .taken job | .unlinked job | .linked job | .called job | .flagged job => some job

/-- The record that a thread has, if it belongs to the job that the thread submits or executes. -/
def active : Stage → Option ℕ
  | .none | .taken _ => Option.none
  | .unlinked job | .linked job | .called job | .flagged job => some job

theorem record_of_active {stage : Stage} {job : ℕ} (h : stage.active = some job) :
    stage.record = some job := by
  cases stage <;> first | exact h | cases h

end Stage

theorem record_stage (pc : Pc) : (stage pc).record = pc.record := by
  cases pc <;> rfl

theorem stage_of_record {pc : Pc} (h : pc.record = none) : stage pc = .none := by
  cases pc <;> first | rfl | cases h

/-- What a thread knows about its record. -/
def Knows (r : Run n Client) : Stage → Prop
  | .none => True
  | .taken job => r.jobs.owner job = none ∨ (r.state.jobPool job).completionFlag ≠ 0
  | .unlinked job => ∃ k, r.jobs.owner job = some k ∧ k ∉ r.jobs.executed ∧ r.parentOf k = none
  | .linked job => ∃ k, r.jobs.owner job = some k ∧ k ∉ r.jobs.executed
  | .called job => ∃ k, r.jobs.owner job = some k ∧ k ∈ r.jobs.executed ∧ k ∉ r.reported
  | .flagged job => ∃ k, r.jobs.owner job = some k ∧ k ∈ r.jobs.executed ∧ k ∉ r.reported ∧
      k ∈ r.completed

/-- Nothing happened to a job, except that its flag may have been set. -/
def Agree (r r' : Run n Client) (k : ℕ) : Prop :=
  (k ∈ r'.jobs.executed ↔ k ∈ r.jobs.executed) ∧ (k ∈ r'.reported ↔ k ∈ r.reported) ∧
    (k ∈ r.completed → k ∈ r'.completed) ∧ r'.parentOf k = r.parentOf k

/-- Every record that is in use is in the queue or with one thread, and is used for one job. -/
structure Staged (r : Run n Client) : Prop where
  knows : ∀ t, Knows r (stage (r.state.pc t))
  unique : ∀ t u job, (stage (r.state.pc t)).record = some job →
    (stage (r.state.pc u)).record = some job → t = u
  bounded : ∀ t job, (stage (r.state.pc t)).record = some job → job < jobPoolCapacity
  owner_bounded : ∀ job k, r.jobs.owner job = some k → job < jobPoolCapacity ∧ k < r.jobs.count
  owner_inj : ∀ job job' k, r.jobs.owner job = some k → r.jobs.owner job' = some k → job = job'
  kept : ∀ k < r.jobs.count, k ∈ r.reported ∨ ∃ job, r.jobs.owner job = some k
  queued : ∀ job, r.queued job = true →
    (∃ k, r.jobs.owner job = some k ∧ k ∉ r.jobs.executed) ∧
      ∀ t, (stage (r.state.pc t)).record ≠ some job
  active : ∀ job k, r.jobs.owner job = some k →
    k ∈ r.reported ∨ r.queued job = true ∨ ∃ t, (stage (r.state.pc t)).active = some job
  completed_of_reported : ∀ k ∈ r.reported, k ∈ r.completed
  executed_of_completed : ∀ k ∈ r.completed, k ∈ r.jobs.executed
  executed_lt : ∀ k ∈ r.jobs.executed, k < r.jobs.count

/-- The job to which a job has to report. -/
def waitsFor (r : Run n Client) (c : ℕ) : Option ℕ :=
  if c ∈ r.reported then none else r.parentOf c

/-- The number of jobs that have not reported to a job. -/
noncomputable def children (r : Run n Client) (k : ℕ) : ℕ∞ :=
  headcount (fun parent => decide (parent = some k)) (waitsFor r)

/-- The record of a job says what its parent is. -/
def ParentIs (r : Run n Client) (job c : ℕ) : Prop :=
  ((r.state.jobPool job).parent = none ∧ r.parentOf c = none) ∨
    ∃ parent k, (r.state.jobPool job).parent = some parent ∧ r.jobs.owner parent = some k ∧
      r.parentOf c = some k

/-- The children that have not reported are counted, and a job whose flag is set has none. -/
structure Counted (r : Run n Client) : Prop where
  flag : ∀ job k, r.jobs.owner job = some k → (r.state.jobPool job).completionFlag ≠ 0 →
    k ∈ r.jobs.executed ∧ ∀ c, r.parentOf c = some k → c ∈ r.reported
  count : ∀ job k, r.jobs.owner job = some k →
    ((r.state.jobPool job).remainingChildren : ℕ∞) = children r k
  count_none : ∀ job, r.jobs.owner job = none → (r.state.jobPool job).remainingChildren = 0
  parentOf_lt : ∀ c k, r.parentOf c = some k → c < r.jobs.count ∧ k < r.jobs.count
  parent : ∀ job c, r.jobs.owner job = some c → c ∉ r.reported →
    (∀ t, stage (r.state.pc t) ≠ .unlinked job) → ParentIs r job c

section

variable {r r' : Run n Client} {t : Thread n Client} {pc' : Pc} {job k : ℕ}

omit [DecidableEq Client] in
/-- What a thread knows stays true if nothing happens to its record and to its job. -/
theorem Knows.congr {st : Stage} (h : Knows r st)
    (hsame : ∀ job, st.record = some job → r'.jobs.owner job = r.jobs.owner job ∧
      ((r.state.jobPool job).completionFlag ≠ 0 → (r'.state.jobPool job).completionFlag ≠ 0) ∧
      ∀ k, r.jobs.owner job = some k → Agree r r' k) : Knows r' st := by
  cases st with
  | none => trivial
  | taken job =>
      obtain ⟨howner, hflag, -⟩ := hsame job rfl
      simp only [Knows, howner]
      exact h.imp_right hflag
  | unlinked job =>
      obtain ⟨howner, -, hagree⟩ := hsame job rfl
      obtain ⟨k, hk, hexecuted, hparent⟩ := h
      obtain ⟨hexecuted', -, -, hparent'⟩ := hagree k hk
      exact ⟨k, howner.trans hk, by rwa [hexecuted'], hparent'.trans hparent⟩
  | linked job =>
      obtain ⟨howner, -, hagree⟩ := hsame job rfl
      obtain ⟨k, hk, hexecuted⟩ := h
      exact ⟨k, howner.trans hk, by rwa [(hagree k hk).1]⟩
  | called job =>
      obtain ⟨howner, -, hagree⟩ := hsame job rfl
      obtain ⟨k, hk, hexecuted, hreported⟩ := h
      obtain ⟨hexecuted', hreported', -⟩ := hagree k hk
      exact ⟨k, howner.trans hk, by rwa [hexecuted'], by rwa [hreported']⟩
  | flagged job =>
      obtain ⟨howner, -, hagree⟩ := hsame job rfl
      obtain ⟨k, hk, hexecuted, hreported, hcompleted⟩ := h
      obtain ⟨hexecuted', hreported', hcompleted', -⟩ := hagree k hk
      exact ⟨k, howner.trans hk, by rwa [hexecuted'], by rwa [hreported'], hcompleted' hcompleted⟩

namespace Staged

/-- What the threads know, after one of them has moved on. -/
theorem knows_update (h : Staged r) (hpc : r'.state.pc = update r.state.pc t pc')
    (hother : ∀ u, u ≠ t → ∀ job, (stage (r.state.pc u)).record = some job →
      r'.jobs.owner job = r.jobs.owner job ∧
        ((r.state.jobPool job).completionFlag ≠ 0 → (r'.state.jobPool job).completionFlag ≠ 0) ∧
        ∀ k, r.jobs.owner job = some k → Agree r r' k)
    (hself : Knows r' (stage pc')) (u : Thread n Client) : Knows r' (stage (r'.state.pc u)) := by
  rw [hpc]
  exact forall_update (P := fun _ pc => Knows r (stage pc)) (Q := fun _ pc => Knows r' (stage pc)) h.knows
    (fun u hu hknows => hknows.congr (hother u hu)) hself u

/-- A record that a thread takes is with nobody else. -/
theorem unique_update (h : Staged r) (hpc : r'.state.pc = update r.state.pc t pc')
    (hnew : ∀ job, (stage pc').record = some job →
      ∀ u, u ≠ t → (stage (r.state.pc u)).record ≠ some job)
    (u v : Thread n Client) (job : ℕ) (hu : (stage (r'.state.pc u)).record = some job)
    (hv : (stage (r'.state.pc v)).record = some job) : u = v := by
  rw [hpc] at hu hv
  exact Interleaving.apply_unique_update (f := fun pc => (stage pc).record) h.unique hnew u v job hu hv

theorem bounded_update (h : Staged r) (hpc : r'.state.pc = update r.state.pc t pc')
    (hnew : ∀ job, (stage pc').record = some job → job < jobPoolCapacity) (u : Thread n Client)
    (job : ℕ) (hu : (stage (r'.state.pc u)).record = some job) : job < jobPoolCapacity := by
  rw [hpc] at hu
  exact forall_update (P := fun _ pc => ∀ job, (stage pc).record = some job → job < jobPoolCapacity)
    (Q := fun _ pc => ∀ job, (stage pc).record = some job → job < jobPoolCapacity) h.bounded
    (fun _ _ hu => hu) hnew u job hu

/-- A thread moves on with the record that it has. -/
theorem keep (h : Staged r) (hpc : r'.state.pc = update r.state.pc t pc')
    (hjobs : r'.jobs = r.jobs) (hcompleted : r'.completed = r.completed)
    (hreported : r'.reported = r.reported) (hqueued : r'.queued = r.queued)
    (hparentOf : ∀ u, u ≠ t → ∀ job k, (stage (r.state.pc u)).record = some job →
      r.jobs.owner job = some k → r'.parentOf k = r.parentOf k)
    (hflag : ∀ job, (r.state.jobPool job).completionFlag ≠ 0 →
      (r'.state.jobPool job).completionFlag ≠ 0)
    (hrecord : (stage pc').record = (stage (r.state.pc t)).record)
    (hactive : (stage pc').active = (stage (r.state.pc t)).active) (hself : Knows r' (stage pc')) :
    Staged r' := by
  have hrecord' : ∀ u, (stage (r'.state.pc u)).record = (stage (r.state.pc u)).record :=
    Interleaving.apply_eq_of_update (f := fun pc => (stage pc).record) hpc hrecord
  have hactive' : ∀ u, (stage (r'.state.pc u)).active = (stage (r.state.pc u)).active :=
    Interleaving.apply_eq_of_update (f := fun pc => (stage pc).active) hpc hactive
  refine ⟨h.knows_update hpc (fun u hu job hjob => ⟨by rw [hjobs], hflag job, fun k hk => ?_⟩) hself,
    fun u v job => ?_, fun u job => ?_, ?_, ?_, ?_, ?_, ?_, ?_, ?_, ?_⟩
  · refine ⟨?_, ?_, ?_, hparentOf u hu job k hjob hk⟩
    · rw [hjobs]
    · rw [hreported]
    · rw [hcompleted]
      exact id
  · rw [hrecord', hrecord']
    exact h.unique u v job
  · rw [hrecord']
    exact h.bounded u job
  · rw [hjobs]
    exact h.owner_bounded
  · rw [hjobs]
    exact h.owner_inj
  · rw [hjobs, hreported]
    exact h.kept
  · simp only [hrecord', hjobs, hqueued]
    exact h.queued
  · simp only [hactive', hjobs, hqueued, hreported]
    exact h.active
  · rw [hreported, hcompleted]
    exact h.completed_of_reported
  · rw [hcompleted, hjobs]
    exact h.executed_of_completed
  · rw [hjobs]
    exact h.executed_lt

omit [DecidableEq Client] in
/-- The job of a record that a thread has taken anew has reported. -/
theorem reported_of_taken (h : Staged r) (hstage : stage (r.state.pc t) = .taken job)
    (hk : r.jobs.owner job = some k) : k ∈ r.reported := by
  have hrecord : (stage (r.state.pc t)).record = some job := by rw [hstage]; rfl
  rcases h.active job k hk with hreported | hqueued | ⟨u, hu⟩
  · exact hreported
  · exact absurd hrecord ((h.queued job hqueued).2 t)
  · obtain rfl := h.unique t u job hrecord (Stage.record_of_active hu)
    rw [hstage] at hu
    cases hu

omit [DecidableEq Client] in
/-- A free record is not in the queue. -/
theorem not_queued_of_free (h : Staged r) (hcounted : Counted r) (hfree : Free r job) :
    r.queued job = false := by
  by_contra hqueued
  obtain ⟨⟨k, hk, hnot⟩, -⟩ := h.queued job (by simpa using hqueued)
  rcases hfree.1 with hnone | hflag
  · rw [hk] at hnone
    cases hnone
  · exact hnot (hcounted.flag job k hk hflag).1

/-- A record is taken. -/
theorem submitAlloc (h : Staged r) (hcounted : Counted r) (hlt : job < jobPoolCapacity)
    (hfree : Free r job) {desc : JobDesc} {descs : List JobDesc}
    (hpc : r.state.pc t = .submitAlloc desc descs) {s' : State n Client}
    (hpc' : s'.pc = update r.state.pc t (.submitFill job desc descs))
    (hpool : s'.jobPool = r.state.jobPool) : Staged { r with state := s' } := by
  have hactive : ∀ u, (stage (s'.pc u)).active = (stage (r.state.pc u)).active :=
    Interleaving.apply_eq_of_update (f := fun pc => (stage pc).active) hpc' (by rw [hpc]; rfl)
  have hnone : ∀ u, (stage (r.state.pc u)).record ≠ some job := by
    intro u
    rw [record_stage]
    exact hfree.2 u
  refine ⟨h.knows_update hpc' (fun u hu x hx => ⟨rfl, by rw [hpool]; exact id, fun k hk => ?_⟩) ?_,
    h.unique_update hpc' ?_, h.bounded_update hpc' ?_, h.owner_bounded, h.owner_inj, h.kept,
    fun x hx => ?_, ?_, h.completed_of_reported, h.executed_of_completed, h.executed_lt⟩
  · exact ⟨Iff.rfl, Iff.rfl, id, rfl⟩
  · simp only [stage, Knows, hpool]
    exact hfree.1
  · intro x hx u hu
    obtain rfl := Option.some.inj hx
    exact hnone u
  · intro x hx
    obtain rfl := Option.some.inj hx
    exact hlt
  · obtain ⟨howner, hrecord⟩ := h.queued x hx
    refine ⟨howner, fun u => ?_⟩
    by_cases hu : u = t
    · simp only [hu, hpc', update_self]
      intro heq
      rw [← Option.some.inj heq, h.not_queued_of_free hcounted hfree] at hx
      cases hx
    · simp only [hpc', update_of_ne hu]
      exact hrecord u
  · simp only [hactive]
    exact h.active

/-- The completion flag of a record is cleared, and the record belongs to the next job. -/
theorem submitFlag (h : Staged r) (hcounted : Counted r) {desc : JobDesc} {descs : List JobDesc}
    (hpc : r.state.pc t = .submitFlag job desc descs) {s' : State n Client}
    (hpc' : s'.pc = update r.state.pc t (.submitParent job desc descs))
    (hflag : ∀ x, x ≠ job → (s'.jobPool x).completionFlag = (r.state.jobPool x).completionFlag) :
    Staged
      { r with
        state := s'
        jobs := { r.jobs with
          owner := update r.jobs.owner job (some r.jobs.count)
          count := r.jobs.count + 1 } } := by
  have hstage : stage (r.state.pc t) = .taken job := by rw [hpc]; rfl
  have hrecord : (stage (r.state.pc t)).record = some job := by rw [hpc]; rfl
  have hother : ∀ u, u ≠ t → ∀ x, (stage (r.state.pc u)).record = some x → x ≠ job := by
    rintro u hu x hx rfl
    exact hu (h.unique u t x hx hrecord)
  have hlt : ∀ {x k}, r.jobs.owner x = some k → k ≠ r.jobs.count := by
    intro x k hk
    have := (h.owner_bounded x k hk).2
    omega
  have hrecord' : ∀ u, (stage (s'.pc u)).record = (stage (r.state.pc u)).record :=
    Interleaving.apply_eq_of_update (f := fun pc => (stage pc).record) hpc' (by rw [hpc]; rfl)
  refine ⟨h.knows_update hpc' (fun u hu x hx => ?_) ?_, fun u v x => ?_, fun u x => ?_, fun x k hk => ?_,
    fun x x' k hk hk' => ?_, fun k hk => ?_, fun x hx => ?_, fun x k hk => ?_, h.completed_of_reported,
    h.executed_of_completed, fun k hk => Nat.lt_succ_of_lt (h.executed_lt k hk)⟩
  · refine ⟨update_of_ne (hother u hu x hx) .., ?_, fun k hk => ⟨Iff.rfl, Iff.rfl, id, rfl⟩⟩
    simp only [hflag x (hother u hu x hx)]
    exact id
  · refine ⟨r.jobs.count, update_self .., fun hk => ?_, ?_⟩
    · exact lt_irrefl _ (h.executed_lt _ hk)
    · cases hparent : r.parentOf r.jobs.count with
      | none => rfl
      | some k => exact absurd (hcounted.parentOf_lt _ k hparent).1 (lt_irrefl _)
  · simp only [hrecord']
    exact h.unique u v x
  · simp only [hrecord']
    exact h.bounded u x
  · rcases Interleaving.update_cases hk with ⟨hxj, hnew⟩ | ⟨-, hold⟩
    · rw [← Option.some.inj hnew, hxj]
      exact ⟨h.bounded t job hrecord, Nat.lt_succ_self _⟩
    · exact ⟨(h.owner_bounded x k hold).1, Nat.lt_succ_of_lt (h.owner_bounded x k hold).2⟩
  · rcases Interleaving.update_cases hk with ⟨hxj, hnew⟩ | ⟨-, hold⟩
    · rcases Interleaving.update_cases hk' with ⟨hxj', -⟩ | ⟨-, hold'⟩
      · rw [hxj, hxj']
      · exact absurd (Option.some.inj hnew).symm (hlt hold')
    · rcases Interleaving.update_cases hk' with ⟨-, hnew'⟩ | ⟨-, hold'⟩
      · exact absurd (Option.some.inj hnew').symm (hlt hold)
      · exact h.owner_inj x x' k hold hold'
  · rcases Nat.lt_succ_iff_lt_or_eq.mp hk with hk | rfl
    · rcases h.kept k hk with hreported | ⟨x, hx⟩
      · exact Or.inl hreported
      · by_cases hxj : x = job
        · exact Or.inl (h.reported_of_taken hstage (hxj ▸ hx))
        · exact Or.inr ⟨x, (update_of_ne hxj ..).trans hx⟩
    · exact Or.inr ⟨job, update_self ..⟩
  · obtain ⟨⟨k, hk, hnot⟩, hnone⟩ := h.queued x hx
    have hxj : x ≠ job := by
      rintro rfl
      exact hnone t hrecord
    refine ⟨⟨k, (update_of_ne hxj ..).trans hk, hnot⟩, fun u => ?_⟩
    simp only [hrecord']
    exact hnone u
  · by_cases hxj : x = job
    · refine Or.inr (Or.inr ⟨t, ?_⟩)
      simp only [hpc', update_self, hxj]
      rfl
    · simp only [update_of_ne hxj] at hk
      refine (h.active x k hk).imp_right (Or.imp_right ?_)
      rintro ⟨u, hu⟩
      refine ⟨u, ?_⟩
      have hut : u ≠ t := by
        rintro rfl
        rw [hstage] at hu
        cases hu
      simp only [hpc', update_of_ne hut]
      exact hu

/-- A record is put into the ring. -/
theorem submitWrite (h : Staged r) {pos : ℕ} {descs : List JobDesc}
    (hpc : r.state.pc t = .submitWrite job pos descs) {s' : State n Client}
    (hpc' : s'.pc = update r.state.pc t (.submitNext descs)) (hpool : s'.jobPool = r.state.jobPool) :
    Staged { r with state := s', queued := update r.queued job true } := by
  have hrecord : (stage (r.state.pc t)).record = some job := by rw [hpc]; rfl
  have hknows := h.knows t
  rw [hpc] at hknows
  refine ⟨h.knows_update hpc' (fun u hu x hx => ⟨rfl, by rw [hpool]; exact id, fun k hk => ?_⟩) trivial,
    h.unique_update hpc' (of_eq_none rfl), h.bounded_update hpc' (of_eq_none rfl), h.owner_bounded,
    h.owner_inj, h.kept,
    fun x hx => ?_, fun x k hk => ?_, h.completed_of_reported, h.executed_of_completed, h.executed_lt⟩
  · exact ⟨Iff.rfl, Iff.rfl, id, rfl⟩
  · have hnone : ∀ u, u ≠ t → (stage (r.state.pc u)).record ≠ some x := by
      intro u hu hux
      rcases Interleaving.update_cases hx with ⟨rfl, -⟩ | ⟨-, hx⟩
      · exact hu (h.unique u t x hux hrecord)
      · exact (h.queued x hx).2 u hux
    refine ⟨?_, fun u => ?_⟩
    · rcases Interleaving.update_cases hx with ⟨rfl, -⟩ | ⟨-, hx⟩
      · exact hknows
      · exact (h.queued x hx).1
    · by_cases hu : u = t
      · simp only [hu, hpc', update_self]
        intro heq
        cases heq
      · simp only [hpc', update_of_ne hu]
        exact hnone u hu
  · by_cases hxj : x = job
    · exact Or.inr (Or.inl (by simp [hxj]))
    · refine (h.active x k hk).imp_right (Or.imp (fun hq => (update_of_ne hxj ..).trans hq) ?_)
      rintro ⟨u, hu⟩
      refine ⟨u, ?_⟩
      have hut : u ≠ t := by
        rintro rfl
        rw [hpc] at hu
        exact hxj (Option.some.inj hu).symm
      simp only [hpc', update_of_ne hut]
      exact hu

/-- A job of the queue is called. -/
theorem call (h : Staged r) {mode : Mode} (hpc : r.state.pc t = .call mode job)
    (hqueued : r.queued job = true) {s' : State n Client}
    (hpc' : s'.pc = update r.state.pc t (.finish mode job)) (hpool : s'.jobPool = r.state.jobPool) :
    Staged
      { r with
        state := s'
        jobs := { r.jobs with executed := (r.jobs.owner job).toList ++ r.jobs.executed }
        queued := update r.queued job false } := by
  obtain ⟨⟨k, hk, hnot⟩, hnone⟩ := h.queued job hqueued
  have hexecuted : ∀ x, x ∈ (r.jobs.owner job).toList ++ r.jobs.executed ↔
      x = k ∨ x ∈ r.jobs.executed := by
    intro x
    simp [hk]
  have hne : ∀ x y, x ≠ job → r.jobs.owner x = some y → y ≠ k := by
    rintro x y hx hy rfl
    exact hx (h.owner_inj x job y hy hk)
  have hrecord : ∀ u x, (stage (r.state.pc u)).record = some x → x ≠ job := by
    rintro u x hx rfl
    exact hnone u hx
  refine ⟨h.knows_update hpc' (fun u hu x hx => ⟨rfl, by rw [hpool]; exact id, fun y hy => ?_⟩) ?_,
    h.unique_update hpc' ?_, h.bounded_update hpc' ?_, h.owner_bounded, h.owner_inj, h.kept,
    fun x hx => ?_, fun x y hy => ?_, h.completed_of_reported, fun y hy => ?_, fun y hy => ?_⟩
  · refine ⟨?_, Iff.rfl, id, rfl⟩
    simp only [hexecuted, hne x y (hrecord u x hx) hy, false_or]
  · refine ⟨k, hk, (hexecuted k).mpr (Or.inl rfl), fun hreported => hnot ?_⟩
    exact h.executed_of_completed k (h.completed_of_reported k hreported)
  · intro x hx u hu
    obtain rfl := Option.some.inj hx
    exact hnone u
  · intro x hx
    obtain rfl := Option.some.inj hx
    exact (h.owner_bounded _ k hk).1
  · rcases Interleaving.update_cases hx with ⟨-, hx⟩ | ⟨hxj, hx⟩
    · cases hx
    · obtain ⟨⟨y, hy, hy'⟩, hnone'⟩ := h.queued x hx
      refine ⟨⟨y, hy, fun hmem => ?_⟩, fun u => ?_⟩
      · exact ((hexecuted y).mp hmem).elim (hne x y hxj hy) hy'
      · by_cases hu : u = t
        · simp only [hu, hpc', update_self]
          exact fun heq => hxj (Option.some.inj heq).symm
        · simp only [hpc', update_of_ne hu]
          exact hnone' u
  · by_cases hxj : x = job
    · refine Or.inr (Or.inr ⟨t, ?_⟩)
      simp only [hpc', update_self, hxj]
      rfl
    · refine (h.active x y hy).imp_right (Or.imp (fun hq => (update_of_ne hxj ..).trans hq) ?_)
      rintro ⟨u, hu⟩
      refine ⟨u, ?_⟩
      have hut : u ≠ t := by
        rintro rfl
        rw [hpc] at hu
        cases hu
      simp only [hpc', update_of_ne hut]
      exact hu
  · exact (hexecuted y).mpr (Or.inr (h.executed_of_completed y hy))
  · rcases (hexecuted y).mp hy with rfl | hy
    · exact (h.owner_bounded job _ hk).2
    · exact h.executed_lt y hy

/-- The completion flag of a job is set that was executed. -/
theorem setFlag (h : Staged r) (hk : r.jobs.owner job = some k) (hexecuted : k ∈ r.jobs.executed)
    {s' : State n Client} (hpc' : s'.pc = update r.state.pc t pc')
    (hflag : ∀ x, (r.state.jobPool x).completionFlag ≠ 0 → (s'.jobPool x).completionFlag ≠ 0)
    (hrecord : (stage pc').record = (stage (r.state.pc t)).record)
    (hactive : (stage pc').active = (stage (r.state.pc t)).active)
    (hself : Knows { r with state := s', completed := (r.jobs.owner job).toList ++ r.completed }
      (stage pc')) :
    Staged { r with state := s', completed := (r.jobs.owner job).toList ++ r.completed } := by
  have hcompleted : ∀ x, x ∈ (r.jobs.owner job).toList ++ r.completed ↔ x = k ∨ x ∈ r.completed := by
    intro x
    simp [hk]
  have hrecord' : ∀ u, (stage (s'.pc u)).record = (stage (r.state.pc u)).record :=
    Interleaving.apply_eq_of_update (f := fun pc => (stage pc).record) hpc' hrecord
  have hactive' : ∀ u, (stage (s'.pc u)).active = (stage (r.state.pc u)).active :=
    Interleaving.apply_eq_of_update (f := fun pc => (stage pc).active) hpc' hactive
  refine ⟨h.knows_update hpc' (fun u hu x hx => ⟨rfl, hflag x, fun y hy => ?_⟩) hself, fun u v x => ?_,
    fun u x => ?_, h.owner_bounded, h.owner_inj, h.kept, ?_, ?_, fun y hy => ?_, fun y hy => ?_,
    h.executed_lt⟩
  · exact ⟨Iff.rfl, Iff.rfl, fun hmem => (hcompleted y).mpr (Or.inr hmem), rfl⟩
  · simp only [hrecord']
    exact h.unique u v x
  · simp only [hrecord']
    exact h.bounded u x
  · simp only [hrecord']
    exact h.queued
  · simp only [hactive']
    exact h.active
  · exact (hcompleted y).mpr (Or.inr (h.completed_of_reported y hy))
  · rcases (hcompleted y).mp hy with rfl | hy
    · exact hexecuted
    · exact h.executed_of_completed y hy

/-- A job has reported to its parent, if it has one. -/
theorem report (h : Staged r) {mode : Mode} (hpc : r.state.pc t = .parent mode job)
    {s' : State n Client} (hpc' : s'.pc = update r.state.pc t pc') (hnone : (stage pc').record = none)
    (hflag : ∀ x, (s'.jobPool x).completionFlag = (r.state.jobPool x).completionFlag) :
    Staged { r with state := s', reported := (r.jobs.owner job).toList ++ r.reported } := by
  have hrecord : (stage (r.state.pc t)).record = some job := by rw [hpc]; rfl
  have hknows := h.knows t
  rw [hpc] at hknows
  obtain ⟨k, hk, -, -, hcompleted⟩ := hknows
  have hreported : ∀ x, x ∈ (r.jobs.owner job).toList ++ r.reported ↔ x = k ∨ x ∈ r.reported := by
    intro x
    simp [hk]
  have hstage : stage pc' = .none := by
    cases hst : stage pc' <;> rw [hst] at hnone <;> first | rfl | cases hnone
  have hne : ∀ x y, x ≠ job → r.jobs.owner x = some y → y ≠ k := by
    rintro x y hx hy rfl
    exact hx (h.owner_inj x job y hy hk)
  refine ⟨h.knows_update hpc' (fun u hu x hx => ⟨rfl, by rw [hflag]; exact id, fun y hy => ?_⟩) ?_,
    h.unique_update hpc' ?_, h.bounded_update hpc' ?_, h.owner_bounded, h.owner_inj, fun y hy => ?_,
    fun x hx => ?_, fun x y hy => ?_, fun y hy => ?_, h.executed_of_completed, h.executed_lt⟩
  · have hxj : x ≠ job := by
      rintro rfl
      exact hu (h.unique u t x hx hrecord)
    refine ⟨Iff.rfl, ?_, id, rfl⟩
    simp only [hreported, hne x y hxj hy, false_or]
  · rw [hstage]
    trivial
  · intro x hx
    rw [hnone] at hx
    cases hx
  · intro x hx
    rw [hnone] at hx
    cases hx
  · exact (h.kept y hy).imp_left fun hmem => (hreported y).mpr (Or.inr hmem)
  · obtain ⟨howner, hnone'⟩ := h.queued x hx
    refine ⟨howner, fun u => ?_⟩
    by_cases hu : u = t
    · simp only [hu, hpc', update_self, hnone]
      intro heq
      cases heq
    · simp only [hpc', update_of_ne hu]
      exact hnone' u
  · by_cases hxj : x = job
    · rw [hxj, hk] at hy
      exact Or.inl ((hreported y).mpr (Or.inl (Option.some.inj hy).symm))
    · refine (h.active x y hy).imp (fun hmem => (hreported y).mpr (Or.inr hmem)) (Or.imp_right ?_)
      rintro ⟨u, hu⟩
      refine ⟨u, ?_⟩
      have hut : u ≠ t := by
        rintro rfl
        rw [hpc] at hu
        exact hxj (Option.some.inj hu).symm
      simp only [hpc', update_of_ne hut]
      exact hu
  · rcases (hreported y).mp hy with rfl | hy
    · exact hcompleted
    · exact h.completed_of_reported y hy

end Staged

/-! ## The children and their parents -/

omit [DecidableEq Client] in
theorem children_eq_zero : children r k = 0 ↔ ∀ c, r.parentOf c = some k → c ∈ r.reported := by
  simp only [children, Interleaving.headcount_eq_zero, waitsFor]
  refine forall_congr' fun c => ?_
  by_cases hc : c ∈ r.reported
  · simp [hc]
  · simp [hc]

namespace Counted

omit [DecidableEq Client] in
/-- A job whose flag is set has no children left. -/
theorem remaining_eq_zero (h : Counted r) (hk : r.jobs.owner job = some k)
    (hflag : (r.state.jobPool job).completionFlag ≠ 0) :
    (r.state.jobPool job).remainingChildren = 0 := by
  have hcount := h.count job k hk
  rw [children_eq_zero.mpr (h.flag job k hk hflag).2] at hcount
  exact_mod_cast hcount

omit [DecidableEq Client] in
theorem remaining_of_taken (h : Counted r) (hknows : Knows r (.taken job)) :
    (r.state.jobPool job).remainingChildren = 0 := by
  cases hk : r.jobs.owner job with
  | none => exact h.count_none job hk
  | some k =>
      refine h.remaining_eq_zero hk (hknows.resolve_left ?_)
      rw [hk]
      exact Option.some_ne_none k

omit [DecidableEq Client] in
/-- There are no more children than records. -/
theorem children_le (h : Counted r) (hstaged : Staged r) (k : ℕ) : children r k ≤ jobPoolCapacity := by
  refine Interleaving.headcount_le_of_names r.jobs.owner fun c hc => ?_
  rw [decide_eq_true_eq, waitsFor] at hc
  split at hc
  · cases hc
  · rename_i hnot
    obtain ⟨job, hjob⟩ := (hstaged.kept c (h.parentOf_lt c k hc).1).resolve_left hnot
    exact ⟨job, (hstaged.owner_bounded job c hjob).1, hjob⟩

omit [DecidableEq Client] in
/-- Nothing happens to the flags and the children. -/
theorem frame (h : Counted r) (hflag : ∀ x, (r'.state.jobPool x).completionFlag =
      (r.state.jobPool x).completionFlag)
    (hremaining : ∀ x, (r'.state.jobPool x).remainingChildren = (r.state.jobPool x).remainingChildren)
    (hparent : ∀ x, (r'.state.jobPool x).parent = (r.state.jobPool x).parent)
    (howner : r'.jobs.owner = r.jobs.owner) (hcount : r'.jobs.count = r.jobs.count)
    (hexecuted : ∀ k ∈ r.jobs.executed, k ∈ r'.jobs.executed) (hparentOf : r'.parentOf = r.parentOf)
    (hreported : r'.reported = r.reported)
    (hunlinked : ∀ u x, stage (r.state.pc u) = .unlinked x → stage (r'.state.pc u) = .unlinked x) :
    Counted r' := by
  refine ⟨fun x k hk hset => ?_, fun x k hk => ?_, fun x hx => ?_, fun c k hc => ?_,
    fun x c hc hnot hnone => ?_⟩
  · rw [howner] at hk
    rw [hflag] at hset
    rw [hparentOf, hreported]
    exact (h.flag x k hk hset).imp_left (hexecuted k)
  · rw [howner] at hk
    have hwaits : waitsFor r' = waitsFor r := by
      funext c
      simp only [waitsFor, hparentOf, hreported]
    rw [hremaining, h.count x k hk, children, children, hwaits]
  · rw [howner] at hx
    rw [hremaining, h.count_none x hx]
  · rw [hparentOf] at hc
    rw [hcount]
    exact h.parentOf_lt c k hc
  · rw [howner] at hc
    rw [hreported] at hnot
    simp only [ParentIs, hparent, hparentOf, howner]
    exact h.parent x c hc hnot fun u hu => hnone u (hunlinked u x hu)

omit [DecidableEq Client] in
/-- The completion flag of a job is set that was executed and has no children left. -/
theorem setFlag (h : Counted r) (hk : r.jobs.owner job = some k) (hexecuted : k ∈ r.jobs.executed)
    (hzero : (r.state.jobPool job).remainingChildren = 0) {s' : State n Client}
    (hflag : ∀ x, x ≠ job → (s'.jobPool x).completionFlag = (r.state.jobPool x).completionFlag)
    (hremaining : ∀ x, (s'.jobPool x).remainingChildren = (r.state.jobPool x).remainingChildren)
    (hparent : ∀ x, (s'.jobPool x).parent = (r.state.jobPool x).parent)
    (hunlinked : ∀ u x, stage (r.state.pc u) = .unlinked x → stage (s'.pc u) = .unlinked x)
    (completed : List ℕ) : Counted { r with state := s', completed := completed } := by
  refine ⟨fun x y hy hset => ?_, fun x y hy => ?_, fun x hx => ?_, h.parentOf_lt,
    fun x c hc hnot hnone => ?_⟩
  · by_cases hxj : x = job
    · rw [hxj] at hy
      obtain rfl := Option.some.inj (hk.symm.trans hy)
      have hcount := h.count job k hk
      rw [hzero] at hcount
      exact ⟨hexecuted, children_eq_zero.mp hcount.symm⟩
    · simp only [hflag x hxj] at hset
      exact h.flag x y hy hset
  · simp only [hremaining]
    exact h.count x y hy
  · simp only [hremaining]
    exact h.count_none x hx
  · simp only [ParentIs, hparent]
    exact h.parent x c hc hnot fun u hu => hnone u (hunlinked u x hu)

/-- The completion flag of a record is cleared, and the record belongs to the next job. -/
theorem submitFlag (h : Counted r) {desc : JobDesc} {descs : List JobDesc}
    (hknows : Knows r (.taken job)) (hpc : r.state.pc t = .submitFlag job desc descs)
    {s' : State n Client} (hpc' : s'.pc = update r.state.pc t (.submitParent job desc descs))
    (hpool : s'.jobPool = update r.state.jobPool job { r.state.jobPool job with completionFlag := 0 }) :
    Counted
      { r with
        state := s'
        jobs := { r.jobs with
          owner := update r.jobs.owner job (some r.jobs.count)
          count := r.jobs.count + 1 } } := by
  have hother : ∀ x, x ≠ job → s'.jobPool x = r.state.jobPool x := fun x hx => by
    rw [hpool, update_of_ne hx]
  have hself : s'.jobPool job = { r.state.jobPool job with completionFlag := 0 } := by
    rw [hpool, update_self]
  refine ⟨fun x k hk hset => ?_, fun x k hk => ?_, fun x hx => ?_, fun c k hc => ?_,
    fun x c hc hnot hnone => ?_⟩
  · by_cases hxj : x = job
    · simp only [hxj, hself] at hset
      exact absurd rfl hset
    · simp only [hother x hxj] at hset
      exact h.flag x k ((update_of_ne hxj ..).symm.trans hk) hset
  · rcases Interleaving.update_cases hk with ⟨hxj, hnew⟩ | ⟨hxj, hold⟩
    · have hzero : children r r.jobs.count = 0 := by
        refine children_eq_zero.mpr fun c hc => ?_
        exact absurd (h.parentOf_lt c _ hc).2 (lt_irrefl _)
      obtain rfl := Option.some.inj hnew
      simp only [hxj, hself, h.remaining_of_taken hknows, Nat.cast_zero]
      exact hzero.symm
    · simp only [hother x hxj]
      exact h.count x k hold
  · rcases Interleaving.update_cases hx with ⟨-, hnew⟩ | ⟨hxj, hold⟩
    · cases hnew
    · simp only [hother x hxj]
      exact h.count_none x hold
  · exact (h.parentOf_lt c k hc).imp Nat.lt_succ_of_lt Nat.lt_succ_of_lt
  · have hxj : x ≠ job := by
      rintro rfl
      refine hnone t ?_
      simp only [hpc', update_self]
      rfl
    have hc' : r.jobs.owner x = some c := (update_of_ne hxj ..).symm.trans hc
    have hparent := h.parent x c hc' hnot fun u hu => hnone u (by
      have hut : u ≠ t := by
        rintro rfl
        rw [hpc] at hu
        cases hu
      simp only [hpc', update_of_ne hut]
      exact hu)
    simp only [ParentIs, hother x hxj]
    refine hparent.imp_right ?_
    rintro ⟨parent, k, hfield, howner, hc''⟩
    refine ⟨parent, k, hfield, (update_of_ne ?_ ..).trans howner, hc''⟩
    -- the job of the record is complete, so that it has no children left
    rintro rfl
    refine hnot ((h.flag parent k howner (hknows.resolve_left ?_)).2 c hc'')
    rw [howner]
    exact Option.some_ne_none k

/-- A job is submitted without a parent. -/
theorem submitParent_none (h : Counted r) {desc : JobDesc} {descs : List JobDesc}
    (hknows : Knows r (.unlinked job)) (hpc : r.state.pc t = .submitParent job desc descs)
    {s' : State n Client} (hpc' : s'.pc = update r.state.pc t (.submitHead job descs))
    (hpool : s'.jobPool = update r.state.jobPool job { r.state.jobPool job with parent := none }) :
    Counted { r with state := s' } := by
  obtain ⟨c₀, hc₀, -, hparent₀⟩ := hknows
  have hother : ∀ x, x ≠ job → s'.jobPool x = r.state.jobPool x := fun x hx => by
    rw [hpool, update_of_ne hx]
  have hself : s'.jobPool job = { r.state.jobPool job with parent := none } := by
    rw [hpool, update_self]
  have hsame : ∀ x, (s'.jobPool x).completionFlag = (r.state.jobPool x).completionFlag ∧
      (s'.jobPool x).remainingChildren = (r.state.jobPool x).remainingChildren := by
    intro x
    by_cases hxj : x = job
    · rw [hxj, hself]
      exact ⟨rfl, rfl⟩
    · rw [hother x hxj]
      exact ⟨rfl, rfl⟩
  refine ⟨fun x k hk hset => ?_, fun x k hk => ?_, fun x hx => ?_, h.parentOf_lt,
    fun x c hc hnot hnone => ?_⟩
  · simp only [hsame] at hset
    exact h.flag x k hk hset
  · simp only [hsame]
    exact h.count x k hk
  · simp only [hsame]
    exact h.count_none x hx
  · by_cases hxj : x = job
    · rw [hxj] at hc
      obtain rfl := Option.some.inj (hc₀.symm.trans hc)
      exact Or.inl ⟨by simp only [hxj, hself], hparent₀⟩
    · simp only [ParentIs, hother x hxj]
      refine h.parent x c hc hnot fun u hu => hnone u ?_
      have hut : u ≠ t := by
        rintro rfl
        rw [hpc] at hu
        exact hxj (Stage.unlinked.inj hu).symm
      simp only [hpc', update_of_ne hut]
      exact hu

/-- A job is submitted with a parent that is not complete. -/
theorem submitParent_some (h : Counted r) (hstaged : Staged r) {desc : JobDesc} {descs : List JobDesc}
    {parent c : ℕ} (hpc : r.state.pc t = .submitParent job desc descs) (hc : r.jobs.owner job = some c)
    (hnew : r.parentOf c = none) (hnot : c ∉ r.reported) (hk : r.jobs.owner parent = some k)
    (hflag : (r.state.jobPool parent).completionFlag = 0) {s' : State n Client}
    (hpc' : s'.pc = update r.state.pc t (.submitHead job descs))
    (hflags : ∀ x, (s'.jobPool x).completionFlag = (r.state.jobPool x).completionFlag)
    (hremaining : ∀ x, (s'.jobPool x).remainingChildren =
      if x = parent then ((r.state.jobPool x).remainingChildren + 1) % 2 ^ 32
      else (r.state.jobPool x).remainingChildren)
    (hparent : ∀ x, (s'.jobPool x).parent =
      if x = job then some parent else (r.state.jobPool x).parent) :
    Counted { r with state := s', parentOf := update r.parentOf c (some k) } := by
  set r' : Run n Client := { r with state := s', parentOf := update r.parentOf c (some k) }
  have hwaits : waitsFor r' = update (waitsFor r) c (some k) := by
    funext x
    by_cases hx : x = c
    · subst hx
      simp [waitsFor, r', hnot]
    · simp [waitsFor, r', update_of_ne hx]
  have hnone : waitsFor r c = none := by
    simp [waitsFor, hnew]
  have henter : children r' k = children r k + 1 := by
    rw [children, hwaits]
    exact Interleaving.headcount_enter (by simp [hnone]) (by simp)
  have hstay : ∀ k', k' ≠ k → children r' k' = children r k' := by
    intro k' hk'
    rw [children, hwaits]
    exact Interleaving.headcount_stay (by simp [hnone, Ne.symm hk'])
  refine ⟨fun x y hy hset => ?_, fun x y hy => ?_, fun x hx => ?_, fun c' k' hc' => ?_,
    fun x c' hc' hnot' hnone' => ?_⟩
  · simp only [r', hflags] at hset
    refine (h.flag x y hy hset).imp_right fun hall c' hc' => ?_
    rcases Interleaving.update_cases hc' with ⟨-, hyk⟩ | ⟨-, hold⟩
    · -- the flag of the parent is not set
      obtain rfl := Option.some.inj hyk
      obtain rfl := hstaged.owner_inj x parent k hy hk
      exact absurd hflag hset
    · exact hall c' hold
  · by_cases hx : x = parent
    · rw [hx] at hy
      obtain rfl := Option.some.inj (hk.symm.trans hy)
      have hcount := h.count parent k hk
      have hle := h.children_le hstaged k
      rw [← hcount] at hle
      have hle' : (r.state.jobPool parent).remainingChildren ≤ jobPoolCapacity := by exact_mod_cast hle
      have hlt : (r.state.jobPool parent).remainingChildren + 1 < 2 ^ 32 :=
        Nat.lt_of_le_of_lt (Nat.succ_le_succ hle') (by decide)
      simp only [r', hremaining, hx, if_true, Nat.mod_eq_of_lt hlt]
      rw [henter, ← hcount, Nat.cast_add, Nat.cast_one]
    · have hyk : y ≠ k := by
        rintro rfl
        exact hx (hstaged.owner_inj x parent y hy hk)
      simp only [r', hremaining, if_neg hx]
      rw [hstay y hyk]
      exact h.count x y hy
  · have hxp : x ≠ parent := by
      rintro rfl
      rw [show r'.jobs.owner x = some k from hk] at hx
      cases hx
    simp only [r', hremaining, if_neg hxp]
    exact h.count_none x hx
  · rcases Interleaving.update_cases hc' with ⟨hcc, hkk⟩ | ⟨-, hold⟩
    · rw [hcc, ← Option.some.inj hkk]
      exact ⟨(hstaged.owner_bounded job c hc).2, (hstaged.owner_bounded parent k hk).2⟩
    · exact h.parentOf_lt c' k' hold
  · by_cases hxj : x = job
    · rw [hxj] at hc'
      obtain rfl := Option.some.inj (hc.symm.trans hc')
      refine Or.inr ⟨parent, k, ?_, hk, update_self ..⟩
      simp only [r', hparent, if_pos hxj]
    · have hcc : c' ≠ c := by
        rintro rfl
        exact hxj (hstaged.owner_inj x job c' hc' hc)
      have hold := h.parent x c' hc' hnot' fun u hu => hnone' u (by
        have hut : u ≠ t := by
          rintro rfl
          rw [hpc] at hu
          exact hxj (Stage.unlinked.inj hu).symm
        simp only [r', hpc', update_of_ne hut]
        exact hu)
      simp only [ParentIs, r', hparent, if_neg hxj, update_of_ne hcc]
      exact hold

omit [DecidableEq Client] in
/-- What the children of a job are after a job has reported. -/
theorem waitsFor_report {c : ℕ} (hc : r.jobs.owner job = some c) {s' : State n Client} :
    waitsFor { r with state := s', reported := (r.jobs.owner job).toList ++ r.reported } =
      update (waitsFor r) c none := by
  funext x
  by_cases hx : x = c
  · simp [waitsFor, hc, hx]
  · simp [waitsFor, hc, hx]

omit [DecidableEq Client] in
/-- A job has reported, and the children are counted anew. -/
theorem report (h : Counted r) {s' : State n Client}
    (hflag : ∀ x, (s'.jobPool x).completionFlag = (r.state.jobPool x).completionFlag)
    (hparent : ∀ x, (s'.jobPool x).parent = (r.state.jobPool x).parent)
    (hunlinked : ∀ u x, stage (r.state.pc u) = .unlinked x → stage (s'.pc u) = .unlinked x)
    (hcount : ∀ x k, r.jobs.owner x = some k → ((s'.jobPool x).remainingChildren : ℕ∞) =
      children { r with state := s', reported := (r.jobs.owner job).toList ++ r.reported } k)
    (hcount_none : ∀ x, r.jobs.owner x = none → (s'.jobPool x).remainingChildren = 0) :
    Counted { r with state := s', reported := (r.jobs.owner job).toList ++ r.reported } := by
  refine ⟨fun x k hk hset => ?_, hcount, hcount_none, h.parentOf_lt, fun x c hc hnot hnone => ?_⟩
  · simp only [hflag] at hset
    refine (h.flag x k hk hset).imp_right fun hall c hc => ?_
    exact List.mem_append_right _ (hall c hc)
  · simp only [ParentIs, hparent]
    refine h.parent x c hc (fun hmem => hnot ?_) fun u hu => hnone u (hunlinked u x hu)
    exact List.mem_append_right _ hmem

omit [DecidableEq Client] in
/-- A job without a parent has reported. -/
theorem report_none (h : Counted r) {c : ℕ} (hc : r.jobs.owner job = some c) (hnone : r.parentOf c = none)
    {s' : State n Client} (hpool : s'.jobPool = r.state.jobPool)
    (hunlinked : ∀ u x, stage (r.state.pc u) = .unlinked x → stage (s'.pc u) = .unlinked x) :
    Counted { r with state := s', reported := (r.jobs.owner job).toList ++ r.reported } := by
  refine h.report (fun x => by rw [hpool]) (fun x => by rw [hpool]) hunlinked (fun x k hk => ?_)
    fun x hx => ?_
  · have hwaits : waitsFor r c = none := by
      simp [waitsFor, hnone]
    rw [hpool, h.count x k hk, children, children, waitsFor_report hc]
    exact (Interleaving.headcount_stay (by rw [hwaits])).symm
  · rw [hpool]
    exact h.count_none x hx

omit [DecidableEq Client] in
/-- A job has reported to its parent. -/
theorem report_some (h : Counted r) (hstaged : Staged r) {parent c : ℕ} (hc : r.jobs.owner job = some c)
    (hnot : c ∉ r.reported) (hk : r.jobs.owner parent = some k) (hparentOf : r.parentOf c = some k)
    {s' : State n Client}
    (hpool : s'.jobPool = update r.state.jobPool parent { r.state.jobPool parent with
      remainingChildren := ((r.state.jobPool parent).remainingChildren + (2 ^ 32 - 1)) % 2 ^ 32 })
    (hunlinked : ∀ u x, stage (r.state.pc u) = .unlinked x → stage (s'.pc u) = .unlinked x) :
    Counted { r with state := s', reported := (r.jobs.owner job).toList ++ r.reported } := by
  have hother : ∀ x, x ≠ parent → s'.jobPool x = r.state.jobPool x := fun x hx => by
    rw [hpool, update_of_ne hx]
  have hself : s'.jobPool parent = { r.state.jobPool parent with
      remainingChildren := ((r.state.jobPool parent).remainingChildren + (2 ^ 32 - 1)) % 2 ^ 32 } := by
    rw [hpool, update_self]
  have hsame : ∀ x, (s'.jobPool x).completionFlag = (r.state.jobPool x).completionFlag ∧
      (s'.jobPool x).parent = (r.state.jobPool x).parent := by
    intro x
    by_cases hx : x = parent
    · rw [hx, hself]
      exact ⟨rfl, rfl⟩
    · rw [hother x hx]
      exact ⟨rfl, rfl⟩
  have hwaits : waitsFor r c = some k := by
    simp [waitsFor, hnot, hparentOf]
  refine h.report (fun x => (hsame x).1) (fun x => (hsame x).2) hunlinked (fun x y hy => ?_) fun x hx => ?_
  · by_cases hx : x = parent
    · rw [hx] at hy
      obtain rfl := Option.some.inj (hk.symm.trans hy)
      have hleave : headcount (fun parent => decide (parent = some k)) (update (waitsFor r) c none) + 1 =
          children r k :=
        Interleaving.headcount_leave (by simp [hwaits]) (by simp)
      have hcount := h.count parent k hk
      have hle : (r.state.jobPool parent).remainingChildren ≤ jobPoolCapacity := by
        have hle := h.children_le hstaged k
        rw [← hcount] at hle
        exact_mod_cast hle
      have hbound : jobPoolCapacity < 2 ^ 32 := by decide
      have hpos : (r.state.jobPool parent).remainingChildren ≠ 0 := by
        intro hzero
        rw [← hcount, hzero, Nat.cast_zero] at hleave
        simp at hleave
      have hsub : ((r.state.jobPool parent).remainingChildren + (2 ^ 32 - 1)) % 2 ^ 32 + 1 =
          (r.state.jobPool parent).remainingChildren := by
        omega
      rw [children, waitsFor_report hc, hx, hself]
      rw [← hcount, ← hsub, Nat.cast_add, Nat.cast_one] at hleave
      exact (ENat.add_left_injective_of_ne_top ENat.one_ne_top hleave).symm
    · have hyk : y ≠ k := by
        rintro rfl
        exact hx (hstaged.owner_inj x parent y hy hk)
      rw [hother x hx, h.count x y hy, children, children, waitsFor_report hc]
      exact (Interleaving.headcount_stay (by simp [hwaits, Ne.symm hyk])).symm
  · have hxp : x ≠ parent := by
      rintro rfl
      rw [hk] at hx
      cases hx
    rw [hother x hxp]
    exact h.count_none x hx

end Counted

/-! ## Runs -/

/-- A thread that moves on from another place leaves the records that are not linked. -/
theorem unlinked_update {s s' : State n Client} (hpc : s'.pc = update s.pc t pc')
    (hself : ∀ x, stage (s.pc t) ≠ .unlinked x) (u : Thread n Client) (x : ℕ)
    (hu : stage (s.pc u) = .unlinked x) : stage (s'.pc u) = .unlinked x := by
  have hut : u ≠ t := by
    rintro rfl
    exact hself x hu
  rw [hpc, update_of_ne hut]
  exact hu

/-- A thread without a record moves on. -/
theorem Moves.sound {s' : State n Client} (hmoves : Moves r.state t s' pc') (hstaged : Staged r)
    (hcounted : Counted r) : Staged { r with state := s' } ∧ Counted { r with state := s' } := by
  have hfrom := stage_of_record hmoves.from_none
  have hto := stage_of_record hmoves.to_none
  constructor
  · refine hstaged.keep hmoves.pc rfl rfl rfl rfl (fun _ _ _ _ _ _ => rfl) ?_ ?_ ?_ ?_
    · simp only [hmoves.jobPool]
      exact fun _ => id
    · rw [hfrom, hto]
    · rw [hfrom, hto]
    · rw [hto]
      trivial
  · refine hcounted.frame ?_ ?_ ?_ rfl rfl (fun _ hk => hk) rfl rfl ?_
    · simp only [hmoves.jobPool, implies_true]
    · simp only [hmoves.jobPool, implies_true]
    · simp only [hmoves.jobPool, implies_true]
    · exact unlinked_update hmoves.pc (by simp [hfrom])

/-- A thread writes to the record that it has taken. -/
theorem Staged.fill (hstaged : Staged r) (hcounted : Counted r) (hknows : Knows r (.taken job))
    {f : JobInternal → JobInternal} (hstage : stage (r.state.pc t) = .taken job)
    (hstage' : stage pc' = .taken job)
    (hflag : (f (r.state.jobPool job)).completionFlag = (r.state.jobPool job).completionFlag)
    (hremaining : (f (r.state.jobPool job)).remainingChildren = (r.state.jobPool job).remainingChildren)
    (hparent : (f (r.state.jobPool job)).parent = (r.state.jobPool job).parent) :
    Staged { r with state := (r.state.setJob job f).goto t pc' } ∧
      Counted { r with state := (r.state.setJob job f).goto t pc' } := by
  have hflags : ∀ x, ((r.state.setJob job f).jobPool x).completionFlag =
      (r.state.jobPool x).completionFlag := apply_update_self hflag
  constructor
  · refine hstaged.keep rfl rfl rfl rfl rfl (fun _ _ _ _ _ _ => rfl) ?_ (by rw [hstage, hstage'])
      (by rw [hstage, hstage']) ?_
    · intro x hx
      exact ne_of_eq_of_ne (hflags x) hx
    · rw [hstage']
      refine Or.imp_right (fun hset => ?_) hknows
      exact ne_of_eq_of_ne (hflags job) hset
  · exact hcounted.frame hflags (apply_update_self hremaining) (apply_update_self hparent) rfl rfl
      (fun _ hk => hk) rfl rfl (unlinked_update rfl (by simp [hstage]))

/-- The submission of a job with a parent links the two. -/
theorem Staged.next_submitParent (hstaged : Staged r) (hcounted : Counted r) {job : ℕ} {desc : JobDesc}
    {descs : List JobDesc} (hpc : r.state.pc t = .submitParent job desc descs) {weak : Bool}
    (horderly : Orderly r (.next t weak)) {s' : State n Client}
    (hstep : JobSystem.step r.state (.next t weak) = some s') :
    Staged (r.next t s') ∧ Counted (r.next t s') := by
  have hknows := hstaged.knows t
  simp only [Run.next, hpc]
  simp only [Orderly, hpc] at horderly
  rw [hpc] at hknows
  obtain ⟨c, hc, hexecuted, hnew⟩ := hknows
  have hnot : c ∉ r.reported := fun hmem =>
    hexecuted (hstaged.executed_of_completed c (hstaged.completed_of_reported c hmem))
  cases hparent : desc.parent with
  | none =>
      have hsame : update r.parentOf c none = r.parentOf := by
        rw [← hnew, Function.update_eq_self]
      rw [step_submitParent_none hpc hparent] at hstep
      cases hstep
      simp only [hc, Option.bind_none, hsame]
      constructor
      · refine hstaged.keep rfl rfl rfl rfl rfl (fun _ _ _ _ _ _ => rfl) ?_ (by rw [hpc]; rfl)
          (by rw [hpc]; rfl) ⟨c, hc, hexecuted⟩
        intro x hx
        exact ne_of_eq_of_ne (apply_update_self (f := JobInternal.completionFlag) (by rfl) x) hx
      · exact hcounted.submitParent_none ⟨c, hc, hexecuted, hnew⟩ hpc rfl rfl
  | some parent =>
      obtain ⟨howner, hflag⟩ := horderly parent hparent
      obtain ⟨k, hk⟩ := Option.ne_none_iff_exists'.mp howner
      rw [step_submitParent_some hpc hparent] at hstep
      cases hstep
      simp only [hc, Option.bind_some, hk]
      constructor
      · refine hstaged.keep rfl rfl rfl rfl rfl (fun u hu x y hx hy => update_of_ne ?_ ..) ?_
          (by rw [hpc]; rfl) (by rw [hpc]; rfl) ⟨c, hc, hexecuted⟩
        · -- the record of another thread belongs to another job
          rintro rfl
          obtain rfl := hstaged.owner_inj x job y hy hc
          exact hu (hstaged.unique u t x hx (by rw [hpc]; rfl))
        · intro x hx
          exact ne_of_eq_of_ne (State.link_completionFlag x) hx
      · exact hcounted.submitParent_some hstaged hpc hc hnew hnot hk hflag rfl State.link_completionFlag
          State.link_remainingChildren State.link_parent

/-- A job that is done is reported to its parent. -/
theorem Staged.next_parent (hstaged : Staged r) (hcounted : Counted r) {mode : Mode} {job : ℕ}
    (hpc : r.state.pc t = .parent mode job) {weak : Bool} {s' : State n Client}
    (hstep : JobSystem.step r.state (.next t weak) = some s') :
    Staged (r.next t s') ∧ Counted (r.next t s') := by
  have hknows := hstaged.knows t
  simp only [Run.next, hpc]
  rw [hpc] at hknows
  obtain ⟨c, hc, -, hnot, -⟩ := hknows
  -- nobody else has the record, so that it is linked
  have hparentIs : ParentIs r job c := by
    refine hcounted.parent job c hc hnot fun u hu => ?_
    obtain rfl := hstaged.unique t u job (by rw [hpc]; rfl) (by rw [hu]; rfl)
    rw [hpc] at hu
    cases hu
  obtain ⟨hparent, hnone⟩ | ⟨parent, k, hparent, hk, hparentOf⟩ := hparentIs
  · rw [step_parent_none hpc hparent] at hstep
    cases hstep
    refine ⟨hstaged.report hpc rfl rfl fun _ => rfl, ?_⟩
    exact hcounted.report_none hc hnone rfl (unlinked_update rfl (by simp [hpc, stage]))
  · rw [step_parent_some hpc hparent] at hstep
    cases hstep
    refine ⟨hstaged.report hpc rfl (by split <;> rfl)
      (apply_update_self (f := JobInternal.completionFlag) (by rfl)), ?_⟩
    exact hcounted.report_some hstaged hc hnot hk hparentOf rfl
      (unlinked_update rfl (by simp [hpc, stage]))

/-- The next step of a thread. -/
theorem Staged.next (hstaged : Staged r) (hcounted : Counted r) {weak : Bool}
    (horderly : Orderly r (.next t weak)) {s' : State n Client}
    (hstep : JobSystem.step r.state (.next t weak) = some s') :
    Staged (r.next t s') ∧ Counted (r.next t s') := by
  have hknows := hstaged.knows t
  unfold Run.next
  cases hpc : r.state.pc t with
  | submitAlloc desc descs =>
      simp only [Orderly, hpc] at horderly
      rw [step_submitAlloc hpc] at hstep
      cases hstep
      refine ⟨hstaged.submitAlloc hcounted (Nat.mod_lt _ (by decide)) horderly hpc rfl rfl, ?_⟩
      exact hcounted.frame (fun _ => rfl) (fun _ => rfl) (fun _ => rfl) rfl rfl (fun _ hk => hk) rfl rfl
        (unlinked_update rfl (by simp [hpc, stage]))
  | submitFill job desc descs =>
      rw [hpc] at hknows
      rw [step_submitFill hpc] at hstep
      cases hstep
      exact hstaged.fill hcounted hknows (by rw [hpc]; rfl) rfl rfl rfl rfl
  | submitChildren job desc descs =>
      rw [hpc] at hknows
      rw [step_submitChildren hpc] at hstep
      cases hstep
      exact hstaged.fill hcounted hknows (by rw [hpc]; rfl) rfl rfl
        (hcounted.remaining_of_taken hknows).symm rfl
  | submitFlag job desc descs =>
      rw [hpc] at hknows
      rw [step_submitFlag hpc] at hstep
      cases hstep
      refine ⟨hstaged.submitFlag hcounted hpc rfl fun x hx => ?_, hcounted.submitFlag hknows hpc rfl rfl⟩
      simp only [State.goto, State.setJob, update_of_ne hx]
  | submitParent job desc descs =>
      have hnext := hstaged.next_submitParent hcounted hpc horderly hstep
      simpa only [Run.next, hpc] using hnext
  | submitHead job descs =>
      rw [hpc] at hknows
      rw [step_submitHead hpc] at hstep
      cases hstep
      refine ⟨hstaged.keep rfl rfl rfl rfl rfl (fun _ _ _ _ _ _ => rfl) (fun _ => id) (by rw [hpc]; rfl)
        (by rw [hpc]; rfl) hknows, ?_⟩
      exact hcounted.frame (fun _ => rfl) (fun _ => rfl) (fun _ => rfl) rfl rfl (fun _ hk => hk) rfl rfl
        (unlinked_update rfl (by simp [hpc, stage]))
  | submitWrite job pos descs =>
      rw [step_submitWrite hpc] at hstep
      cases hstep
      refine ⟨hstaged.submitWrite hpc rfl rfl, ?_⟩
      exact hcounted.frame (fun _ => rfl) (fun _ => rfl) (fun _ => rfl) rfl rfl (fun _ hk => hk) rfl rfl
        (unlinked_update rfl (by simp [hpc, stage]))
  | call mode job =>
      simp only [Orderly, hpc] at horderly
      rw [step_call hpc] at hstep
      cases hstep
      refine ⟨hstaged.call hpc horderly rfl rfl, ?_⟩
      exact hcounted.frame (fun _ => rfl) (fun _ => rfl) (fun _ => rfl) rfl rfl
        (fun _ hk => List.mem_append_right _ hk) rfl rfl (unlinked_update rfl (by simp [hpc, stage]))
  | finish mode job =>
      simp only [Orderly, hpc] at horderly
      rw [hpc] at hknows
      obtain ⟨k, hk, hexecuted, hnot⟩ := hknows
      rw [step_finish hpc] at hstep
      cases hstep
      constructor
      · refine hstaged.setFlag hk hexecuted rfl ?_ (by rw [hpc]; rfl) (by rw [hpc]; rfl)
          ⟨k, hk, hexecuted, hnot, by simp [hk]⟩
        exact State.flag_setJob
      · refine hcounted.setFlag hk hexecuted horderly (fun x hx => ?_)
          (apply_update_self (f := JobInternal.remainingChildren) (by rfl))
          (apply_update_self (f := JobInternal.parent) (by rfl))
          (unlinked_update rfl (by simp [hpc, stage])) _
        simp only [State.goto, State.setJob, update_of_ne hx]
  | parent mode job =>
      have hnext := hstaged.next_parent hcounted hpc hstep
      simpa only [Run.next, hpc] using hnext
  | parentDone mode parent =>
      simp only [Orderly, hpc] at horderly
      obtain ⟨hzero, k, hexecuted, hk⟩ := horderly
      rw [step_parentDone hpc] at hstep
      cases hstep
      constructor
      · refine hstaged.setFlag hk hexecuted rfl ?_ (by rw [hpc]; rfl) (by rw [hpc]; rfl) trivial
        exact State.flag_setJob
      · refine hcounted.setFlag hk hexecuted hzero (fun x hx => ?_)
          (apply_update_self (f := JobInternal.remainingChildren) (by rfl))
          (apply_update_self (f := JobInternal.parent) (by rfl))
          (unlinked_update rfl (by simp [hpc, stage])) _
        simp only [State.goto, State.setJob, update_of_ne hx]
  | _ =>
      obtain ⟨pc', hmoves⟩ := Moves.of_next (by rw [hpc]; rfl) hstep
      exact Moves.sound hmoves hstaged hcounted

/-- A call of a client, or the request of a shutdown. -/
theorem Staged.outside (hstaged : Staged r) (hcounted : Counted r) {a : Action n Client}
    (hnext : ∀ t weak, a ≠ .next t weak) {s' : State n Client}
    (hstep : JobSystem.step r.state a = some s') :
    Staged { r with state := s' } ∧ Counted { r with state := s' } := by
  by_cases hshutdown : a = .shutdown
  · subst hshutdown
    cases hstep
    exact ⟨⟨hstaged.knows, hstaged.unique, hstaged.bounded, hstaged.owner_bounded, hstaged.owner_inj,
      hstaged.kept, hstaged.queued, hstaged.active, hstaged.completed_of_reported,
      hstaged.executed_of_completed, hstaged.executed_lt⟩,
      hcounted.frame (fun _ => rfl) (fun _ => rfl) (fun _ => rfl) rfl rfl (fun _ hk => hk) rfl rfl
        fun _ _ hu => hu⟩
  · obtain ⟨c, pc', hmoves⟩ := Moves.outside hnext hshutdown hstep
    exact Moves.sound hmoves hstaged hcounted

omit [DecidableEq Client] in
theorem Staged.init {s : State n Client} (h : JobSystem.Initial s) :
    Staged (start s) ∧ Counted (start s) := by
  obtain ⟨d, -, rfl⟩ := h
  have hstage : ∀ t : Thread n Client, stage ((poolCreate d).pc t) = .none := by
    intro t
    cases t <;> rfl
  have hrecord : ∀ (t : Thread n Client) job, (stage ((poolCreate d).pc t)).record ≠ some job := by
    intro t job
    rw [hstage]
    intro heq
    cases heq
  have howner : ∀ job, (start (poolCreate d) : Run n Client).jobs.owner job = none := fun _ => rfl
  constructor
  · refine ⟨fun t => ?_, fun t u job ht => absurd ht (hrecord t job),
      fun t job ht => absurd ht (hrecord t job), fun job => of_eq_none (howner job),
      fun job job' => of_eq_none (howner job), ?_, ?_, fun job => of_eq_none (howner job), ?_, ?_, ?_⟩
    · rw [show (start (poolCreate d)).state.pc t = (poolCreate d).pc t from rfl, hstage]
      trivial
    all_goals simp [start, Jobs.init]
  · exact ⟨fun job => of_eq_none (howner job), fun job => of_eq_none (howner job), fun _ _ => rfl,
      fun c => of_eq_none rfl, fun job => of_eq_none (howner job)⟩

end

theorem OrderlyReachable.sound {r : Run n Client} (h : OrderlyReachable r) : Staged r ∧ Counted r := by
  apply Interleaving.Reachable.invariant (I := fun r => Staged r ∧ Counted r) h
  · rintro r ⟨s, hinit, rfl⟩
    exact Staged.init hinit
  · rintro r r' a ⟨hstaged, hcounted⟩ horderly hstep
    obtain ⟨s', hs', rfl⟩ := Option.map_eq_some_iff.mp hstep
    cases a with
    | next t weak => exact hstaged.next hcounted horderly hs'
    | _ => exact hstaged.outside hcounted (by simp) hs'

/-- In every run in which a record is used again only when its job is complete, a job is called once, a
parent is not complete when it gets a child, and a completion flag is set only when the job was executed and
`remaining_children` is 0, the completion flags say that the jobs and their children are done, and
`lgx_job_wait` returns only then. -/
theorem joined_of_orderlyReachable {r : Run n Client} (hreach : OrderlyReachable r) : Joined r := by
  obtain ⟨hstaged, hcounted⟩ := hreach.sound
  have hflag : ∀ job k, r.jobs.owner job = some k → (r.state.jobPool job).completionFlag ≠ 0 →
      Done r k := by
    intro job k hk hset
    obtain ⟨hexecuted, hreported⟩ := hcounted.flag job k hk hset
    refine ⟨hexecuted, fun c hc => ?_⟩
    have hcompleted := hstaged.completed_of_reported c (hreported c hc)
    exact ⟨hcompleted, hstaged.executed_of_completed c hcompleted⟩
  refine ⟨hflag, fun c job weak r' hpc hstep hreturns k hk => hflag job k hk fun hzero => ?_⟩
  -- the flag is what the loop of `lgx_job_wait` looks at
  obtain ⟨s', hs', rfl⟩ := Option.map_eq_some_iff.mp hstep
  have hgoto : s' = r.state.goto (.client c) (.loadTail (.waiter job)) := by
    simp only [JobSystem.step, stepThread, hpc, stepLoop, hzero, if_true] at hs'
    exact (Option.some.inj hs').symm
  simp only [Run.next, hgoto, State.goto, update_self] at hreturns
  cases hreturns

/-! ## A parent and its child -/

/-- `Orderly`, for runs in which no record is used again. -/
def orderlyCheck (r : Run 1 Bool) : Action 1 Bool → Bool
  | .next t _ =>
      match r.state.pc t with
      | .submitAlloc _ _ =>
          let job := r.state.jobPoolHead % jobPoolCapacity
          decide (r.jobs.owner job = none) &&
            (threadsOf [true, false]).all fun u =>
              decide ((r.state.pc u).record ≠ some job)
      | .submitParent _ desc _ =>
          desc.parent.all fun parent =>
            decide (r.jobs.owner parent ≠ none ∧ (r.state.jobPool parent).completionFlag = 0)
      | .call _ job => r.queued job
      | .finish _ job => decide ((r.state.jobPool job).remainingChildren = 0)
      | .parentDone _ parent =>
          decide ((r.state.jobPool parent).remainingChildren = 0 ∧
            ∃ k ∈ r.jobs.executed, r.jobs.owner parent = some k)
      | _ => true
  | _ => true

theorem orderly_of_check {r : Run 1 Bool} {a : Action 1 Bool} (hcheck : orderlyCheck r a = true) :
    Orderly r a := by
  cases a with
  | next t weak =>
      cases hpc : r.state.pc t with
      | submitAlloc desc descs =>
          simp only [Orderly, hpc]
          simp only [orderlyCheck, hpc, Bool.and_eq_true, decide_eq_true_eq, List.all_eq_true] at hcheck
          exact ⟨Or.inl hcheck.1, fun u => hcheck.2 u (mem_threadsOf (by decide) u)⟩
      | submitParent job desc descs =>
          simp only [Orderly, hpc]
          simp only [orderlyCheck, hpc] at hcheck
          intro parent hparent
          rw [hparent] at hcheck
          exact of_decide_eq_true hcheck
      | call mode job =>
          simp only [Orderly, hpc]
          simpa only [orderlyCheck, hpc] using hcheck
      | finish mode job =>
          simp only [Orderly, hpc]
          simpa only [orderlyCheck, hpc, decide_eq_true_eq] using hcheck
      | parentDone mode parent =>
          simp only [Orderly, hpc]
          simpa only [orderlyCheck, hpc, decide_eq_true_eq] using hcheck
      | _ => simp only [Orderly, hpc]
  | _ => trivial

/-- Two clients execute a parent and its child: the child reports after the parent was called. -/
theorem joined_after_report : ∃ r : Run 1 Bool, OrderlyReachable r ∧
    (r.state.jobPool 0).completionFlag = 1 ∧ r.jobs.owner 0 = some 0 ∧ r.parentOf 1 = some 0 ∧
    Joined r ∧ Done r 0 := by
  let d : WorkDeque.Deque ℕ :=
    { buffer := fun _ => none, top := 0, bottom := 0, capacity := 1024, mask := 1023 }
  let client (c : Bool) (k : ℕ) : List (Action 1 Bool) := List.replicate k (.next (.client c) false)
  let actions : List (Action 1 Bool) :=
    .submit true ⟨1, 10, none⟩ :: client true 10 ++ .submit true ⟨2, 20, some 0⟩ :: client true 10 ++
      .wait true (some 0) :: client true 7 ++ .wait false (some 1) :: client false 12 ++ client true 4
  have hresult : (Interleaving.run (Interleaving.guarded step orderlyCheck) actions
      (start (poolCreate d))).map
      (fun r => ((r.state.jobPool 0).completionFlag, r.jobs.owner 0, r.parentOf 1)) =
      some (1, some 0, some 0) := by
    decide +kernel
  have hinit : OrderlyReachable (start (poolCreate d) : Run 1 Bool) := .init ⟨_, ⟨d, rfl, rfl⟩, rfl⟩
  obtain ⟨r, hreach, hr⟩ := hinit.exists_of_run_guarded (fun _ _ _ => orderly_of_check) hresult
  obtain ⟨hflag, howner, hparent⟩ : (r.state.jobPool 0).completionFlag = 1 ∧
      r.jobs.owner 0 = some 0 ∧ r.parentOf 1 = some 0 := by
    simpa only [Prod.mk.injEq] using hr
  have hjoined := joined_of_orderlyReachable hreach
  exact ⟨r, hreach, hflag, howner, hparent, hjoined, hjoined.flag 0 0 howner (by rw [hflag]; decide)⟩

end LgxRuntime.Threading.JobCompletion
