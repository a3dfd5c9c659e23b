import LgxRuntime.Threading.JobTrace

/-!
# Batches of jobs

`lgx_job_submit_batch` looks at the function of a descriptor right before it submits the job, so that it can
return an error after it has submitted the jobs before.  Here a call is followed from its start to its return,
while all other threads go on, and what its own steps do to the pool is written down.
-/

namespace LgxRuntime.Threading.BatchSubmission

open Function (update update_self update_of_ne)
open JobSystem

variable {n : ℕ} {Client : Type}

/-! ## What a call does -/

/-- What a step of a submission does to the pool. -/
inductive Effect
  /-- `alloc_job` hands out a record. -/
  | took (job : ℕ)
  | filled (job func data : ℕ)
  /-- Another field of the record is written. -/
  | wrote (job : ℕ)
  /-- `remaining_children` of the parent is incremented. -/
  | counted (parent : ℕ)
  /-- A position of the ring of submissions is taken. -/
  | reserved (pos : ℕ)
  /-- The job is written into the ring. -/
  | enqueued (pos job : ℕ)
  deriving DecidableEq

/-- The effects of the next step of a thread. -/
def effectsOf (s : State n Client) : Pc → List Effect
  | .submitAlloc _ _ => [.took (s.jobPoolHead % jobPoolCapacity)]
  | .submitFill job desc _ => [.filled job desc.func desc.data]
  | .submitChildren job _ _ | .submitFlag job _ _ => [.wrote job]
  | .submitParent job desc _ => .wrote job :: desc.parent.toList.map .counted
  | .submitHead _ _ => [.reserved s.submitHead]
  | .submitWrite job pos _ => [.enqueued pos job]
  | _ => []

/-- The pool, with the effects of a call. -/
structure Call (n : ℕ) (Client : Type) where
  state : State n Client
  effects : List Effect

variable [DecidableEq Client]

/-- One step of any thread, while a call of `c` is followed. -/
def callStep (c : Client) (r : Call n Client) (a : Action n Client) : Option (Call n Client) :=
  (step r.state a).map fun s' =>
    { state := s'
      effects := match a with
        | .next t _ => if t = .client c then r.effects ++ effectsOf r.state (r.state.pc t) else r.effects
        | _ => r.effects }

/-- The states of all runs from a call of `lgx_job_submit_batch` until it returns. -/
def During (c : Client) (s : State n Client) (descs : List JobDesc) : Call n Client → Prop :=
  Interleaving.Reachable (fun r => step s (.submitBatch c descs) = some r.state ∧ r.effects = [])
    (callStep c) fun r a =>
      ∀ weak, a = .next (.client c) weak → ∀ result, r.state.pc (.client c) ≠ .returns result

/-- The effects before a position of the ring is taken. -/
def preparation (desc : JobDesc) (job : ℕ) : List Effect :=
  [.took job, .filled job desc.func desc.data, .wrote job, .wrote job, .wrote job] ++
    desc.parent.toList.map .counted

/-- The effects are those of submitting all the jobs, one after the other. -/
inductive Enqueues : List JobDesc → List Effect → Prop
  | nil : Enqueues [] []
  | snoc {descs : List JobDesc} {effects : List Effect} (h : Enqueues descs effects) (desc : JobDesc)
      (hfunc : desc.func ≠ 0) (job pos : ℕ) :
      Enqueues (descs ++ [desc]) (effects ++ (preparation desc job ++ [.reserved pos, .enqueued pos job]))

/-- The call returns success after it has submitted every job, or it returns an error and has done
nothing. -/
def AllOrNothing (c : Client) (s : State n Client) (descs : List JobDesc) : Prop :=
  ∀ r result, During c s descs r → r.state.pc (.client c) = .returns result →
    (result = .success ∧ Enqueues descs r.effects) ∨ (result ≠ .success ∧ r.effects = [])

theorem Enqueues.func_ne {descs : List JobDesc} {effects : List Effect} (h : Enqueues descs effects) :
    ∀ desc ∈ descs, desc.func ≠ 0 := by
  induction h with
  | nil => simp
  | snoc h desc hfunc job pos ih =>
      intro d hd
      rcases List.mem_append.mp hd with hd | hd
      · exact ih d hd
      · rw [List.mem_singleton.mp hd]
        exact hfunc

theorem Enqueues.eq_nil_iff {descs : List JobDesc} {effects : List Effect} (h : Enqueues descs effects) :
    effects = [] ↔ descs = [] := by
  cases h with
  | nil => simp
  | snoc h desc hfunc job pos => simp [preparation]

/-! ## The progress of a call -/

/-- A job is being submitted, with these effects up to now. -/
def Submitting (descs : List JobDesc) (effects : List Effect) (desc : JobDesc) (rest : List JobDesc)
    (own : List Effect) : Prop :=
  ∃ done before, descs = done ++ desc :: rest ∧ desc.func ≠ 0 ∧ Enqueues done before ∧
    effects = before ++ own

/-- What a call has done when it is at a place. -/
def Progress (descs : List JobDesc) (effects : List Effect) : Pc → Prop
  | .submitNext rest => ∃ done, descs = done ++ rest ∧ Enqueues done effects
  | .submitAlloc desc rest => Submitting descs effects desc rest []
  | .submitFill job desc rest => Submitting descs effects desc rest [.took job]
  | .submitChildren job desc rest =>
      Submitting descs effects desc rest [.took job, .filled job desc.func desc.data]
  | .submitFlag job desc rest =>
      Submitting descs effects desc rest [.took job, .filled job desc.func desc.data, .wrote job]
  | .submitParent job desc rest =>
      Submitting descs effects desc rest
        [.took job, .filled job desc.func desc.data, .wrote job, .wrote job]
  | .submitHead job rest => ∃ desc, Submitting descs effects desc rest (preparation desc job)
  | .submitWrite job pos rest =>
      ∃ desc, Submitting descs effects desc rest (preparation desc job ++ [.reserved pos])
  | .returns .success => Enqueues descs effects
  | .returns .invalidParam =>
      (descs = [] ∧ effects = []) ∨
        ∃ done desc rest, descs = done ++ desc :: rest ∧ desc.func = 0 ∧ Enqueues done effects
  | _ => False

/-- How many steps a call has left at most. -/
def left : Pc → ℕ
  | .submitNext descs => 10 * descs.length + 1
  | .submitAlloc _ descs => 10 * descs.length + 10
  | .submitFill _ _ descs => 10 * descs.length + 9
  | .submitChildren _ _ descs => 10 * descs.length + 8
  | .submitFlag _ _ descs => 10 * descs.length + 7
  | .submitParent _ _ descs => 10 * descs.length + 6
  | .submitHead _ descs => 10 * descs.length + 5
  | .submitWrite _ _ descs => 10 * descs.length + 4
  | _ => 0

theorem Submitting.append {descs rest : List JobDesc} {effects own : List Effect} {desc : JobDesc}
    (h : Submitting descs effects desc rest own) (more : List Effect) :
    Submitting descs (effects ++ more) desc rest (own ++ more) := by
  obtain ⟨done, before, hdescs, hfunc, hdone, rfl⟩ := h
  exact ⟨done, before, hdescs, hfunc, hdone, List.append_assoc ..⟩

variable {c : Client} {s : State n Client} {descs : List JobDesc} {r r' : Call n Client}

/-- A step of the call itself, which leads to `pc'`. -/
theorem exists_callStep {weak : Bool} {s' : State n Client} {pc pc' : Pc}
    (hpc : r.state.pc (.client c) = pc) (hstep : step r.state (.next (.client c) weak) = some s')
    (hpc' : s'.pc = update r.state.pc (.client c) pc')
    (hprogress : Progress descs (r.effects ++ effectsOf r.state pc) pc') (hleft : left pc' < left pc) :
    ∃ r', callStep c r (.next (.client c) weak) = some r' ∧
      Progress descs r'.effects (r'.state.pc (.client c)) ∧
      left (r'.state.pc (.client c)) < left pc := by
  refine ⟨⟨s', r.effects ++ effectsOf r.state pc⟩, ?_, ?_, ?_⟩
  · simp only [callStep, hstep, Option.map_some, if_true, hpc]
  · rw [hpc', update_self]
    exact hprogress
  · rw [hpc', update_self]
    exact hleft

/-- The call always can go on, and its next step brings it nearer to its return. -/
theorem Progress.next (h : Progress descs r.effects (r.state.pc (.client c)))
    (hrunning : ∀ result, r.state.pc (.client c) ≠ .returns result) (weak : Bool) :
    ∃ r', callStep c r (.next (.client c) weak) = some r' ∧
      Progress descs r'.effects (r'.state.pc (.client c)) ∧
      left (r'.state.pc (.client c)) < left (r.state.pc (.client c)) := by
  cases hpc : r.state.pc (.client c) with
  | submitNext rest =>
      rw [hpc] at h
      obtain ⟨done, hdescs, hdone⟩ := h
      cases rest with
      | nil =>
          refine exists_callStep hpc (by simp only [step, stepThread, hpc]; rfl) rfl ?_
            (by simp [left])
          rw [List.append_nil] at hdescs
          simpa [effectsOf, Progress, hdescs] using hdone
      | cons desc rest =>
          by_cases hfunc : desc.func = 0
          · refine exists_callStep hpc
              (by simp only [step, stepThread, hpc, stepSubmit, if_pos hfunc]; rfl) rfl ?_
              (by simp [left])
            refine Or.inr ⟨done, desc, rest, hdescs, hfunc, ?_⟩
            simpa [effectsOf] using hdone
          · refine exists_callStep hpc
              (by simp only [step, stepThread, hpc, stepSubmit, if_neg hfunc]; rfl) rfl ?_
              (by simp [left]; omega)
            exact ⟨done, r.effects, hdescs, hfunc, hdone, rfl⟩
  | submitAlloc desc rest =>
      rw [hpc] at h
      exact exists_callStep hpc (step_submitAlloc hpc) rfl (Submitting.append h _) (by simp [left])
  | submitFill job desc rest =>
      rw [hpc] at h
      exact exists_callStep hpc (step_submitFill hpc) rfl (Submitting.append h _) (by simp [left])
  | submitChildren job desc rest =>
      rw [hpc] at h
      exact exists_callStep hpc (step_submitChildren hpc) rfl (Submitting.append h _) (by simp [left])
  | submitFlag job desc rest =>
      rw [hpc] at h
      exact exists_callStep hpc (step_submitFlag hpc) rfl (Submitting.append h _) (by simp [left])
  | submitParent job desc rest =>
      rw [hpc] at h
      have hnext : Progress descs (r.effects ++ effectsOf r.state (.submitParent job desc rest))
          (.submitHead job rest) :=
        ⟨desc, Submitting.append h _⟩
      cases hparent : desc.parent with
      | none =>
          exact exists_callStep hpc (step_submitParent_none hpc hparent) rfl hnext (by simp [left])
      | some parent =>
          exact exists_callStep hpc (step_submitParent_some hpc hparent) rfl hnext (by simp [left])
  | submitHead job rest =>
      rw [hpc] at h
      obtain ⟨desc, h⟩ := h
      exact exists_callStep hpc (step_submitHead hpc) rfl ⟨desc, Submitting.append h _⟩ (by simp [left])
  | submitWrite job pos rest =>
      rw [hpc] at h
      obtain ⟨desc, done, before, hdescs, hfunc, hdone, heffects⟩ := h
      refine exists_callStep hpc (step_submitWrite hpc) rfl ⟨done ++ [desc], ?_, ?_⟩ (by simp [left])
      · simpa using hdescs
      · have hnext := hdone.snoc desc hfunc job pos
        rw [heffects]
        simpa [effectsOf] using hnext
  | returns result => exact absurd hpc (hrunning result)
  | _ =>
      rw [hpc] at h
      exact h.elim

/-- The steps of the other threads leave the call where it is, and are not among its effects. -/
theorem callStep_other {a : Action n Client} (hother : ∀ weak, a ≠ .next (.client c) weak)
    (hpc : r.state.pc (.client c) ≠ .idle) (hstep : callStep c r a = some r') :
    r'.effects = r.effects ∧ r'.state.pc (.client c) = r.state.pc (.client c) := by
  obtain ⟨s', hs, rfl⟩ := Option.map_eq_some_iff.mp hstep
  have houtside : ∀ t pc', s'.pc = update r.state.pc t pc' → t ≠ .client c →
      s'.pc (.client c) = r.state.pc (.client c) := by
    intro t pc' hpc' hne
    rw [hpc', update_of_ne hne.symm]
  have henter : ∀ c' pc', enterCall r.state c' pc' = some s' →
      s'.pc (.client c) = r.state.pc (.client c) := by
    intro c' pc' henter
    obtain ⟨hidle, rfl⟩ := enterCall_eq henter
    refine houtside _ _ rfl fun heq => hpc ?_
    rw [← heq, hidle]
  cases a with
  | submit c' desc => exact ⟨rfl, henter c' _ hs⟩
  | submitBatch c' descs => cases descs <;> exact ⟨rfl, henter c' _ hs⟩
  | wait c' handle => cases handle <;> exact ⟨rfl, henter c' _ hs⟩
  | next t weak =>
      have hne : t ≠ .client c := by
        rintro rfl
        exact hother weak rfl
      obtain ⟨pc', hsteps⟩ := Steps.of_next hs
      exact ⟨if_neg hne, houtside t pc' hsteps.pc hne⟩
  | shutdown =>
      cases hs
      exact ⟨rfl, rfl⟩

/-- The progress of a call, in any interleaving. -/
theorem During.progress (h : During c s descs r) : Progress descs r.effects (r.state.pc (.client c)) := by
  induction h with
  | init h =>
      obtain ⟨hstep, heffects⟩ := h
      rw [heffects]
      cases descs with
      | nil =>
          obtain ⟨-, hs⟩ := enterCall_eq hstep
          simp only [hs, State.goto, update_self]
          exact Or.inl ⟨rfl, rfl⟩
      | cons desc descs =>
          obtain ⟨-, hs⟩ := enterCall_eq hstep
          simp only [hs, State.goto, update_self]
          exact ⟨[], rfl, .nil⟩
  | step a hreach hallowed hstep ih =>
      by_cases hown : ∃ weak, a = .next (.client c) weak
      · obtain ⟨weak, rfl⟩ := hown
        obtain ⟨r₂, hnext, hprogress, -⟩ := ih.next (hallowed weak rfl) weak
        rw [hstep] at hnext
        obtain rfl := Option.some.inj hnext
        exact hprogress
      · push Not at hown
        have hidle : ∀ x : Call n Client, Progress descs x.effects (x.state.pc (.client c)) →
            x.state.pc (.client c) ≠ .idle := by
          intro x hx heq
          rw [heq] at hx
          exact hx
        obtain ⟨heffects, hpc⟩ := callStep_other hown (hidle _ ih) hstep
        rw [heffects, hpc]
        exact ih

/-- When no other thread moves, the call returns. -/
theorem During.exists_return (h : During c s descs r) :
    ∃ r' result, During c s descs r' ∧ r'.state.pc (.client c) = .returns result := by
  induction hk : left (r.state.pc (.client c)) using Nat.strong_induction_on generalizing r with
  | _ k ih =>
      by_cases hreturned : ∃ result, r.state.pc (.client c) = .returns result
      · obtain ⟨result, hresult⟩ := hreturned
        exact ⟨r, result, h, hresult⟩
      · push Not at hreturned
        obtain ⟨r₂, hstep, -, hleft⟩ := h.progress.next hreturned false
        have hnext : During c s descs r₂ :=
          Interleaving.Reachable.step _ h (fun weak _ => hreturned) hstep
        exact ih _ (hk ▸ hleft) hnext rfl

/-! ## All or nothing -/

/-- Whatever the other threads do, a batch is submitted as a whole or not at all, if and only if all of its
jobs have a function or its first one has none. -/
theorem allOrNothing_iff (hidle : s.pc (.client c) = .idle) :
    AllOrNothing c s descs ↔
      (∀ desc ∈ descs, desc.func ≠ 0) ∨ ∃ desc rest, descs = desc :: rest ∧ desc.func = 0 := by
  constructor
  · intro h
    obtain ⟨s₀, hstart⟩ : ∃ s₀, step s (.submitBatch c descs) = some s₀ := by
      cases descs <;> simp [step, enterCall, hidle]
    have hduring : During c s descs ⟨s₀, []⟩ := .init ⟨hstart, rfl⟩
    obtain ⟨r, result, hr, hresult⟩ := hduring.exists_return
    have hprogress := hr.progress
    rw [hresult] at hprogress
    rcases h r result hr hresult with ⟨-, henqueues⟩ | ⟨herror, hnone⟩
    · exact Or.inl henqueues.func_ne
    · cases result with
      | success => exact absurd rfl herror
      | invalidParam =>
          rcases hprogress with ⟨rfl, -⟩ | ⟨done, desc, rest, hdescs, hfunc, hdone⟩
          · exact Or.inl (by simp)
          · have hnil := hdone.eq_nil_iff.mp hnone
            rw [hnil] at hdescs
            exact Or.inr ⟨desc, rest, hdescs, hfunc⟩
      | _ => exact hprogress.elim
  · intro hcond r result hr hresult
    have hprogress := hr.progress
    rw [hresult] at hprogress
    cases result with
    | success => exact Or.inl ⟨rfl, hprogress⟩
    | invalidParam =>
        refine Or.inr ⟨by simp, ?_⟩
        rcases hprogress with ⟨-, hnone⟩ | ⟨done, desc, rest, hdescs, hfunc, hdone⟩
        · exact hnone
        · refine hdone.eq_nil_iff.mpr ?_
          rcases hcond with hall | ⟨first, others, hfirst, hnull⟩
          · exact absurd hfunc (hall desc (by simp [hdescs]))
          · cases done with
            | nil => rfl
            | cons d done =>
                rw [hdescs] at hfirst
                obtain ⟨rfl, -⟩ := List.cons.inj hfirst
                exact absurd hnull (hdone.func_ne d (List.mem_cons_self ..))
    | _ => exact hprogress.elim

/-- Two jobs, of which the first is the parent of the second. -/
theorem allOrNothing_two_jobs : ∃ s : State 1 Unit, Reachable s ∧
    AllOrNothing () s [⟨1, 10, none⟩, ⟨2, 20, some 0⟩] := by
  let d : WorkDeque.Deque ℕ :=
    { buffer := fun _ => none, top := 0, bottom := 0, capacity := 1024, mask := 1023 }
  exact ⟨poolCreate d, .init ⟨d, rfl, rfl⟩, (allOrNothing_iff rfl).mpr (Or.inl (by simp))⟩

/-- A second job without a function: the call returns an error when the first job is in the ring. -/
theorem not_allOrNothing_null_func : ∃ (s : State 1 Unit) (r : Call 1 Unit), Reachable s ∧
    During () s [⟨1, 10, none⟩, ⟨0, 20, none⟩] r ∧
    r.state.pc (.client ()) = .returns .invalidParam ∧
    (r.state.jobPoolHead, r.state.submitHead, r.state.submitQueue 0) = (1, 1, some 0) ∧
    ¬ AllOrNothing () s [⟨1, 10, none⟩, ⟨0, 20, none⟩] := by
  let d : WorkDeque.Deque ℕ :=
    { buffer := fun _ => none, top := 0, bottom := 0, capacity := 1024, mask := 1023 }
  let s : State 1 Unit := poolCreate d
  let descs : List JobDesc := [⟨1, 10, none⟩, ⟨0, 20, none⟩]
  let start : Call 1 Unit := ⟨s.goto (.client ()) (.submitNext descs), []⟩
  let running (r : Call 1 Unit) (_ : Action 1 Unit) : Bool :=
    match r.state.pc (.client ()) with
    | .returns _ => false
    | _ => true
  let failed (r : Call 1 Unit) : Bool :=
    match r.state.pc (.client ()) with
    | .returns .invalidParam => true
    | _ => false
  have hstart : During () s descs start := .init ⟨rfl, rfl⟩
  have hallowed : ∀ r a, During () s descs r → running r a = true → ∀ weak, a = .next (.client ()) weak →
      ∀ result, r.state.pc (.client ()) ≠ .returns result := by
    intro r a _ hrunning weak _ result hpc
    simp only [running, hpc] at hrunning
    cases hrunning
  have hresult : (Interleaving.run (Interleaving.guarded (callStep ()) running)
      (List.replicate 9 (.next (.client ()) false)) start).map
      (fun r => (failed r, r.effects.length,
        (r.state.jobPoolHead, r.state.submitHead, r.state.submitQueue 0))) =
      some (true, 7, (1, 1, some 0)) := by
    decide +kernel
  obtain ⟨r, hduring, hr⟩ := hstart.exists_of_run_guarded hallowed hresult
  obtain ⟨hfailed, hlength, hpool⟩ : failed r = true ∧ r.effects.length = 7 ∧
      (r.state.jobPoolHead, r.state.submitHead, r.state.submitQueue 0) = (1, 1, some 0) := by
    simpa only [Prod.mk.injEq] using hr
  have hreturns : r.state.pc (.client ()) = .returns .invalidParam := by
    simp only [failed] at hfailed
    split at hfailed
    · assumption
    · cases hfailed
  refine ⟨s, r, .init ⟨d, rfl, rfl⟩, hduring, hreturns, hpool, fun h => ?_⟩
  rcases h r .invalidParam hduring hreturns with ⟨hsuccess, -⟩ | ⟨-, hnone⟩
  · cases hsuccess
  · rw [hnone] at hlength
    cases hlength

end LgxRuntime.Threading.BatchSubmission
