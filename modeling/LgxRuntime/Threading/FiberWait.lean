import LgxRuntime.Threading.Fiber

/-!
# Waiting for a job in a fiber

`lgx_fiber_wait_job` looks at the job once.  If it is not complete, the fiber is suspended, and when it
is resumed the call returns `LGX_THREADING_SUCCESS` without another look: that the job is complete by
then is left to whoever calls `lgx_fiber_resume`.

While a fiber waits, its `waiting_on` is the job (`Waiting.waits`), so that the scheduler can know what
to look at.
-/

namespace LgxRuntime.Threading.Fiber

open Function (update update_self update_of_ne)
open Interleaving (update_cases)

variable {Thread Fiber Handle : Type} [DecidableEq Thread] [DecidableEq Fiber]

/-- A call of `lgx_fiber_wait_job` only returns `SUCCESS` if the job is complete. -/
def WaitSound (s : State Thread Fiber Handle) : Prop :=
  ∀ t h, s.pc (s.control t) = .returns (.waitJob (some h) .success) → s.isComplete h = true

/-- A fiber that waits for a job is only resumed if the job is complete. -/
def ResumesComplete (s : State Thread Fiber Handle) : Action Thread Fiber Handle → Prop
  | .resume _ (some f) => s.state f = .suspended ∨ s.state f = .idle →
      ∀ h, s.waitingOn f = some h → s.isComplete h = true
  | _ => True

/-- The states of the runs in which no fiber is resumed too early. -/
def PatientReachable [DecidableEq Handle] : State Thread Fiber Handle → Prop :=
  Interleaving.Reachable Initial step ResumesComplete

/-- Waiting fibers are marked with their job, and what is awake behind the switch, or about to return
`SUCCESS`, has a complete job. -/
structure Waiting (s : State Thread Fiber Handle) : Prop where
  waits : ∀ p f h, s.pc p = .inWaitJob f h ↔ p = .fiber f ∧ s.waitingOn f = some h
  woken : ∀ t f h, s.pc (s.control t) = .inWaitJob f h → s.isComplete h = true
  sound : WaitSound s

namespace Waiting

variable {s s' : State Thread Fiber Handle} {t : Thread}

omit [DecidableEq Thread] [DecidableEq Fiber] in
theorem init (h : Initial s) : Waiting s where
  waits p f handle := by
    rw [h.waitingOn f]
    cases p with
    | main t => simp [h.main t]
    | fiber g => simp [h.fiber g]
  woken t f handle ht := by
    rw [h.control t, h.main t] at ht
    cases ht
  sound t handle ht := by
    rw [h.control t, h.main t] at ht
    cases ht

/-- Who waits does not change if the code that moves on does not wait before or afterwards. -/
theorem waits_update (h : Waiting s) {q : Party Thread Fiber} {pc : Pc Fiber Handle}
    (hold : ∀ f handle, s.pc q ≠ .inWaitJob f handle) (hnew : ∀ f handle, pc ≠ .inWaitJob f handle)
    (p : Party Thread Fiber) (f : Fiber) (handle : Handle) :
    update s.pc q pc p = .inWaitJob f handle ↔ p = .fiber f ∧ s.waitingOn f = some handle := by
  rw [← h.waits p f handle]
  by_cases hpq : p = q
  · rw [hpq, update_self]
    exact iff_of_false (hnew f handle) (hold f handle)
  · rw [update_of_ne hpq]

/-- The mark of a fiber says nothing about the others. -/
theorem waits_of_ne (h : Waiting s) {f : Fiber} {pc : Pc Fiber Handle} {mark : Option Handle}
    {p : Party Thread Fiber} (hpf : p ≠ .fiber f) (g : Fiber) (handle : Handle) :
    update s.pc (.fiber f) pc p = .inWaitJob g handle ↔
      p = .fiber g ∧ update s.waitingOn f mark g = some handle := by
  rw [update_of_ne hpf, h.waits p g handle]
  refine and_congr_right fun hpg => ?_
  have hgf : g ≠ f := by
    intro heq
    exact hpf (heq ▸ hpg)
  rw [update_of_ne hgf]

/-- The code that a thread executes moves on without a switch. -/
theorem goto (h : Waiting s) (hs : Scheduled s) {pc : Pc Fiber Handle}
    (hold : ∀ f handle, s.pc (s.control t) ≠ .inWaitJob f handle)
    (hnew : ∀ f handle, pc ≠ .inWaitJob f handle)
    (hsound : ∀ handle, pc = .returns (.waitJob (some handle) .success) →
      s.isComplete handle = true) : Waiting (s.goto t pc) where
  waits := h.waits_update hold hnew
  woken u f handle hu := by
    rcases hs.pc_control_cases hu with ⟨-, hpc⟩ | ⟨-, hu⟩
    · exact absurd hpc (hnew f handle)
    · exact h.woken u f handle hu
  sound u handle hu := by
    rcases hs.pc_control_cases hu with ⟨-, hpc⟩ | ⟨-, hu⟩
    · exact hsound handle hpc
    · exact h.sound u handle hu

/-- A thread switches from a resume to a fiber whose job is complete. -/
theorem of_resume (h : Waiting s) (hs : Scheduled s) (hpc : s.pc (s.control t) = .user)
    {arg : Option Fiber} (hcomplete : ResumesComplete s (.resume t arg)) :
    Waiting (lgxFiberResume s t arg) := by
  have hold : ∀ f handle, s.pc (s.control t) ≠ .inWaitJob f handle := by simp [hpc]
  unfold lgxFiberResume
  cases arg with
  | none => exact h.goto hs hold (by simp) (by simp)
  | some f =>
      simp only
      split_ifs with hstate
      · exact h.goto hs hold (by simp) (by simp)
      · have hwas : s.state f = .suspended ∨ s.state f = .idle := by tauto
        have hrunning : s.state f ≠ .running := by
          rcases hwas with hwas | hwas <;> simp [hwas]
        have hne : s.context f ≠ s.control t := hs.context f ▸ hs.ne_control hrunning t
        refine ⟨h.waits_update hold (by simp), fun u g handle hu => ?_, fun u handle hu => ?_⟩
        · rcases hs.pc_switch_cases hne hu with ⟨-, hu⟩ | ⟨-, hu⟩
          · obtain ⟨hg, hwaiting⟩ := (h.waits _ g handle).mp hu
            rw [hs.context f] at hg
            obtain rfl := Party.fiber.inj hg
            exact hcomplete hwas handle hwaiting
          · exact h.woken u g handle hu
        · rcases hs.pc_switch_cases hne hu with ⟨-, hu⟩ | ⟨-, hu⟩
          · -- what a fiber that rests is at is not a return
            have hrests := hs.rests f hrunning
            rw [hs.context f] at hu
            rw [hu] at hrests
            cases hrests
          · exact h.sound u handle hu

/-- A fiber stops, marked with `waiting` if it waits, and the thread switches back to a resume. -/
theorem leave (h : Waiting s) (hs : Scheduled s) {f : Fiber} (hcontrol : s.control t = .fiber f)
    {state : FiberState} {pc : Pc Fiber Handle} {waiting : Fiber → Option Handle}
    (hwaits : ∀ p g handle, update s.pc (s.control t) pc p = .inWaitJob g handle ↔
      p = .fiber g ∧ waiting g = some handle)
    (hswitch : switchBack { s with waitingOn := waiting } t f state pc = some s') : Waiting s' := by
  obtain ⟨p, call, hctx, hp, -, happart⟩ := hs.exists_scheduler hcontrol
  obtain ⟨p', hctx', rfl⟩ := Option.map_eq_some_iff.mp hswitch
  obtain rfl : p = p' := Option.some.inj (hctx.symm.trans hctx')
  have hne : p ≠ s.control t := fun heq => happart t heq.symm
  refine ⟨hwaits, fun u g handle hu => ?_, fun u handle hu => ?_⟩
  · rcases hs.pc_switch_cases hne hu with ⟨-, hu⟩ | ⟨-, hu⟩
    · rw [hp] at hu
      cases hu
    · exact h.woken u g handle hu
  · rcases hs.pc_switch_cases hne hu with ⟨-, hu⟩ | ⟨-, hu⟩
    · rw [hp] at hu
      cases hu
    · exact h.sound u handle hu

theorem of_yield (h : Waiting s) (hs : Scheduled s) (hpc : s.pc (s.control t) = .user)
    (hyield : lgxFiberYield s t = some s') : Waiting s' := by
  have hold : ∀ f handle, s.pc (s.control t) ≠ .inWaitJob f handle := by simp [hpc]
  unfold lgxFiberYield at hyield
  split at hyield
  · obtain rfl := Option.some.inj hyield
    exact h.goto hs hold (by simp) (by simp)
  · rename_i fiber hcurrent
    have hcontrol := hs.current t fiber hcurrent
    rw [hs.update_context hcontrol] at hyield
    exact h.leave hs hcontrol (h.waits_update hold (by simp)) hyield

theorem of_finish (h : Waiting s) (hs : Scheduled s) (hpc : s.pc (s.control t) = .user)
    (hfinish : finish s t = some s') : Waiting s' := by
  have hold : ∀ f handle, s.pc (s.control t) ≠ .inWaitJob f handle := by simp [hpc]
  unfold finish at hfinish
  split at hfinish
  · cases hfinish
  · rename_i f hcontrol
    obtain ⟨fiber, htrampoline, hswitch⟩ := Option.bind_eq_some_iff.mp hfinish
    obtain rfl := hs.trampoline f fiber htrampoline
    exact h.leave hs hcontrol (h.waits_update hold (by simp)) hswitch

theorem of_waitJob (h : Waiting s) (hs : Scheduled s) (hpc : s.pc (s.control t) = .user)
    {arg : Option Handle} (hwait : lgxFiberWaitJob s t arg = some s') : Waiting s' := by
  have hold : ∀ f handle, s.pc (s.control t) ≠ .inWaitJob f handle := by simp [hpc]
  unfold lgxFiberWaitJob at hwait
  split at hwait
  · obtain rfl := Option.some.inj hwait
    exact h.goto hs hold (by simp) (by simp)
  · obtain rfl := Option.some.inj hwait
    exact h.goto hs hold (by simp) (by simp)
  · rename_i f handle hcurrent
    have hcontrol := hs.current t f hcurrent
    split_ifs at hwait with hcomplete
    · obtain rfl := Option.some.inj hwait
      refine h.goto hs hold (by simp) fun handle' heq => ?_
      obtain rfl : handle = handle' := by simpa using heq
      exact hcomplete
    · rw [hs.update_context hcontrol] at hwait
      refine h.leave hs hcontrol (fun p g handle' => ?_) hwait
      by_cases hpf : p = .fiber f
      · rw [hpf, hcontrol, update_self]
        constructor
        · rintro heq
          obtain ⟨rfl, rfl⟩ := Pc.inWaitJob.inj heq
          exact ⟨rfl, update_self ..⟩
        · rintro ⟨heq, hwaiting⟩
          obtain rfl := Party.fiber.inj heq
          rw [update_self] at hwaiting
          rw [Option.some.inj hwaiting]
      · rw [hcontrol]
        exact h.waits_of_ne hpf g handle'

/-- A thread goes on behind a switch, or returns. -/
theorem of_next (h : Waiting s) (hs : Scheduled s) (hnext : next s t = some s') : Waiting s' := by
  unfold next at hnext
  split at hnext
  · rename_i call hpc
    obtain rfl := Option.some.inj hnext
    exact h.goto hs (by simp [hpc]) (by simp) (by simp)
  · rename_i call hpc
    obtain rfl := Option.some.inj hnext
    exact h.goto hs (by simp [hpc]) (by simp) (by simp)
  · rename_i hpc
    obtain rfl := Option.some.inj hnext
    exact h.goto hs (by simp [hpc]) (by simp) (by simp)
  · rename_i f handle hpc
    obtain rfl := Option.some.inj hnext
    obtain ⟨hcontrol, -⟩ := (h.waits _ f handle).mp hpc
    refine ⟨fun p g handle' => ?_, fun u g handle' hu => ?_, fun u handle' hu => ?_⟩
    · change update s.pc (s.control t) _ p = _ ↔ _ ∧ update s.waitingOn f none g = _
      by_cases hpf : p = .fiber f
      · rw [hpf, hcontrol, update_self]
        refine iff_of_false (by simp) fun hg => ?_
        obtain rfl := Party.fiber.inj hg.1
        rw [update_self] at hg
        cases hg.2
      · rw [hcontrol]
        exact h.waits_of_ne hpf g handle'
    · rcases hs.pc_control_cases hu with ⟨-, heq⟩ | ⟨-, hu⟩
      · cases heq
      · exact h.woken u g handle' hu
    · rcases hs.pc_control_cases hu with ⟨-, heq⟩ | ⟨-, hu⟩
      · obtain rfl : handle = handle' := by simpa using heq
        exact h.woken t f handle hpc
      · exact h.sound u handle' hu
  · rename_i hpc
    have huser : Waiting (s.goto t .user) := h.goto hs (by simp [hpc]) (by simp) (by simp)
    split at hnext
    · obtain rfl := Option.some.inj hnext
      exact { huser with }
    · obtain rfl := Option.some.inj hnext
      exact h.goto hs (by simp [hpc]) (by simp) (by simp)
  · cases hnext
  · cases hnext

/-- Every step that resumes no fiber too early keeps the waiting fibers in order. -/
theorem of_step [DecidableEq Handle] {a : Action Thread Fiber Handle} (h : Waiting s)
    (hs : Scheduled s) (hcomplete : ResumesComplete s a) (hstep : step s a = some s') :
    Waiting s' := by
  cases a with
  | resume t arg =>
      simp only [step] at hstep
      split at hstep <;> cases hstep
      rename_i hpc
      exact h.of_resume hs hpc hcomplete
  | yield t =>
      simp only [step] at hstep
      split at hstep
      · rename_i hpc
        exact h.of_yield hs hpc hstep
      · cases hstep
  | waitJob t handle =>
      simp only [step] at hstep
      split at hstep
      · rename_i hpc
        exact h.of_waitJob hs hpc hstep
      · cases hstep
  | finish t =>
      simp only [step] at hstep
      split at hstep
      · rename_i hpc
        exact h.of_finish hs hpc hstep
      · cases hstep
  | next t => exact h.of_next hs hstep
  | complete handle =>
      obtain rfl := Option.some.inj hstep
      have hmono : ∀ handle', s.isComplete handle' = true →
          update s.isComplete handle true handle' = true := by
        intro handle' hcomplete'
        by_cases heq : handle' = handle
        · rw [heq, update_self]
        · rwa [update_of_ne heq]
      exact ⟨h.waits, fun u f handle' hu => hmono handle' (h.woken u f handle' hu),
        fun u handle' hu => hmono handle' (h.sound u handle' hu)⟩

end Waiting

theorem PatientReachable.waiting [DecidableEq Handle] {s : State Thread Fiber Handle}
    (h : PatientReachable s) : Scheduled s ∧ Waiting s := by
  apply Interleaving.Reachable.invariant (I := fun s => Scheduled s ∧ Waiting s) h
  · exact fun s hinit => ⟨Scheduled.init hinit, Waiting.init hinit⟩
  · exact fun s s' a hs hcomplete hstep =>
      ⟨hs.1.of_step hstep, hs.2.of_step hs.1 hcomplete hstep⟩

/-- A fiber that is resumed before its job is complete returns `SUCCESS` in its next step. -/
theorem not_waitSound_of_early [DecidableEq Handle] {s : State Thread Fiber Handle}
    (hs : Scheduled s) (h : Waiting s) {t : Thread} (hpc : s.pc (s.control t) = .user)
    {arg : Option Fiber} (hearly : ¬ ResumesComplete s (.resume t arg)) :
    ∃ s₁ s₂, step s (.resume t arg) = some s₁ ∧ step s₁ (.next t) = some s₂ ∧ ¬ WaitSound s₂ := by
  cases arg with
  | none => exact absurd trivial hearly
  | some f =>
      simp only [ResumesComplete, Classical.not_imp, not_forall] at hearly
      obtain ⟨hwas, handle, hwaiting, hincomplete⟩ := hearly
      have hstate : ¬ (s.state f ≠ .suspended ∧ s.state f ≠ .idle) := by tauto
      have hrunning : s.state f ≠ .running := by
        rcases hwas with hwas | hwas <;> simp [hwas]
      have hne : Party.fiber f ≠ s.control t := hs.ne_control hrunning t
      have hwaits : s.pc (.fiber f) = .inWaitJob f handle := (h.waits _ f handle).mpr ⟨rfl, hwaiting⟩
      obtain ⟨s₁, hresume, hcontrol, hpc₁, hjobs⟩ : ∃ s₁, step s (.resume t (some f)) = some s₁ ∧
          s₁.control t = .fiber f ∧ s₁.pc (.fiber f) = .inWaitJob f handle ∧
          s₁.isComplete = s.isComplete := by
        simp only [step, hpc, lgxFiberResume, if_neg hstate]
        refine ⟨_, rfl, (update_self ..).trans (hs.context f), ?_, rfl⟩
        exact (update_of_ne hne ..).trans hwaits
      refine ⟨s₁, _, hresume, by simp only [step, next, hcontrol, hpc₁]; rfl, fun hsound => ?_⟩
      have hcomplete := hsound t handle (by simp [State.goto])
      refine hincomplete ?_
      rw [← hjobs]
      exact hcomplete

/-- A check of the condition. -/
def resumesComplete (s : State Thread Fiber Handle) : Action Thread Fiber Handle → Bool
  | .resume _ (some f) => (s.waitingOn f).all s.isComplete
  | _ => true

omit [DecidableEq Thread] [DecidableEq Fiber] in
theorem of_resumesComplete {s : State Thread Fiber Handle} {a : Action Thread Fiber Handle}
    (h : resumesComplete s a = true) : ResumesComplete s a := by
  cases a with
  | resume t arg =>
      cases arg with
      | none => trivial
      | some f =>
          intro _ handle hwaiting
          simpa [resumesComplete, hwaiting] using h
  | _ => trivial

end LgxRuntime.Threading.Fiber
