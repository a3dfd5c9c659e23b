import LgxRuntime.Lib.Interleaving
import LgxRuntime.Threading.SpscQueue

/-!
# Fibers

A fiber is a stack with a saved context.  `lgx_fiber_resume` saves the context of its caller in its
own frame and switches to the fiber; `lgx_fiber_yield`, `lgx_fiber_wait_job` and the end of the
fiber's function switch back to that frame.  The thread-local `lgx_current_fiber` names the fiber
that a thread executes: a resume sets it, and every way back clears it.  A fiber may itself resume
another one; when control comes back to it, the variable is cleared, and not set to the fiber again.

Code runs on the stack of a thread or on the stack of a fiber (`Party`), and `swapcontext` and
`setcontext` transfer control exactly: a context holds the party whose execution is saved in it.  A
call is one step up to the point where it switches.  Whether a job is complete is decided outside.
-/

namespace LgxRuntime.Threading.Fiber

open Function (update update_self update_of_ne)
open Interleaving (update_cases apply_update_cases)

/-! ## Fibers and the code that runs on them -/

/-- `lgx_fiber_state_e`. -/
inductive FiberState
  | idle
  | running
  | suspended
  | completed
  deriving DecidableEq

/-- Whose stack code runs on. -/
inductive Party (Thread Fiber : Type)
  | main (t : Thread)
  | fiber (f : Fiber)
  deriving DecidableEq

/-- A call of `lgx_fiber_resume`: `lgx_current_fiber` at its beginning, the argument, and the state
that the argument had. -/
structure ResumeCall (Fiber : Type) where
  before : Option Fiber
  fiber : Option Fiber
  was : Option FiberState
  deriving DecidableEq

/-- A call that is about to return. -/
inductive Return (Fiber Handle : Type)
  | resume (call : ResumeCall Fiber) (result : ThreadingError)
  | yield (result : ThreadingError)
  | waitJob (handle : Option Handle) (result : ThreadingError)
  deriving DecidableEq

/-- Where the code on a stack is. -/
inductive Pc (Fiber Handle : Type)
  /-- In the code of the client. -/
  | user
  | returns (call : Return Fiber Handle)
  /-- At the `swapcontext` of `lgx_fiber_resume`. -/
  | inResume (call : ResumeCall Fiber)
  /-- At the `swapcontext` of `lgx_fiber_yield`. -/
  | inYield
  /-- At the `swapcontext` of `lgx_fiber_wait_job`, with its local variable `fiber`. -/
  | inWaitJob (fiber : Fiber) (handle : Handle)
  /-- Before the first instruction of `fiber_trampoline`. -/
  | fresh
  /-- Behind the last one. -/
  | done
  deriving DecidableEq

/-- The fibers, what the threads execute, and which jobs `lgx_job_is_complete` reports. -/
structure State (Thread Fiber Handle : Type) where
  currentFiber : Thread → Option Fiber
  state : Fiber → FiberState
  schedulerCtx : Fiber → Option (Party Thread Fiber)
  /-- Whose execution is saved in `fiber->context`. -/
  context : Fiber → Party Thread Fiber
  waitingOn : Fiber → Option Handle
  /-- The local variable `fiber` of `fiber_trampoline` on the stack of a fiber. -/
  trampoline : Fiber → Option Fiber
  isComplete : Handle → Bool
  /-- Whose stack a thread is on. -/
  control : Thread → Party Thread Fiber
  pc : Party Thread Fiber → Pc Fiber Handle

/-- Threads and fibers after `lgx_fiber_create`. -/
structure Initial {Thread Fiber Handle : Type} (s : State Thread Fiber Handle) : Prop where
  currentFiber : ∀ t, s.currentFiber t = none
  state : ∀ f, s.state f = .idle
  schedulerCtx : ∀ f, s.schedulerCtx f = none
  context : ∀ f, s.context f = .fiber f
  waitingOn : ∀ f, s.waitingOn f = none
  trampoline : ∀ f, s.trampoline f = none
  control : ∀ t, s.control t = .main t
  main : ∀ t, s.pc (.main t) = .user
  fiber : ∀ f, s.pc (.fiber f) = .fresh

/-- A call, the end of a fiber's function, the next step of a thread inside a call, or the completion
of a job. -/
inductive Action (Thread Fiber Handle : Type)
  | resume (t : Thread) (fiber : Option Fiber)
  | yield (t : Thread)
  | waitJob (t : Thread) (handle : Option Handle)
  | finish (t : Thread)
  | next (t : Thread)
  | complete (handle : Handle)

variable {Thread Fiber Handle : Type} [DecidableEq Thread] [DecidableEq Fiber]

/-- The code that a thread executes moves on. -/
def State.goto (s : State Thread Fiber Handle) (t : Thread) (pc : Pc Fiber Handle) :
    State Thread Fiber Handle :=
  { s with pc := update s.pc (s.control t) pc }

/-- `lgx_fiber_resume`, up to the switch. -/
def lgxFiberResume (s : State Thread Fiber Handle) (t : Thread) (arg : Option Fiber) :
    State Thread Fiber Handle :=
  let call : ResumeCall Fiber := ⟨s.currentFiber t, arg, arg.map s.state⟩
  match arg with
  | none => s.goto t (.returns (.resume call .invalidParam))
  | some fiber =>
      if s.state fiber ≠ .suspended ∧ s.state fiber ≠ .idle then
        s.goto t (.returns (.resume call .operationFailed))
      else
        { s.goto t (.inResume call) with
          schedulerCtx := update s.schedulerCtx fiber (some (s.control t))
          state := update s.state fiber .running
          currentFiber := update s.currentFiber t (some fiber)
          control := update s.control t (s.context fiber) }

/-- `lgx_current_fiber = NULL` and the switch to `fiber->scheduler_ctx`, which must not be `NULL`; the
code that was executed stops at `pc`. -/
def switchBack (s : State Thread Fiber Handle) (t : Thread) (fiber : Fiber) (state : FiberState)
    (pc : Pc Fiber Handle) : Option (State Thread Fiber Handle) :=
  (s.schedulerCtx fiber).map fun scheduler =>
    { s.goto t pc with
      state := update s.state fiber state
      currentFiber := update s.currentFiber t none
      control := update s.control t scheduler }

/-- `lgx_fiber_yield`, up to the switch. -/
def lgxFiberYield (s : State Thread Fiber Handle) (t : Thread) : Option (State Thread Fiber Handle) :=
  match s.currentFiber t with
  | none => some (s.goto t (.returns (.yield .operationFailed)))
  | some fiber =>
      switchBack { s with context := update s.context fiber (s.control t) } t fiber .suspended
        .inYield

/-- `lgx_fiber_wait_job`, up to the switch. -/
def lgxFiberWaitJob (s : State Thread Fiber Handle) (t : Thread) (handle : Option Handle) :
    Option (State Thread Fiber Handle) :=
  match s.currentFiber t, handle with
  | none, _ => some (s.goto t (.returns (.waitJob handle .operationFailed)))
  | some _, none => some (s.goto t (.returns (.waitJob none .invalidParam)))
  | some fiber, some h =>
      if s.isComplete h then some (s.goto t (.returns (.waitJob (some h) .success)))
      else
        switchBack
          { s with
            waitingOn := update s.waitingOn fiber (some h)
            context := update s.context fiber (s.control t) }
          t fiber .suspended (.inWaitJob fiber h)

/-- The end of `fiber_trampoline`, after the fiber's function has returned. -/
def finish (s : State Thread Fiber Handle) (t : Thread) : Option (State Thread Fiber Handle) :=
  match s.control t with
  | .main _ => none
  | .fiber f => (s.trampoline f).bind fun fiber => switchBack s t fiber .completed .done

/-- The next step of a thread behind a switch, and the return of a call. -/
def next (s : State Thread Fiber Handle) (t : Thread) : Option (State Thread Fiber Handle) :=
  match s.pc (s.control t) with
  | .returns _ => some (s.goto t .user)
  | .inResume call => some (s.goto t (.returns (.resume call .success)))
  | .inYield => some (s.goto t (.returns (.yield .success)))
  | .inWaitJob fiber h =>
      some { s.goto t (.returns (.waitJob (some h) .success)) with
        waitingOn := update s.waitingOn fiber none }
  | .fresh =>
      match s.control t, s.currentFiber t with
      | .fiber f, some fiber =>
          some { s.goto t .user with trampoline := update s.trampoline f (some fiber) }
      -- the trampoline returns at once
      | _, _ => some (s.goto t .done)
  | .user | .done => none

/-- One step. -/
def step [DecidableEq Handle] (s : State Thread Fiber Handle) : Action Thread Fiber Handle →
    Option (State Thread Fiber Handle)
  | .resume t fiber =>
      match s.pc (s.control t) with
      | .user => some (lgxFiberResume s t fiber)
      | _ => none
  | .yield t =>
      match s.pc (s.control t) with
      | .user => lgxFiberYield s t
      | _ => none
  | .waitJob t handle =>
      match s.pc (s.control t) with
      | .user => lgxFiberWaitJob s t handle
      | _ => none
  | .finish t =>
      match s.pc (s.control t) with
      | .user => finish s t
      | _ => none
  | .next t => next s t
  | .complete h => some { s with isComplete := update s.isComplete h true }

/-- The states of the runs of any number of threads and fibers. -/
def Reachable [DecidableEq Handle] : State Thread Fiber Handle → Prop :=
  Interleaving.Reachable Initial step fun _ _ => True

/-! ## Who waits for whom -/

/-- The resume is not refused. -/
def ResumeCall.Accepted {Fiber : Type} (call : ResumeCall Fiber) : Prop :=
  call.was = some .suspended ∨ call.was = some .idle

/-- Code that a thread executes outside of a switch. -/
def Pc.active {Fiber Handle : Type} : Pc Fiber Handle → Bool
  | .user | .returns _ => true
  | _ => false

/-- Code that is stopped and waits for nobody. -/
def Pc.rests {Fiber Handle : Type} : Pc Fiber Handle → Bool
  | .fresh | .inYield | .inWaitJob _ _ | .done => true
  | _ => false

/-- A running fiber was switched to by a resume that waits for it and that no thread executes; only
what threads execute is active; and where control is back in a resume, or about to leave it,
`lgx_current_fiber` is cleared. -/
structure Scheduled (s : State Thread Fiber Handle) : Prop where
  context : ∀ f, s.context f = .fiber f
  trampoline : ∀ f g, s.trampoline f = some g → g = f
  control : ∀ t f, s.control t = .fiber f → s.state f = .running
  injective : ∀ t u, s.control t = s.control u → t = u
  current : ∀ t f, s.currentFiber t = some f → s.control t = .fiber f
  active : ∀ p, (s.pc p).active = true → ∃ t, s.control t = p
  rests : ∀ f, s.state f ≠ .running → (s.pc (.fiber f)).rests = true
  scheduler : ∀ f, s.state f = .running →
    ∃ p call, s.schedulerCtx f = some p ∧ s.pc p = .inResume call ∧ call.fiber = some f
  apart : ∀ t f, s.state f = .running → s.schedulerCtx f ≠ some (s.control t)
  accepted : ∀ p call, s.pc p = .inResume call → call.Accepted
  back : ∀ t call, s.pc (s.control t) = .inResume call → s.currentFiber t = none
  returned : ∀ t call result, s.pc (s.control t) = .returns (.resume call result) →
    (call.Accepted → s.currentFiber t = none) ∧
      (¬ call.Accepted → s.currentFiber t = call.before)

namespace Scheduled

variable {s s' : State Thread Fiber Handle} {t : Thread}

omit [DecidableEq Thread] [DecidableEq Fiber] in
theorem init (h : Initial s) : Scheduled s where
  context := h.context
  trampoline f g hg := by
    rw [h.trampoline f] at hg
    cases hg
  control t f hf := by
    rw [h.control t] at hf
    cases hf
  injective t u htu := by
    rw [h.control t, h.control u] at htu
    exact Party.main.inj htu
  current t f hf := by
    rw [h.currentFiber t] at hf
    cases hf
  active p hp := by
    cases p with
    | main t => exact ⟨t, h.control t⟩
    | fiber f =>
        rw [h.fiber f] at hp
        cases hp
  rests f _ := by
    rw [h.fiber f]
    rfl
  scheduler f hf := by
    rw [h.state f] at hf
    cases hf
  apart t f hf := by
    rw [h.state f] at hf
    cases hf
  accepted p call hp := by
    cases p with
    | main t =>
        rw [h.main t] at hp
        cases hp
    | fiber f =>
        rw [h.fiber f] at hp
        cases hp
  back t call ht := by
    rw [h.control t, h.main t] at ht
    cases ht
  returned t call result ht := by
    rw [h.control t, h.main t] at ht
    cases ht

omit [DecidableEq Thread] [DecidableEq Fiber] in
theorem ne_control (h : Scheduled s) {f : Fiber} (hf : s.state f ≠ .running) (t : Thread) :
    Party.fiber f ≠ s.control t :=
  fun heq => hf (h.control t f heq.symm)

/-- What a thread is at, after the code that one of them executes has moved on. -/
theorem pc_control_cases (h : Scheduled s) {pc pc' : Pc Fiber Handle} {u : Thread}
    (hu : update s.pc (s.control t) pc (s.control u) = pc') :
    (u = t ∧ pc = pc') ∨ (u ≠ t ∧ s.pc (s.control u) = pc') := by
  by_cases hut : u = t
  · rw [hut, update_self] at hu
    exact Or.inl ⟨hut, hu⟩
  · have hne : s.control u ≠ s.control t := fun heq => hut (h.injective u t heq)
    rw [update_of_ne hne] at hu
    exact Or.inr ⟨hut, hu⟩

/-- The code that a thread executes moves on without a switch. -/
theorem goto (h : Scheduled s) {pc : Pc Fiber Handle} (hresume : ∀ call, pc ≠ .inResume call)
    (hreturned : ∀ call result, pc = .returns (.resume call result) →
      (call.Accepted → s.currentFiber t = none) ∧
        (¬ call.Accepted → s.currentFiber t = call.before)) :
    Scheduled (s.goto t pc) where
  context := h.context
  trampoline := h.trampoline
  control := h.control
  injective := h.injective
  current := h.current
  active p hp := by
    rcases apply_update_cases hp with ⟨rfl, -⟩ | ⟨-, hp⟩
    · exact ⟨t, rfl⟩
    · exact h.active p hp
  rests f hf := by
    have hne := h.ne_control hf t
    exact (congrArg Pc.rests (update_of_ne hne ..)).trans (h.rests f hf)
  scheduler f hf := by
    obtain ⟨p, call, hctx, hpc, hcall⟩ := h.scheduler f hf
    refine ⟨p, call, hctx, (update_of_ne ?_ ..).trans hpc, hcall⟩
    rintro rfl
    exact h.apart t f hf hctx
  apart := h.apart
  accepted p call hp := by
    rcases update_cases hp with ⟨-, hpc⟩ | ⟨-, hp⟩
    · exact absurd hpc (hresume call)
    · exact h.accepted p call hp
  back u call hu := by
    rcases h.pc_control_cases hu with ⟨-, hpc⟩ | ⟨-, hu⟩
    · exact absurd hpc (hresume call)
    · exact h.back u call hu
  returned u call result hu := by
    rcases h.pc_control_cases hu with ⟨rfl, hpc⟩ | ⟨-, hu⟩
    · exact hreturned call result hpc
    · exact h.returned u call result hu

/-- What a thread is at, after one of them has stopped and switched. -/
theorem pc_switch_cases (h : Scheduled s) {p : Party Thread Fiber} (hp : p ≠ s.control t)
    {pc pc' : Pc Fiber Handle} {u : Thread}
    (hu : update s.pc (s.control t) pc (update s.control t p u) = pc') :
    (u = t ∧ s.pc p = pc') ∨ (u ≠ t ∧ s.pc (s.control u) = pc') := by
  by_cases hut : u = t
  · rw [hut, update_self, update_of_ne hp] at hu
    exact Or.inl ⟨hut, hu⟩
  · rw [update_of_ne hut] at hu
    have hcases := h.pc_control_cases hu
    exact Or.inr ⟨hut, (hcases.resolve_left fun heq => hut heq.1).2⟩

omit [DecidableEq Fiber] in
theorem switch_injective (h : Scheduled s) {p : Party Thread Fiber}
    (hp : ∀ u, u ≠ t → s.control u ≠ p) (u v : Thread)
    (huv : update s.control t p u = update s.control t p v) : u = v := by
  by_cases hut : u = t
  · by_cases hvt : v = t
    · rw [hut, hvt]
    · rw [hut, update_self, update_of_ne hvt] at huv
      exact absurd huv.symm (hp v hvt)
  · by_cases hvt : v = t
    · rw [hvt, update_self, update_of_ne hut] at huv
      exact absurd huv (hp u hut)
    · rw [update_of_ne hut, update_of_ne hvt] at huv
      exact h.injective u v huv

/-- What a thread executes, after another party has stopped and the thread has switched, it has
executed before. -/
theorem active_switch (h : Scheduled s) {p : Party Thread Fiber} {pc : Pc Fiber Handle}
    (hpc : pc.active = false) (q : Party Thread Fiber)
    (hq : (update s.pc (s.control t) pc q).active = true) :
    ∃ u, update s.control t p u = q := by
  rcases apply_update_cases hq with ⟨-, hactive⟩ | ⟨hne, hq⟩
  · rw [hpc] at hactive
    cases hactive
  · obtain ⟨u, rfl⟩ := h.active q hq
    refine ⟨u, update_of_ne ?_ ..⟩
    rintro rfl
    exact hne rfl

/-- A thread switches to a fiber that is not running. -/
theorem resume (h : Scheduled s) (hpc : s.pc (s.control t) = .user) {f : Fiber}
    (hf : s.state f ≠ .running) {call : ResumeCall Fiber} (hcall : call.fiber = some f)
    (haccepted : call.Accepted) :
    Scheduled
      { s.goto t (.inResume call) with
        schedulerCtx := update s.schedulerCtx f (some (s.control t))
        state := update s.state f .running
        currentFiber := update s.currentFiber t (some f)
        control := update s.control t (s.context f) } where
  context := h.context
  trampoline := h.trampoline
  control u g hu := by
    rcases update_cases hu with ⟨-, hg⟩ | ⟨-, hu⟩
    · rw [h.context f] at hg
      rw [← Party.fiber.inj hg]
      exact update_self ..
    · have hrunning := h.control u g hu
      refine (update_of_ne ?_ ..).trans hrunning
      rintro rfl
      exact hf hrunning
  injective := h.switch_injective fun u _ heq =>
    h.ne_control hf u (by rw [heq, h.context f])
  current u g hu := by
    rcases update_cases hu with ⟨rfl, hg⟩ | ⟨hut, hu⟩
    · rw [← Option.some.inj hg]
      exact (update_self ..).trans (h.context f)
    · exact (update_of_ne hut ..).trans (h.current u g hu)
  active := h.active_switch rfl
  rests g hg := by
    have hgf : g ≠ f := by
      rintro rfl
      exact hg (update_self ..)
    have hstate : s.state g ≠ .running := fun heq => hg ((update_of_ne hgf ..).trans heq)
    exact (congrArg Pc.rests (update_of_ne (h.ne_control hstate t) ..)).trans (h.rests g hstate)
  scheduler g hg := by
    rcases update_cases hg with ⟨rfl, -⟩ | ⟨hgf, hg⟩
    · exact ⟨s.control t, call, update_self .., update_self .., hcall⟩
    · obtain ⟨p, call', hctx, hp, hcall'⟩ := h.scheduler g hg
      refine ⟨p, call', (update_of_ne hgf ..).trans hctx, (update_of_ne ?_ ..).trans hp, hcall'⟩
      rintro rfl
      exact h.apart t g hg hctx
  apart u g hg := by
    change update s.schedulerCtx f (some (s.control t)) g ≠ some (update s.control t (s.context f) u)
    rcases update_cases hg with ⟨rfl, -⟩ | ⟨hgf, hg⟩
    · rw [update_self, ne_eq, Option.some.injEq]
      by_cases hut : u = t
      · rw [hut, update_self, h.context g]
        exact (h.ne_control hf t).symm
      · rw [update_of_ne hut]
        exact fun heq => hut (h.injective u t heq.symm)
    · rw [update_of_ne hgf]
      by_cases hut : u = t
      · -- what waits for `g` is in a resume, and `f` is not
        rw [hut, update_self, h.context f]
        intro hctx
        obtain ⟨p, call', hctx', hp, -⟩ := h.scheduler g hg
        obtain rfl : Party.fiber f = p := Option.some.inj (hctx.symm.trans hctx')
        have hrests := h.rests f hf
        rw [hp] at hrests
        cases hrests
      · rw [update_of_ne hut]
        exact h.apart u g hg
  accepted p call' hp := by
    rcases update_cases hp with ⟨-, hcall'⟩ | ⟨-, hp⟩
    · rw [← Pc.inResume.inj hcall']
      exact haccepted
    · exact h.accepted p call' hp
  back u call' hu := by
    have hrests := h.rests f hf
    rw [← h.context f] at hrests
    rcases h.pc_switch_cases (h.context f ▸ h.ne_control hf t) hu with ⟨-, hp⟩ | ⟨hut, hu⟩
    · rw [hp] at hrests
      cases hrests
    · exact (update_of_ne hut ..).trans (h.back u call' hu)
  returned u call' result hu := by
    have hrests := h.rests f hf
    rw [← h.context f] at hrests
    rcases h.pc_switch_cases (h.context f ▸ h.ne_control hf t) hu with ⟨-, hp⟩ | ⟨hut, hu⟩
    · rw [hp] at hrests
      cases hrests
    · simp only [update_of_ne hut]
      exact h.returned u call' result hu

omit [DecidableEq Thread] [DecidableEq Fiber] in
/-- A fiber that a thread executes was resumed by a call that is still waiting. -/
theorem exists_scheduler (h : Scheduled s) {f : Fiber} (hcontrol : s.control t = .fiber f) :
    ∃ p call, s.schedulerCtx f = some p ∧ s.pc p = .inResume call ∧ call.fiber = some f ∧
      ∀ u, s.control u ≠ p := by
  have hrunning := h.control t f hcontrol
  obtain ⟨p, call, hctx, hp, hcall⟩ := h.scheduler f hrunning
  refine ⟨p, call, hctx, hp, hcall, fun u hu => ?_⟩
  exact h.apart u f hrunning (by rw [hu]; exact hctx)

/-- A fiber stops, and the thread switches back to the resume that waits for it. -/
theorem leave (h : Scheduled s) {f : Fiber} (hcontrol : s.control t = .fiber f)
    {state : FiberState} (hstate : state ≠ .running) {pc : Pc Fiber Handle} (hrests : pc.rests = true)
    (hswitch : switchBack s t f state pc = some s') : Scheduled s' := by
  obtain ⟨p, call, hctx, hp, hcall, happart⟩ := h.exists_scheduler hcontrol
  obtain ⟨p', hctx', rfl⟩ := Option.map_eq_some_iff.mp hswitch
  obtain rfl : p = p' := Option.some.inj (hctx.symm.trans hctx')
  have hne : p ≠ s.control t := fun heq => happart t heq.symm
  have hactive : pc.active = false := by
    cases pc with
    | user | returns => cases hrests
    | _ => rfl
  have hresume : ∀ call', pc ≠ .inResume call' := by
    rintro call' rfl
    cases hrests
  -- a party in a resume is a thread or a running fiber other than `f`
  have hrunning : ∀ g, p = .fiber g → update s.state f state g = .running := by
    rintro g rfl
    have hgf : g ≠ f := by
      rintro rfl
      exact hne hcontrol.symm
    rw [update_of_ne hgf]
    by_contra hg
    have hrest := h.rests g hg
    rw [hp] at hrest
    cases hrest
  have hother : ∀ g, update s.state f state g = .running → g ≠ f ∧ s.state g = .running := by
    intro g hg
    rcases update_cases hg with ⟨-, hg⟩ | hg
    · exact absurd hg hstate
    · exact hg
  refine ⟨h.context, h.trampoline, fun u g hu => ?_, h.switch_injective fun u _ => happart u,
    fun u g hu => ?_, h.active_switch hactive, fun g hg => ?_, fun g hg => ?_, fun u g hg => ?_,
    fun q call' hq => ?_, fun u call' hu => ?_, fun u call' result hu => ?_⟩
  · -- `control`
    rcases update_cases hu with ⟨-, hg⟩ | ⟨hut, hold⟩
    · exact hrunning g hg
    · have hgf : g ≠ f := by
        rintro rfl
        exact hut (h.injective u t (hold.trans hcontrol.symm))
      exact (update_of_ne hgf ..).trans (h.control u g hold)
  · -- `current`
    rcases update_cases hu with ⟨-, hnone⟩ | ⟨hut, hu⟩
    · cases hnone
    · exact (update_of_ne hut ..).trans (h.current u g hu)
  · -- `rests`
    change (update s.pc (s.control t) pc (.fiber g)).rests = true
    by_cases hgf : g = f
    · rw [hgf, ← hcontrol, update_self]
      exact hrests
    · have hg' : s.state g ≠ .running := fun heq => hg ((update_of_ne hgf ..).trans heq)
      rw [update_of_ne (h.ne_control hg' t)]
      exact h.rests g hg'
  · -- `scheduler`
    obtain ⟨-, hg⟩ := hother g hg
    obtain ⟨q, call', hctx', hq, hcall'⟩ := h.scheduler g hg
    refine ⟨q, call', hctx', (update_of_ne ?_ ..).trans hq, hcall'⟩
    rintro rfl
    exact h.apart t g hg hctx'
  · -- `apart`: a resume waits for one fiber only
    obtain ⟨hgf, hg⟩ := hother g hg
    change s.schedulerCtx g ≠ some (update s.control t p u)
    by_cases hut : u = t
    · rw [hut, update_self]
      intro hctx'
      obtain ⟨q, call', hctx'', hq, hcall'⟩ := h.scheduler g hg
      obtain rfl : p = q := Option.some.inj (hctx'.symm.trans hctx'')
      obtain rfl : call = call' := Pc.inResume.inj (hp.symm.trans hq)
      exact hgf (Option.some.inj (hcall'.symm.trans hcall))
    · rw [update_of_ne hut]
      exact h.apart u g hg
  · -- `accepted`
    rcases update_cases hq with ⟨-, hpc⟩ | ⟨-, hq⟩
    · exact absurd hpc (hresume call')
    · exact h.accepted q call' hq
  · -- `back`
    rcases h.pc_switch_cases hne hu with ⟨rfl, -⟩ | ⟨hut, hu⟩
    · exact update_self ..
    · exact (update_of_ne hut ..).trans (h.back u call' hu)
  · -- `returned`
    rcases h.pc_switch_cases hne hu with ⟨rfl, hreturns⟩ | ⟨hut, hu⟩
    · rw [hp] at hreturns
      cases hreturns
    · simp only [update_of_ne hut]
      exact h.returned u call' result hu

/-! ## Every step -/

omit [DecidableEq Thread] in
/-- What is saved is the fiber's own execution. -/
theorem update_context (h : Scheduled s) {f : Fiber} (hcontrol : s.control t = .fiber f) :
    update s.context f (s.control t) = s.context := by
  rw [hcontrol, ← h.context f]
  exact Function.update_eq_self f s.context

/-- A call that returns without a switch, and is not a resume. -/
theorem goto_returns (h : Scheduled s) {call : Return Fiber Handle}
    (hcall : ∀ c result, call ≠ .resume c result) : Scheduled (s.goto t (.returns call)) :=
  h.goto (by simp) fun c result heq => absurd (Pc.returns.inj heq) (hcall c result)

theorem of_resume (h : Scheduled s) (hpc : s.pc (s.control t) = .user) (arg : Option Fiber) :
    Scheduled (lgxFiberResume s t arg) := by
  unfold lgxFiberResume
  cases arg with
  | none =>
      refine h.goto (by simp) fun call result heq => ?_
      obtain ⟨rfl, -⟩ := Return.resume.inj (Pc.returns.inj heq)
      refine ⟨fun haccepted => ?_, fun _ => rfl⟩
      rcases haccepted with hwas | hwas <;> cases hwas
  | some fiber =>
      simp only
      split_ifs with hstate
      · refine h.goto (by simp) fun call result heq => ?_
        obtain ⟨rfl, -⟩ := Return.resume.inj (Pc.returns.inj heq)
        refine ⟨fun haccepted => ?_, fun _ => rfl⟩
        rcases haccepted with hwas | hwas
        · exact absurd (Option.some.inj hwas) hstate.1
        · exact absurd (Option.some.inj hwas) hstate.2
      · have hwas : s.state fiber = .suspended ∨ s.state fiber = .idle := by tauto
        refine h.resume hpc ?_ rfl (hwas.imp (congrArg some) (congrArg some))
        rcases hwas with hwas | hwas <;> simp [hwas]

theorem of_yield (h : Scheduled s) (hyield : lgxFiberYield s t = some s') : Scheduled s' := by
  unfold lgxFiberYield at hyield
  split at hyield
  · obtain rfl := Option.some.inj hyield
    exact h.goto_returns (by simp)
  · rename_i fiber hcurrent
    have hcontrol := h.current t fiber hcurrent
    rw [h.update_context hcontrol] at hyield
    exact h.leave hcontrol (by simp) rfl hyield

theorem of_waitJob (h : Scheduled s) {handle : Option Handle}
    (hwait : lgxFiberWaitJob s t handle = some s') : Scheduled s' := by
  unfold lgxFiberWaitJob at hwait
  split at hwait
  · obtain rfl := Option.some.inj hwait
    exact h.goto_returns (by simp)
  · obtain rfl := Option.some.inj hwait
    exact h.goto_returns (by simp)
  · rename_i fiber handle hcurrent
    have hcontrol := h.current t fiber hcurrent
    split_ifs at hwait with hcomplete
    · obtain rfl := Option.some.inj hwait
      exact h.goto_returns (by simp)
    · rw [h.update_context hcontrol] at hwait
      have hwaits : Scheduled { s with waitingOn := update s.waitingOn fiber (some handle) } := { h with }
      exact hwaits.leave hcontrol (by simp) rfl hwait

theorem of_finish (h : Scheduled s) (hfinish : finish s t = some s') : Scheduled s' := by
  unfold finish at hfinish
  split at hfinish
  · cases hfinish
  · rename_i f hcontrol
    obtain ⟨fiber, htrampoline, hswitch⟩ := Option.bind_eq_some_iff.mp hfinish
    obtain rfl := h.trampoline f fiber htrampoline
    exact h.leave hcontrol (by simp) rfl hswitch

theorem of_next (h : Scheduled s) (hnext : next s t = some s') : Scheduled s' := by
  unfold next at hnext
  split at hnext
  · obtain rfl := Option.some.inj hnext
    exact h.goto (by simp) (by simp)
  · rename_i call hpc
    obtain rfl := Option.some.inj hnext
    refine h.goto (by simp) fun c result heq => ?_
    obtain ⟨rfl, -⟩ := Return.resume.inj (Pc.returns.inj heq)
    exact ⟨fun _ => h.back t call hpc, fun hrefused => absurd (h.accepted _ call hpc) hrefused⟩
  · obtain rfl := Option.some.inj hnext
    exact h.goto_returns (by simp)
  · rename_i fiber handle hpc
    obtain rfl := Option.some.inj hnext
    have hreturns : Scheduled (s.goto t (.returns (.waitJob (some handle) .success))) :=
      h.goto_returns (by simp)
    exact { hreturns with }
  · split at hnext
    · rename_i f fiber hcontrol hcurrent
      obtain rfl := Option.some.inj hnext
      obtain rfl : f = fiber := Party.fiber.inj (hcontrol.symm.trans (h.current t fiber hcurrent))
      have huser : Scheduled (s.goto t .user) := h.goto (by simp) (by simp)
      refine { huser with trampoline := fun g g' hg => ?_ }
      rcases update_cases hg with ⟨rfl, hg'⟩ | ⟨-, hg⟩
      · exact (Option.some.inj hg').symm
      · exact h.trampoline g g' hg
    · obtain rfl := Option.some.inj hnext
      exact h.goto (by simp) (by simp)
  · cases hnext
  · cases hnext

/-- Every step keeps the order of the fibers. -/
theorem of_step [DecidableEq Handle] {a : Action Thread Fiber Handle} (h : Scheduled s)
    (hstep : step s a = some s') : Scheduled s' := by
  cases a with
  | resume t arg =>
      simp only [step] at hstep
      split at hstep <;> cases hstep
      rename_i hpc
      exact h.of_resume hpc arg
  | yield t =>
      simp only [step] at hstep
      split at hstep
      · exact h.of_yield hstep
      · cases hstep
  | waitJob t handle =>
      simp only [step] at hstep
      split at hstep
      · exact h.of_waitJob hstep
      · cases hstep
  | finish t =>
      simp only [step] at hstep
      split at hstep
      · exact h.of_finish hstep
      · cases hstep
  | next t => exact h.of_next hstep
  | complete handle =>
      obtain rfl := Option.some.inj hstep
      exact { h with }

end Scheduled

theorem Reachable.scheduled [DecidableEq Handle] {s : State Thread Fiber Handle}
    (h : Reachable s) : Scheduled s := by
  apply Interleaving.Reachable.invariant (I := Scheduled) h
  · exact fun s hinit => Scheduled.init hinit
  · exact fun s s' a hs _ hstep => hs.of_step hstep

/-! ## What a resume leaves behind -/

/-- A fiber that yields goes back to the resume that waits for it. -/
theorem yield_goes_back [DecidableEq Handle] {s : State Thread Fiber Handle} {t : Thread} {f : Fiber}
    (hreach : Reachable s) (hcurrent : s.currentFiber t = some f) :
    ∃ s' call, lgxFiberYield s t = some s' ∧ s'.pc (s'.control t) = .inResume call ∧
      call.fiber = some f := by
  have h := hreach.scheduled
  obtain ⟨p, call, hctx, hp, hcall, happart⟩ := h.exists_scheduler (h.current t f hcurrent)
  have hne : p ≠ s.control t := fun heq => happart t heq.symm
  obtain ⟨s', hyield, hcontrol, hpc⟩ : ∃ s', lgxFiberYield s t = some s' ∧
      s'.control = update s.control t p ∧ s'.pc = update s.pc (s.control t) .inYield := by
    simp only [lgxFiberYield, hcurrent, switchBack, hctx, Option.map_some]
    exact ⟨_, rfl, rfl, rfl⟩
  refine ⟨s', call, hyield, ?_, hcall⟩
  rw [hcontrol, hpc, update_self, update_of_ne hne]
  exact hp

/-- In every run, when `lgx_fiber_resume` returns, `lgx_current_fiber` is what it was before the call
exactly if it was `NULL` before, or the call was refused. -/
theorem currentFiber_restored_iff [DecidableEq Handle] {s : State Thread Fiber Handle}
    (hreach : Reachable s) {t : Thread} {call : ResumeCall Fiber} {result : ThreadingError}
    (hreturns : s.pc (s.control t) = .returns (.resume call result)) :
    s.currentFiber t = call.before ↔ call.before = none ∨ ¬ call.Accepted := by
  obtain ⟨haccepted, hrefused⟩ := hreach.scheduled.returned t call result hreturns
  by_cases hcall : call.Accepted
  · rw [haccepted hcall]
    simp only [hcall, not_true, or_false]
    exact eq_comm
  · simp only [hcall, not_false_eq_true, or_true, iff_true]
    exact hrefused hcall

/-! ### Two runs -/

/-- A thread and two fibers, one job. -/
def created : State Unit Bool Unit where
  currentFiber _ := none
  state _ := .idle
  schedulerCtx _ := none
  context := .fiber
  waitingOn _ := none
  trampoline _ := none
  isComplete _ := false
  control := .main
  pc
    | .main _ => .user
    | .fiber _ => .fresh

theorem initial_created : Initial created :=
  ⟨fun _ => rfl, fun _ => rfl, fun _ => rfl, fun _ => rfl, fun _ => rfl, fun _ => rfl, fun _ => rfl,
    fun _ => rfl, fun _ => rfl⟩

/-- A thread resumes a fiber, which yields: nothing was resumed before, and nothing is afterwards. -/
theorem currentFiber_restored_after_yield : ∃ s : State Unit Bool Unit, Reachable s ∧
    s.state false = .suspended ∧ s.control () = .main () ∧ s.currentFiber () = none := by
  let actions : List (Action Unit Bool Unit) :=
    [.resume () (some false), .next (), .yield (), .next ()]
  have hresult : (Interleaving.run step actions created).map
      (fun s => (s.state false, s.control (), s.pc (s.control ()))) =
      some (.suspended, .main (), .returns (.resume ⟨none, some false, some .idle⟩ .success)) := by
    decide +kernel
  obtain ⟨s, hrun, hs⟩ := Option.map_eq_some_iff.mp hresult
  simp only [Prod.mk.injEq] at hs
  obtain ⟨hstate, hcontrol, hpc⟩ := hs
  have hreach : Reachable s := Interleaving.Reachable.run (.init initial_created)
    (fun _ _ => trivial) hrun
  exact ⟨s, hreach, hstate, hcontrol, (currentFiber_restored_iff hreach hpc).mpr (Or.inl rfl)⟩

/-- A fiber resumes another one, which yields: `lgx_current_fiber` was the first fiber before, and is
`NULL` afterwards. -/
theorem not_currentFiber_restored_nested : ¬ ∀ (s : State Unit Bool Unit) (t : Unit)
    (call : ResumeCall Bool) (result : ThreadingError), Reachable s →
    s.pc (s.control t) = .returns (.resume call result) → s.currentFiber t = call.before := by
  intro h
  let actions : List (Action Unit Bool Unit) :=
    [.resume () (some false), .next (), .resume () (some true), .next (), .yield (), .next ()]
  have hresult : (Interleaving.run step actions created).map
      (fun s => (s.currentFiber (), s.pc (s.control ()))) =
      some (none, .returns (.resume ⟨some false, some true, some .idle⟩ .success)) := by
    decide +kernel
  obtain ⟨s, hrun, hs⟩ := Option.map_eq_some_iff.mp hresult
  obtain ⟨hcurrent, hpc⟩ := Prod.mk.inj hs
  have hrestored := h s () _ _ (Interleaving.Reachable.run (.init initial_created)
    (fun _ _ => trivial) hrun) hpc
  rw [hcurrent] at hrestored
  cases hrestored

end LgxRuntime.Threading.Fiber
