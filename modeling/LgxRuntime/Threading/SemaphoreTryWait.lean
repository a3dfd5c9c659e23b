import LgxRuntime.Threading.Semaphore

/-!
# Trying a semaphore

`lgx_semaphore_try_wait` makes one attempt: if the compare-and-swap fails, it reports that there is no
token, also when another thread has added one in between.  `lgx_semaphore_wait` tries again in that
case.

Whether the word was 0 at some moment since a call began is kept beside the semaphore, for every
thread (`Watched`).  The word only has to be compared after a step, as it does not change between the
steps.
-/

namespace LgxRuntime.Threading.Semaphore

open Interleaving (update_cases)

variable {Thread : Type} [DecidableEq Thread]

/-! ## Semaphores that are watched -/

/-- A semaphore, and for every thread whether the word was 0 since its last call of
`lgx_semaphore_try_wait` began. -/
structure Watched (Thread : Type) where
  sem : State Thread
  zeroSeen : Thread → Bool

/-- The call of `lgx_semaphore_try_wait` by a thread. -/
def Action.startsTry : Action Thread → Thread → Bool
  | .tryWait t, u => decide (t = u)
  | _, _ => false

/-- One step, after which everybody compares the word with 0. -/
def watchedStep (w : Watched Thread) (a : Action Thread) : Option (Watched Thread) :=
  (step w.sem a).map fun s =>
    { sem := s, zeroSeen := fun t => decide (s.count = 0) || (!a.startsTry t && w.zeroSeen t) }

/-- `futex_wake` wakes a thread if one sleeps. -/
def WakesSleeper (w : Watched Thread) : Action Thread → Prop
  | .wake _ none => ∀ u, w.sem.pc u ≠ .sleeping
  | _ => True

/-- A thread at the compare-and-swap of `lgx_semaphore_try_wait` finds the word that it has loaded,
or the word was 0 since its call began. -/
def FindsOrSawZero (w : Watched Thread) : Action Thread → Prop
  | .next t _ => ∀ c, w.sem.pc t = .tryCas c → w.sem.count = c ∨ w.zeroSeen t = true
  | _ => True

/-- The states of the runs of any number of threads whose steps meet a condition. -/
def WatchedReachable (initial : ℕ) (condition : Watched Thread → Action Thread → Prop) :
    Watched Thread → Prop :=
  Interleaving.Reachable (fun w => w.sem = init initial ∧ ∀ t, w.zeroSeen t = decide (initial = 0))
    watchedStep fun w a => WakesSleeper w a ∧ condition w a

/-- Whoever is about to report that there is no token has seen none. -/
def TimeoutsSawZero (w : Watched Thread) : Prop :=
  ∀ t, w.sem.pc t = .returns .timeout → w.zeroSeen t = true

/-- What holds of the watched word: a word of 0 is seen by all. -/
structure Watching (w : Watched Thread) : Prop where
  zero : w.sem.count = 0 → ∀ t, w.zeroSeen t = true
  timeouts : TimeoutsSawZero w

/-! ## One step -/

/-- Where a thread is that is about to report that there is no token: it was there before, or it has
found a word of 0, or its compare-and-swap has failed. -/
theorem move_timeout {s s' : State Thread} {t u : Thread} {weak : Bool}
    (hmove : move s u weak (s.pc u) = some s') (ht : s'.pc t = .returns .timeout) :
    (t ≠ u ∧ s.pc t = .returns .timeout) ∨
      (t = u ∧ s.pc t = .tryLoad ∧ s.count = 0) ∨
      ∃ c, t = u ∧ s.pc t = .tryCas c ∧ s.count ≠ c := by
  have hgoto : ∀ pc', (s.goto u pc').pc t = .returns .timeout → pc' ≠ .returns .timeout →
      t ≠ u ∧ s.pc t = .returns .timeout :=
    fun pc' hpc hne => (update_cases hpc).resolve_left fun h => hne h.2
  cases hpc : s.pc u with
  | idle | sleeping | postWake =>
      rw [hpc] at hmove
      cases hmove
  | waitLoad | waitFutex =>
      rw [hpc] at hmove
      cases hmove
      exact Or.inl (hgoto _ ht (by split <;> simp))
  | waitCas c =>
      rw [hpc] at hmove
      simp only [move] at hmove
      split at hmove <;> cases hmove
      · exact Or.inl (hgoto _ ht (by simp))
      · exact Or.inl (hgoto _ ht (by simp))
  | tryLoad =>
      rw [hpc] at hmove
      cases hmove
      rcases update_cases ht with ⟨rfl, hreturns⟩ | hother
      · refine Or.inr (Or.inl ⟨rfl, hpc, ?_⟩)
        by_contra hpos
        rw [if_pos (by omega)] at hreturns
        cases hreturns
      · exact Or.inl hother
  | tryCas c =>
      rw [hpc] at hmove
      simp only [move] at hmove
      split at hmove <;> cases hmove
      · exact Or.inl (hgoto _ ht (by simp))
      · rename_i hlost
        rcases update_cases ht with ⟨rfl, -⟩ | hother
        · exact Or.inr (Or.inr ⟨c, rfl, hpc, hlost⟩)
        · exact Or.inl hother
  | returns result | postAdd =>
      rw [hpc] at hmove
      cases hmove
      exact Or.inl (hgoto _ ht (by simp))

/-- A step that is not an atomic step of a call lets nobody report that there is no token. -/
theorem step_timeout {s s' : State Thread} {t : Thread} {a : Action Thread}
    (hstep : step s a = some s') (hcall : ∀ u weak, a ≠ .next u weak)
    (ht : s'.pc t = .returns .timeout) : s.pc t = .returns .timeout ∧ a.startsTry t = false := by
  have hgoto : ∀ (r : State Thread) u pc', (r.goto u pc').pc t = .returns .timeout →
      pc' ≠ .returns .timeout → t ≠ u ∧ r.pc t = .returns .timeout :=
    fun r u pc' hpc hne => (update_cases hpc).resolve_left fun h => hne h.2
  cases a with
  | next u weak => exact absurd rfl (hcall u weak)
  | wait u | post u | spurious u =>
      obtain ⟨-, rfl⟩ := Option.ite_none_right_eq_some.mp hstep |>.imp_right Option.some.inj
      exact ⟨(hgoto s u _ ht (by simp)).2, rfl⟩
  | tryWait u =>
      obtain ⟨-, rfl⟩ := Option.ite_none_right_eq_some.mp hstep |>.imp_right Option.some.inj
      obtain ⟨hne, hpc⟩ := hgoto s u _ ht (by simp)
      exact ⟨hpc, by simpa [Action.startsTry] using Ne.symm hne⟩
  | wake u woken =>
      cases woken with
      | none =>
          obtain ⟨-, rfl⟩ := Option.ite_none_right_eq_some.mp hstep |>.imp_right Option.some.inj
          exact ⟨(hgoto s u _ ht (by simp)).2, rfl⟩
      | some v =>
          obtain ⟨-, rfl⟩ := Option.ite_none_right_eq_some.mp hstep |>.imp_right Option.some.inj
          have hpc := (hgoto (s.goto u .idle) v _ ht (by simp)).2
          exact ⟨(hgoto s u _ hpc (by simp)).2, rfl⟩

/-- Every step that meets the condition keeps what holds of the watched word. -/
theorem Watching.step {w w' : Watched Thread} {a : Action Thread} (h : Watching w)
    (hcondition : FindsOrSawZero w a) (hstep : watchedStep w a = some w') : Watching w' := by
  obtain ⟨s, hs, rfl⟩ := Option.map_eq_some_iff.mp hstep
  refine ⟨fun hzero t => ?_, fun t ht => ?_⟩
  · have hnow : decide (s.count = 0) = true := decide_eq_true hzero
    simp only [hnow, Bool.true_or]
  · have hseen : w.zeroSeen t = true ∧ a.startsTry t = false := by
      by_cases hcall : ∃ u weak, a = .next u weak
      · obtain ⟨u, weak, rfl⟩ := hcall
        refine ⟨?_, rfl⟩
        rcases move_timeout hs ht with ⟨-, hpc⟩ | ⟨-, -, hzero⟩ | ⟨c, rfl, hpc, hlost⟩
        · exact h.timeouts t hpc
        · exact h.zero hzero t
        · exact (hcondition c hpc).resolve_left hlost
      · obtain ⟨hpc, hstarts⟩ := step_timeout hs (fun u weak heq => hcall ⟨u, weak, heq⟩) ht
        exact ⟨h.timeouts t hpc, hstarts⟩
    simp only [hseen.1, hseen.2, Bool.not_false, Bool.and_self, Bool.or_true]

/-- A step that does not meet the condition lets a thread report that there is no token which has
seen none. -/
theorem not_timeoutsSawZero_of_lost {w : Watched Thread} {a : Action Thread} (h : Watching w)
    (hcondition : ¬ FindsOrSawZero w a) :
    ∃ w', watchedStep w a = some w' ∧ ¬ TimeoutsSawZero w' := by
  cases a with
  | next t weak =>
      simp only [FindsOrSawZero, not_forall, not_or] at hcondition
      obtain ⟨c, hpc, hlost, hunseen⟩ := hcondition
      have hpos : w.sem.count ≠ 0 := fun hzero => hunseen (h.zero hzero t)
      have hstep : step w.sem (.next t weak) = some (w.sem.goto t (.returns .timeout)) := by
        simp only [step, hpc, move, if_neg hlost]
      refine ⟨_, Option.map_eq_some_iff.mpr ⟨_, hstep, rfl⟩, fun hseen => hunseen ?_⟩
      have hzero := hseen t (by simp [State.goto])
      simpa [State.goto, Action.startsTry, hpos] using hzero
  | _ => exact absurd trivial hcondition

/-! ## Every run -/

theorem WatchedReachable.watching {initial : ℕ} {w : Watched Thread}
    (h : WatchedReachable initial FindsOrSawZero w) : Watching w := by
  apply Interleaving.Reachable.invariant (I := Watching) h
  · rintro w ⟨hsem, hseen⟩
    refine ⟨fun hzero t => ?_, fun t ht => ?_⟩
    · rw [hsem] at hzero
      rw [hseen t]
      exact decide_eq_true hzero
    · rw [hsem] at ht
      cases ht
  · intro w w' a hw hallowed hstep
    exact hw.step hallowed.2 hstep

/-- In every run in which the compare-and-swaps of `lgx_semaphore_try_wait` find the word that was
loaded, or a word that was 0 since the call began, a call only returns `TIMEOUT` if the word was 0
since it began.  The first compare-and-swap that does neither makes a call return `TIMEOUT` that has
not seen a word of 0. -/
theorem timeoutsSawZero_of_reachable {initial : ℕ} {w : Watched Thread}
    (hreach : WatchedReachable initial FindsOrSawZero w) :
    TimeoutsSawZero w ∧ ∀ a, ¬ FindsOrSawZero w a →
      ∃ w', watchedStep w a = some w' ∧ ¬ TimeoutsSawZero w' :=
  ⟨hreach.watching.timeouts, fun _ => not_timeoutsSawZero_of_lost hreach.watching⟩

/-! ## Two runs of two threads -/

instance (w : Watched Bool) : (a : Action Bool) → Decidable (WakesSleeper w a)
  | .wake _ none => inferInstanceAs (Decidable (∀ u, w.sem.pc u ≠ .sleeping))
  | .wake _ (some _) | .next _ _ | .wait _ | .tryWait _ | .post _ | .spurious _ =>
      inferInstanceAs (Decidable True)

/-- A check of the condition. -/
def findsOrSawZero (w : Watched Bool) : Action Bool → Bool
  | .next t _ =>
      match w.sem.pc t with
      | .tryCas c => decide (w.sem.count = c) || w.zeroSeen t
      | _ => true
  | _ => true

theorem of_findsOrSawZero {w : Watched Bool} {a : Action Bool} (h : findsOrSawZero w a = true) :
    FindsOrSawZero w a := by
  cases a with
  | next t weak =>
      intro c hpc
      simpa [findsOrSawZero, hpc] using h
  | _ => exact trivial

/-- While one thread is between its load and its compare-and-swap, the other one takes the only token
and adds another one and then a second one. -/
theorem timeoutsSawZero_of_reachable_taken : ∃ w : Watched Bool,
    WatchedReachable 1 FindsOrSawZero w ∧ w.sem.count = 2 ∧ w.sem.pc false = .returns .timeout ∧
      w.zeroSeen false = true := by
  let next (t : Bool) : Action Bool := .next t false
  let actions : List (Action Bool) :=
    [.tryWait false, next false, .wait true, next true, next true, next true, .post true, next true,
      .wake true none, .post true, next true, next false]
  have hresult : (Interleaving.run (Interleaving.guarded watchedStep fun w a =>
      decide (WakesSleeper w a) && findsOrSawZero w a) actions
      (⟨init 1, fun _ => false⟩ : Watched Bool)).map (fun w => (w.sem.count, w.sem.pc false)) =
      some (2, .returns .timeout) := by
    decide +kernel
  have hinit : WatchedReachable 1 FindsOrSawZero (⟨init 1, fun _ => false⟩ : Watched Bool) :=
    .init ⟨rfl, fun _ => rfl⟩
  have hcheck : ∀ (w : Watched Bool) (a : Action Bool), WatchedReachable 1 FindsOrSawZero w →
      (decide (WakesSleeper w a) && findsOrSawZero w a) = true →
      WakesSleeper w a ∧ FindsOrSawZero w a := by
    intro w a _ hchecked
    obtain ⟨hwakes, hfinds⟩ := Bool.and_eq_true_iff.mp hchecked
    exact ⟨of_decide_eq_true hwakes, of_findsOrSawZero hfinds⟩
  obtain ⟨w, hreach, hw⟩ := hinit.exists_of_run_guarded hcheck hresult
  obtain ⟨hcount, hfalse⟩ := Prod.mk.inj hw
  exact ⟨w, hreach, hcount, hfalse, (timeoutsSawZero_of_reachable hreach).1 false hfalse⟩

/-- One thread adds a token between the load and the compare-and-swap of the other, which then
reports that there is no token although there always was one. -/
theorem not_timeoutsSawZero_of_post : ¬ ∀ w : Watched Bool,
    WatchedReachable 1 (fun _ _ => True) w → TimeoutsSawZero w := by
  intro h
  let actions : List (Action Bool) :=
    [.tryWait false, .next false false, .post true, .next true false, .next false false]
  have hresult : (Interleaving.run (Interleaving.guarded watchedStep fun w a =>
      decide (WakesSleeper w a)) actions
      (⟨init 1, fun _ => false⟩ : Watched Bool)).map (fun w => (w.sem.pc false, w.zeroSeen false)) =
      some (.returns .timeout, false) := by
    decide +kernel
  have hinit : WatchedReachable 1 (fun _ _ => True) (⟨init 1, fun _ => false⟩ : Watched Bool) :=
    .init ⟨rfl, fun _ => rfl⟩
  obtain ⟨w, hreach, hw⟩ := hinit.exists_of_run_guarded
    (fun _ _ _ hchecked => ⟨of_decide_eq_true hchecked, trivial⟩) hresult
  obtain ⟨hfalse, hunseen⟩ := Prod.mk.inj hw
  have hseen := h w hreach false hfalse
  rw [hunseen] at hseen
  cases hseen

end LgxRuntime.Threading.Semaphore
