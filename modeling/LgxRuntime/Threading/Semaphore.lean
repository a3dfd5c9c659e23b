import LgxRuntime.Lib.Headcount
import LgxRuntime.Threading.SpscQueue

/-!
# The semaphore

The word of a semaphore is the number of its tokens.  `lgx_semaphore_wait` takes a token by a
compare-and-swap, and sleeps as long as the word is 0; `lgx_semaphore_post` adds a token and wakes one
sleeper in a second step.  A thread that is awake may take the token before the one that was woken for it,
which then sleeps again.

`futex_wait` sleeps only if the word is the expected one, and may return at any time; `futex_wake` wakes
one sleeper if there is any.  Tokens that were added or taken, and posts that have returned, are counted in
the state.
-/

namespace LgxRuntime.Threading.Semaphore

open Function (update update_self update_of_ne)
open Interleaving (headcount headcount_stay headcount_enter headcount_leave headcount_eq_zero
  update_cases)

/-! ## The threads -/

/-- Where a thread is. -/
inductive Pc
  | idle
  /-- `lgx_semaphore_wait`, at the load of the word. -/
  | waitLoad
  /-- At the compare-and-swap, with the word that it has loaded. -/
  | waitCas (c : ℕ)
  /-- At the call of `futex_wait`. -/
  | waitFutex
  /-- Asleep in `futex_wait`. -/
  | sleeping
  /-- `lgx_semaphore_try_wait`, at the load of the word. -/
  | tryLoad
  /-- At the compare-and-swap, with the word that it has loaded. -/
  | tryCas (c : ℕ)
  /-- A call is about to return. -/
  | returns (result : ThreadingError)
  /-- `lgx_semaphore_post`, at `atomic_fetch_add`. -/
  | postAdd
  /-- At the call of `futex_wake`. -/
  | postWake
  deriving DecidableEq

/-- The semaphore with its threads, the tokens that were added and taken, and the number of posts that
have returned. -/
structure State (Thread : Type) where
  count : ℕ
  pc : Thread → Pc
  posted : ℕ
  acquired : ℕ
  returned : ℕ

/-- `lgx_semaphore_init`. -/
def init {Thread : Type} (initial : ℕ) : State Thread :=
  { count := initial, pc := fun _ => .idle, posted := 0, acquired := 0, returned := 0 }

/-- A call, an atomic step, the return of `futex_wait` for no reason, or `futex_wake`, with the thread that
it wakes.  A weak compare-and-swap may fail for no reason. -/
inductive Action (Thread : Type)
  | wait (t : Thread)
  | tryWait (t : Thread)
  | post (t : Thread)
  | next (t : Thread) (weak : Bool)
  | spurious (t : Thread)
  | wake (t : Thread) (woken : Option Thread)

variable {Thread : Type} [DecidableEq Thread]

namespace State

/-- A thread moves on. -/
def goto (s : State Thread) (t : Thread) (pc : Pc) : State Thread :=
  { s with pc := update s.pc t pc }

/-- A thread takes a token, from a word of `c`, and moves on. -/
def acquire (s : State Thread) (t : Thread) (c : ℕ) : State Thread :=
  { s.goto t (.returns .success) with count := c - 1, acquired := s.acquired + 1 }

end State

/-- The next atomic step of a thread that does not concern others. -/
def move (s : State Thread) (t : Thread) (weak : Bool) : Pc → Option (State Thread)
  | .waitLoad => some (s.goto t (if s.count > 0 then .waitCas s.count else .waitFutex))
  | .waitCas c =>
      if s.count = c ∧ weak = false then some (s.acquire t c)
      else some (s.goto t .waitLoad)
  -- `futex_wait` compares the word with 0
  | .waitFutex => some (s.goto t (if s.count = 0 then .sleeping else .waitLoad))
  | .tryLoad => some (s.goto t (if s.count > 0 then .tryCas s.count else .returns .timeout))
  | .tryCas c =>
      if s.count = c then some (s.acquire t c)
      else some (s.goto t (.returns .timeout))
  | .returns _ => some (s.goto t .idle)
  | .postAdd =>
      some { s.goto t .postWake with count := (s.count + 1) % 2 ^ 32, posted := s.posted + 1 }
  | .idle | .sleeping | .postWake => none

/-- One step. -/
def step (s : State Thread) : Action Thread → Option (State Thread)
  | .wait t => if s.pc t = .idle then some (s.goto t .waitLoad) else none
  | .tryWait t => if s.pc t = .idle then some (s.goto t .tryLoad) else none
  | .post t => if s.pc t = .idle then some (s.goto t .postAdd) else none
  | .next t weak => move s t weak (s.pc t)
  | .spurious t => if s.pc t = .sleeping then some (s.goto t .waitLoad) else none
  | .wake t none =>
      if s.pc t = .postWake then some { s.goto t .idle with returned := s.returned + 1 } else none
  | .wake t (some u) =>
      if s.pc t = .postWake ∧ s.pc u = .sleeping then
        some { (s.goto t .idle).goto u .waitLoad with returned := s.returned + 1 }
      else none

/-- `futex_wake` wakes a thread if one sleeps, and there are fewer than `2 ^ 32` tokens. -/
def Allowed (s : State Thread) : Action Thread → Prop
  | .wake _ none => ∀ u, s.pc u ≠ .sleeping
  | .next t _ => s.pc t = .postAdd → s.count + 1 < 2 ^ 32
  | _ => True

/-- The states of the runs of any number of threads. -/
def Reachable (initial : ℕ) : State Thread → Prop :=
  Interleaving.Reachable (fun s => s = init initial) step Allowed

/-! ## Tokens -/

/-- A thread that has added a token and not returned from `lgx_semaphore_post`. -/
def Pc.wakes : Pc → Bool
  | .postWake => true
  | _ => false

/-- A thread is only about to take a token if it has seen one. -/
def Pc.Sees : Pc → Prop
  | .waitCas c | .tryCas c => 0 < c
  | _ => True

/-- The word is the number of tokens. -/
structure Counted (initial : ℕ) (s : State Thread) : Prop where
  tokens : s.count + s.acquired = initial + s.posted
  wakes : (s.posted : ℕ∞) = s.returned + headcount Pc.wakes s.pc
  sees : ∀ t, (s.pc t).Sees

namespace Counted

variable {initial : ℕ} {s s' : State Thread} {t : Thread} {pc' : Pc}

theorem sees_update (h : Counted initial s) (hsees : pc'.Sees) (u : Thread) :
    (update s.pc t pc' u).Sees :=
  Interleaving.forall_update (P := fun _ => Pc.Sees) (Q := fun _ => Pc.Sees) h.sees
    (fun _ _ hu => hu) hsees u

/-- A thread moves on. -/
theorem goto (h : Counted initial s) (hwakes : pc'.wakes = (s.pc t).wakes) (hsees : pc'.Sees) :
    Counted initial (s.goto t pc') := by
  refine ⟨h.tokens, ?_, h.sees_update hsees⟩
  rw [State.goto, headcount_stay hwakes]
  exact h.wakes

/-- A thread takes a token. -/
theorem acquire (h : Counted initial s) (hwakes : (s.pc t).wakes = false) (hpos : 0 < s.count) :
    Counted initial (s.acquire t s.count) := by
  have hmoved : Counted initial (s.goto t (.returns .success)) := h.goto hwakes.symm trivial
  obtain ⟨htokens, hwakes', hsees⟩ := hmoved
  refine ⟨?_, hwakes', hsees⟩
  have := h.tokens
  simp only [State.acquire, State.goto]
  omega

/-- A thread adds a token. -/
theorem post (h : Counted initial s) (hpc : s.pc t = .postAdd) (hlt : s.count + 1 < 2 ^ 32) :
    Counted initial
      { s.goto t .postWake with count := (s.count + 1) % 2 ^ 32, posted := s.posted + 1 } := by
  have hwakes : headcount Pc.wakes (update s.pc t .postWake) = headcount Pc.wakes s.pc + 1 :=
    headcount_enter (by rw [hpc]; rfl) rfl
  refine ⟨?_, ?_, h.sees_update trivial⟩
  · have := h.tokens
    simp only [State.goto, Nat.mod_eq_of_lt hlt]
    omega
  · simp only [State.goto, hwakes, Nat.cast_add, h.wakes, Nat.cast_one, add_assoc]

/-- A thread returns from `lgx_semaphore_post`. -/
theorem postReturn (h : Counted initial s) (hpc : s.pc t = .postWake) :
    Counted initial { s.goto t .idle with returned := s.returned + 1 } := by
  have hwakes : headcount Pc.wakes (update s.pc t .idle) + 1 = headcount Pc.wakes s.pc :=
    headcount_leave (by rw [hpc]; rfl) rfl
  refine ⟨h.tokens, ?_, h.sees_update trivial⟩
  simp only [State.goto, h.wakes, ← hwakes, Nat.cast_add, Nat.cast_one]
  rw [add_assoc, add_comm 1]

/-- An atomic step of one thread. -/
theorem next (h : Counted initial s) {weak : Bool} (hallowed : Allowed s (.next t weak))
    (hmove : move s t weak (s.pc t) = some s') : Counted initial s' := by
  have hsees := h.sees t
  cases hpc : s.pc t with
  | idle | sleeping | postWake =>
      rw [hpc] at hmove
      cases hmove
  | waitLoad | tryLoad =>
      rw [hpc] at hmove
      cases hmove
      split
      · rename_i hpos
        exact h.goto (by rw [hpc]; rfl) hpos
      · exact h.goto (by rw [hpc]; rfl) trivial
  | waitFutex =>
      rw [hpc] at hmove
      cases hmove
      split <;> exact h.goto (by rw [hpc]; rfl) trivial
  | waitCas c | tryCas c =>
      rw [hpc] at hmove hsees
      simp only [move] at hmove
      split at hmove
      · rename_i hwon
        cases hmove
        obtain rfl : s.count = c := by tauto
        exact h.acquire (by rw [hpc]; rfl) hsees
      · cases hmove
        exact h.goto (by rw [hpc]; rfl) trivial
  | returns result =>
      rw [hpc] at hmove
      cases hmove
      exact h.goto (by rw [hpc]; rfl) trivial
  | postAdd =>
      rw [hpc] at hmove
      cases hmove
      exact h.post hpc (hallowed hpc)

/-- Every step keeps the number of tokens. -/
theorem step {a : Action Thread} (h : Counted initial s) (hallowed : Allowed s a)
    (hstep : step s a = some s') : Counted initial s' := by
  cases a with
  | next t weak => exact h.next hallowed hstep
  | wake t woken =>
      cases woken with
      | none =>
          obtain ⟨hpc, rfl⟩ := Option.ite_none_right_eq_some.mp hstep |>.imp_right Option.some.inj
          exact h.postReturn hpc
      | some u =>
          obtain ⟨⟨hpc, hu⟩, rfl⟩ := Option.ite_none_right_eq_some.mp hstep |>.imp_right Option.some.inj
          have hne : u ≠ t := by
            rintro rfl
            rw [hu] at hpc
            cases hpc
          refine (h.postReturn hpc).goto ?_ trivial
          simp only [State.goto, update_of_ne hne, hu]
          rfl
  | wait t | tryWait t | post t | spurious t =>
      obtain ⟨hpc, rfl⟩ := Option.ite_none_right_eq_some.mp hstep |>.imp_right Option.some.inj
      exact h.goto (by rw [hpc]; rfl) trivial

end Counted

/-! ## Wakeups -/

/-- A thread in `lgx_semaphore_wait` or `lgx_semaphore_post` that is not asleep. -/
def Pc.executes : Pc → Bool
  | .waitLoad | .waitCas _ | .waitFutex | .postAdd | .postWake => true
  | _ => false

/-- A thread that is going to look for a token, or to wake a sleeper. -/
def Pc.attends : Pc → Bool
  | .waitLoad | .waitCas _ | .waitFutex | .postWake => true
  | _ => false

/-- As long as a thread sleeps, there are no more tokens than threads that attend to them. -/
def Attended (count : ℕ) (pc : Thread → Pc) : Prop :=
  (∃ t, pc t = .sleeping) → (count : ℕ∞) ≤ headcount Pc.attends pc

namespace Attended

variable {count count' : ℕ} {pc : Thread → Pc} {t : Thread} {pc' : Pc}

omit [DecidableEq Thread] in
theorem zero : Attended 0 pc :=
  fun _ => by simp

/-- If nobody else falls asleep, a sleeper was there before. -/
theorem exists_sleeping (hawake : pc' ≠ .sleeping) (h : ∃ u, update pc t pc' u = .sleeping) :
    ∃ u, pc u = .sleeping := by
  obtain ⟨u, hu⟩ := h
  obtain ⟨-, hu⟩ := (update_cases hu).resolve_left fun heq => hawake heq.2
  exact ⟨u, hu⟩

/-- A thread moves on that attends as before. -/
theorem stay (h : Attended count pc) (hawake : pc' ≠ .sleeping) (hattends : pc'.attends = (pc t).attends)
    (hle : count' ≤ count) : Attended count' (update pc t pc') := by
  intro hsleeper
  rw [headcount_stay hattends]
  exact le_trans (by exact_mod_cast hle) (h (exists_sleeping hawake hsleeper))

/-- A thread begins to attend, and has added at most one token. -/
theorem enter (h : Attended count pc) (hawake : pc' ≠ .sleeping) (hold : (pc t).attends = false)
    (hnew : pc'.attends = true) (hle : count' ≤ count + 1) : Attended count' (update pc t pc') := by
  intro hsleeper
  rw [headcount_enter hold hnew]
  calc (count' : ℕ∞) ≤ ((count + 1 : ℕ) : ℕ∞) := by exact_mod_cast hle
    _ = count + 1 := by push_cast; rfl
    _ ≤ headcount Pc.attends pc + 1 := by
      gcongr
      exact h (exists_sleeping hawake hsleeper)

/-- A thread ceases to attend, as it has taken a token. -/
theorem leave (h : Attended (count + 1) pc) (hawake : pc' ≠ .sleeping) (hold : (pc t).attends = true)
    (hnew : pc'.attends = false) : Attended count (update pc t pc') := by
  intro hsleeper
  have hcount := h (exists_sleeping hawake hsleeper)
  rw [← headcount_leave hold hnew, Nat.cast_add, Nat.cast_one] at hcount
  exact (ENat.add_le_add_iff_right ENat.one_ne_top).mp hcount

/-- An atomic step of one thread.  Only a thread that finds no token falls asleep. -/
theorem next {initial : ℕ} {s s' : State Thread} (h : Attended s.count s.pc) (hcounted : Counted initial s)
    {weak : Bool} (hmove : move s t weak (s.pc t) = some s') : Attended s'.count s'.pc := by
  have hsees := hcounted.sees t
  cases hpc : s.pc t with
  | idle | sleeping | postWake =>
      rw [hpc] at hmove
      cases hmove
  | waitLoad | tryLoad =>
      rw [hpc] at hmove
      cases hmove
      split <;> exact h.stay (by simp) (by rw [hpc]; rfl) le_rfl
  | waitFutex =>
      rw [hpc] at hmove
      cases hmove
      split
      · rename_i hzero
        rw [State.goto, hzero]
        exact zero
      · exact h.stay (by simp) (by rw [hpc]; rfl) le_rfl
  | waitCas c =>
      rw [hpc] at hmove hsees
      simp only [move] at hmove
      split at hmove
      · rename_i hwon
        cases hmove
        obtain ⟨rfl, -⟩ := hwon
        obtain ⟨count, hcount⟩ := Nat.exists_eq_add_of_lt hsees
        rw [Nat.zero_add] at hcount
        simp only [State.acquire, State.goto, hcount, Nat.add_sub_cancel]
        exact leave (hcount ▸ h) (by simp) (by rw [hpc]; rfl) rfl
      · cases hmove
        exact h.stay (by simp) (by rw [hpc]; rfl) le_rfl
  | tryCas c =>
      rw [hpc] at hmove
      simp only [move] at hmove
      split at hmove
      · rename_i hwon
        cases hmove
        exact h.stay (by simp) (by rw [hpc]; rfl) (by simp only [State.acquire]; omega)
      · cases hmove
        exact h.stay (by simp) (by rw [hpc]; rfl) le_rfl
  | returns result =>
      rw [hpc] at hmove
      cases hmove
      exact h.stay (by simp) (by rw [hpc]; rfl) le_rfl
  | postAdd =>
      rw [hpc] at hmove
      cases hmove
      exact h.enter (by simp) (by rw [hpc]; rfl) rfl (Nat.mod_le _ _)

/-- Every step that the futex allows leaves the tokens attended. -/
theorem step {initial : ℕ} {s s' : State Thread} {a : Action Thread} (h : Attended s.count s.pc)
    (hcounted : Counted initial s) (hallowed : Allowed s a) (hstep : step s a = some s') :
    Attended s'.count s'.pc := by
  cases a with
  | next t weak => exact h.next hcounted hstep
  | wake t woken =>
      cases woken with
      | none =>
          obtain ⟨-, rfl⟩ := Option.ite_none_right_eq_some.mp hstep |>.imp_right Option.some.inj
          intro hsleeper
          obtain ⟨u, hu⟩ := exists_sleeping (by simp) hsleeper
          exact absurd hu (hallowed u)
      | some u =>
          obtain ⟨⟨hpc, hu⟩, rfl⟩ := Option.ite_none_right_eq_some.mp hstep |>.imp_right Option.some.inj
          have hne : u ≠ t := by
            rintro rfl
            rw [hu] at hpc
            cases hpc
          -- the thread that was woken attends in the place of the one that has woken it
          intro _
          have hleave : headcount Pc.attends (update s.pc t .idle) + 1 = headcount Pc.attends s.pc :=
            headcount_leave (by rw [hpc]; rfl) rfl
          simp only [State.goto]
          rw [headcount_enter (by rw [update_of_ne hne, hu]; rfl) rfl, hleave]
          exact h ⟨u, hu⟩
  | wait t | spurious t =>
      obtain ⟨hpc, rfl⟩ := Option.ite_none_right_eq_some.mp hstep |>.imp_right Option.some.inj
      exact h.enter (by simp) (by rw [hpc]; rfl) rfl (Nat.le_succ _)
  | tryWait t | post t =>
      obtain ⟨hpc, rfl⟩ := Option.ite_none_right_eq_some.mp hstep |>.imp_right Option.some.inj
      exact h.stay (by simp) (by rw [hpc]; rfl) le_rfl

end Attended

theorem Reachable.counted_attended {initial : ℕ} {s : State Thread} (h : Reachable initial s) :
    Counted initial s ∧ Attended s.count s.pc := by
  apply Interleaving.Reachable.invariant (I := fun s => Counted initial s ∧ Attended s.count s.pc) h
  · rintro s rfl
    refine ⟨⟨rfl, ?_, fun t => trivial⟩, ?_⟩
    · rw [headcount_eq_zero.mpr fun _ => rfl]
      rfl
    · rintro ⟨t, ht⟩
      cases ht
  · intro s s' a hs hallowed hstep
    exact ⟨hs.1.step hallowed hstep, hs.2.step hs.1 hallowed hstep⟩

/-- No token is lost, and no sleeper is left alone with a token.  A post adds its token in its first step,
before it returns. -/
structure Sound (initial : ℕ) (s : State Thread) : Prop where
  count_eq : (s.count : ℤ) = initial + s.posted - s.acquired
  posted_eq : (s.posted : ℕ∞) = s.returned + headcount Pc.wakes s.pc
  awake : (∀ t, (s.pc t).executes = false) → 0 < s.count → ∀ t, s.pc t ≠ .sleeping

/-- In every run of a semaphore the word is the number of tokens, and if nobody is in the middle of
`lgx_semaphore_wait` or `lgx_semaphore_post` and there is a token, nobody sleeps. -/
theorem sound_of_reachable {initial : ℕ} {s : State Thread} (hreach : Reachable initial s) :
    Sound initial s := by
  obtain ⟨hcounted, hattended⟩ := hreach.counted_attended
  refine ⟨?_, hcounted.wakes, fun hquiet hpos t ht => ?_⟩
  · have := hcounted.tokens
    omega
  · have hnone : headcount Pc.attends s.pc = 0 := by
      refine headcount_eq_zero.mpr fun u => ?_
      have hu := hquiet u
      cases hpc : s.pc u <;> simp_all [Pc.executes, Pc.attends]
    have hle := hattended ⟨t, ht⟩
    rw [hnone, nonpos_iff_eq_zero, Nat.cast_eq_zero] at hle
    omega

/-! ## A run with a sleeper -/

instance (s : State Bool) : (a : Action Bool) → Decidable (Allowed s a)
  | .wake _ none => inferInstanceAs (Decidable (∀ u, s.pc u ≠ .sleeping))
  | .next t _ => inferInstanceAs (Decidable (s.pc t = .postAdd → s.count + 1 < 2 ^ 32))
  | .wake _ (some _) | .wait _ | .tryWait _ | .post _ | .spurious _ => inferInstanceAs (Decidable True)

/-- One thread sleeps until the other one has posted, takes the token, and a second token is left. -/
theorem sound_after_wakeup : ∃ s : State Bool, Reachable 0 s ∧ s.count = 1 ∧ s.posted = 2 ∧
    s.acquired = 1 ∧ Sound 0 s ∧ ∀ t, s.pc t ≠ .sleeping := by
  let next (t : Bool) : Action Bool := .next t false
  let actions : List (Action Bool) :=
    [.wait false, next false, next false, .post true, next true, .wake true (some false), next false,
      next false, next false, .post true, next true, .wake true none]
  have hresult : (Interleaving.run
      (Interleaving.guarded step fun s a => decide (Allowed s a)) actions (init 0)).map
      (fun s => (s.count, s.posted, s.acquired, s.pc true, s.pc false)) =
      some (1, 2, 1, .idle, .idle) := by
    decide +kernel
  have hinit : Reachable 0 (init 0 : State Bool) := .init rfl
  obtain ⟨s, hreach, hs⟩ :=
    hinit.exists_of_run_guarded (fun _ _ _ h => of_decide_eq_true h) hresult
  obtain ⟨hcount, hposted, hacquired, htrue, hfalse⟩ : s.count = 1 ∧ s.posted = 2 ∧ s.acquired = 1 ∧
      s.pc true = .idle ∧ s.pc false = .idle := by
    simpa only [Prod.mk.injEq] using hs
  have hsound := sound_of_reachable hreach
  refine ⟨s, hreach, hcount, hposted, hacquired, hsound, hsound.awake (fun t => ?_) (by omega)⟩
  cases t
  · rw [hfalse]
    rfl
  · rw [htrue]
    rfl

end LgxRuntime.Threading.Semaphore
