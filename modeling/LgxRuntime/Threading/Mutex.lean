import LgxRuntime.Threading.SpscQueue

/-!
# The futex mutex

The word of a mutex is 0 if it is free, 1 if it is held, and 2 if it is held and a thread may sleep.
A thread that finds it held marks it as contended and sleeps as long as the word is 2; what it gets after
a sleep it gets as contended, as there may be others.  `lgx_mutex_unlock` subtracts one; if that was not
from 1 to 0, it stores 0 in a second step and wakes one sleeper in a third one.

`futex_wait` sleeps only if the word is the expected one, and may return at any time; `futex_wake` wakes
one sleeper if there is any.
-/

namespace LgxRuntime.Threading.Mutex

open Function (update update_self update_of_ne)
open Interleaving (apply_update_self update_cases eq_of_update not_update)

/-! ## The threads -/

/-- Where a thread is. -/
inductive Pc
  /-- Outside of the functions of the mutex, and not holding it. -/
  | idle
  /-- `lgx_mutex_lock`, at the compare-and-swap of the fast path. -/
  | lockFast
  /-- At the head of the slow loop, with the word that it has seen. -/
  | mark (expected : ℕ)
  /-- At the call of `futex_wait`. -/
  | wait
  /-- Asleep in `futex_wait`. -/
  | sleeping
  /-- At the compare-and-swap of the slow loop. -/
  | retry
  /-- `lgx_mutex_try_lock`, at its compare-and-swap. -/
  | tryLock
  /-- A call is about to return without the mutex. -/
  | returns (result : ThreadingError)
  /-- Between a successful lock and the call of `lgx_mutex_unlock`. -/
  | holding
  /-- `lgx_mutex_unlock`, at `atomic_fetch_sub`. -/
  | unlock
  /-- At the store of 0. -/
  | unlockStore
  /-- At the call of `futex_wake`. -/
  | unlockWake
  deriving DecidableEq

/-- The mutex with its threads. -/
structure State (Thread : Type) where
  word : ℕ
  pc : Thread → Pc

/-- `lgx_mutex_init`. -/
def init {Thread : Type} : State Thread :=
  { word := 0, pc := fun _ => .idle }

/-- The next atomic step of a thread that does not concern others: the word and its place afterwards. -/
def move (word : ℕ) : Pc → Option (ℕ × Pc)
  | .lockFast => if word = 0 then some (1, .holding) else some (word, .mark word)
  | .mark expected =>
      if expected = 2 then some (word, .wait)
      -- if the word has changed, the thread goes to `futex_wait` all the same
      else if word = expected then some (2, .wait)
      else some (word, .wait)
  -- `futex_wait` compares the word with 2
  | .wait => if word = 2 then some (word, .sleeping) else some (word, .retry)
  | .retry => if word = 0 then some (2, .holding) else some (word, .mark word)
  | .tryLock => if word = 0 then some (1, .holding) else some (word, .returns .timeout)
  | .returns _ => some (word, .idle)
  | .unlock =>
      -- a word of 2 becomes 1, which nobody else takes for a free mutex
      let word' := (word + (2 ^ 32 - 1)) % 2 ^ 32
      if word = 2 then some (word', .unlockStore) else some (word', .idle)
  | .unlockStore => some (0, .unlockWake)
  | _ => none

/-- What happens next: a call, an atomic step, the return of `futex_wait` for no reason, or
`futex_wake`, with the thread that it wakes. -/
inductive Action (Thread : Type)
  | lock (t : Thread)
  | tryLock (t : Thread)
  | unlock (t : Thread)
  | next (t : Thread)
  | spurious (t : Thread)
  | wake (t : Thread) (woken : Option Thread)

variable {Thread : Type} [DecidableEq Thread]

/-- One step. -/
def step (s : State Thread) : Action Thread → Option (State Thread)
  | .lock t => if s.pc t = .idle then some { s with pc := update s.pc t .lockFast } else none
  | .tryLock t => if s.pc t = .idle then some { s with pc := update s.pc t .tryLock } else none
  | .unlock t => if s.pc t = .holding then some { s with pc := update s.pc t .unlock } else none
  | .next t => (move s.word (s.pc t)).map fun result => ⟨result.1, update s.pc t result.2⟩
  | .spurious t => if s.pc t = .sleeping then some { s with pc := update s.pc t .retry } else none
  | .wake t none => if s.pc t = .unlockWake then some { s with pc := update s.pc t .idle } else none
  | .wake t (some u) =>
      if s.pc t = .unlockWake ∧ s.pc u = .sleeping then
        some { s with pc := update (update s.pc t .idle) u .retry }
      else none

/-- `futex_wake` wakes a thread if one sleeps. -/
def Allowed (s : State Thread) : Action Thread → Prop
  | .wake _ none => ∀ u, s.pc u ≠ .sleeping
  | _ => True

/-- The states of the runs of any number of threads. -/
def Reachable : State Thread → Prop :=
  Interleaving.Reachable (fun s => s = init) step Allowed

/-- What an atomic step of one thread does to the word, and where the thread is afterwards. -/
inductive Moved (word : ℕ) : Pc → ℕ → Pc → Prop
  | fast (hzero : word = 0) : Moved word .lockFast 1 .holding
  | contended (hne : word ≠ 0) : Moved word .lockFast word (.mark word)
  | marked : Moved word (.mark word) 2 .wait
  | unmarked (expected : ℕ) : Moved word (.mark expected) word .wait
  | sleeps (hmark : word = 2) : Moved word .wait word .sleeping
  | awake : Moved word .wait word .retry
  | slow (hzero : word = 0) : Moved word .retry 2 .holding
  | again (hne : word ≠ 0) : Moved word .retry word (.mark word)
  | tried (hzero : word = 0) : Moved word .tryLock 1 .holding
  | failed : Moved word .tryLock word (.returns .timeout)
  | returned (result : ThreadingError) : Moved word (.returns result) word .idle
  | unlockMarked (hmark : word = 2) : Moved word .unlock 1 .unlockStore
  | unlocked (hmark : word ≠ 2) : Moved word .unlock ((word + (2 ^ 32 - 1)) % 2 ^ 32) .idle
  | stored : Moved word .unlockStore 0 .unlockWake

theorem moved_of_move {word word' : ℕ} {pc pc' : Pc} (hmove : move word pc = some (word', pc')) :
    Moved word pc word' pc' := by
  cases pc with
  | idle | sleeping | holding | unlockWake => cases hmove
  | lockFast =>
      simp only [move] at hmove
      split at hmove
      · rename_i hzero
        cases hmove
        exact .fast hzero
      · rename_i hne
        cases hmove
        exact .contended hne
  | mark expected =>
      simp only [move] at hmove
      split_ifs at hmove with hmark hword
      · cases hmove
        exact .unmarked expected
      · cases hmove
        subst hword
        exact .marked
      · cases hmove
        exact .unmarked expected
  | wait =>
      simp only [move] at hmove
      split at hmove
      · rename_i hmark
        cases hmove
        exact .sleeps hmark
      · cases hmove
        exact .awake
  | retry =>
      simp only [move] at hmove
      split at hmove
      · rename_i hzero
        cases hmove
        exact .slow hzero
      · rename_i hne
        cases hmove
        exact .again hne
  | tryLock =>
      simp only [move] at hmove
      split at hmove
      · rename_i hzero
        cases hmove
        exact .tried hzero
      · cases hmove
        exact .failed
  | returns result =>
      cases hmove
      exact .returned result
  | unlock =>
      simp only [move] at hmove
      split at hmove
      · rename_i hmark
        obtain ⟨hword, rfl⟩ := Prod.mk.inj (Option.some.inj hmove)
        obtain rfl : word' = 1 := by omega
        exact .unlockMarked hmark
      · rename_i hmark
        obtain ⟨rfl, rfl⟩ := Prod.mk.inj (Option.some.inj hmove)
        exact .unlocked hmark
  | unlockStore =>
      cases hmove
      exact .stored

/-! ## Mutual exclusion -/

/-- A thread between a successful lock and the end of it in `lgx_mutex_unlock`. -/
def Pc.holds : Pc → Bool
  | .holding | .unlock => true
  | _ => false

/-- A thread that holds the mutex, or is about to store 0 in its word. -/
def Pc.owns : Pc → Bool
  | .holding | .unlock | .unlockStore => true
  | _ => false

/-- The word is 0 exactly if there is no owner.  Nobody marks a free mutex. -/
structure Exclusive (word : ℕ) (pc : Thread → Pc) : Prop where
  word_le : word ≤ 2
  owner : word ≠ 0 ↔ ∃ t, (pc t).owns
  unique : ∀ t u, (pc t).owns → (pc u).owns → t = u
  marks : ∀ t expected, pc t = .mark expected → expected ≠ 0

namespace Exclusive

variable {word : ℕ} {pc : Thread → Pc} {t : Thread} {pc' : Pc}

theorem mark_update (h : Exclusive word pc) (hmark : ∀ expected, pc' = .mark expected → expected ≠ 0) :
    ∀ u expected, update pc t pc' u = .mark expected → expected ≠ 0 := by
  intro u expected hu
  rcases update_cases hu with ⟨-, hpc⟩ | ⟨-, hu⟩
  · exact hmark expected hpc
  · exact h.marks u expected hu

/-- A thread moves on without getting or giving up the mutex. -/
theorem stay (h : Exclusive word pc) (howns : pc'.owns = (pc t).owns)
    (hmark : ∀ expected, pc' = .mark expected → expected ≠ 0) {word' : ℕ} (hle : word' ≤ 2)
    (hzero : word' = 0 ↔ word = 0) : Exclusive word' (update pc t pc') := by
  have hkeep : ∀ u, (update pc t pc' u).owns = (pc u).owns := apply_update_self howns
  refine ⟨hle, ?_, ?_, h.mark_update hmark⟩
  · simp only [hkeep, ne_eq, hzero]
    exact h.owner
  · simpa only [hkeep] using h.unique

/-- A thread gets a free mutex. -/
theorem acquire (h : Exclusive 0 pc) (howns : pc'.owns)
    (hmark : ∀ expected, pc' ≠ .mark expected) {word' : ℕ} (hpos : word' ≠ 0) (hle : word' ≤ 2) :
    Exclusive word' (update pc t pc') := by
  -- a free mutex has no owner, so that the thread is the only one
  have hnone : ∀ u, ¬ (pc u).owns := fun u hu => h.owner.mpr ⟨u, hu⟩ rfl
  have hself : ∀ u, (update pc t pc' u).owns → u = t :=
    fun u => eq_of_update (P := fun p => Pc.owns p) fun u _ => hnone u
  refine ⟨hle, ⟨fun _ => ⟨t, by rwa [update_self]⟩, fun _ => hpos⟩, fun u v hu hv => ?_,
    h.mark_update fun expected heq => absurd heq (hmark expected)⟩
  rw [hself u hu, hself v hv]

/-- The owner leaves. -/
theorem release (h : Exclusive word pc) (howner : (pc t).owns) (howns : pc'.owns = false)
    (hmark : ∀ expected, pc' ≠ .mark expected) : Exclusive 0 (update pc t pc') := by
  have hnone : ∀ u, ¬ (update pc t pc' u).owns :=
    not_update (P := fun p => Pc.owns p) (fun u hut hu => hut (h.unique u t hu howner))
      (Bool.not_eq_true _ |>.mpr howns)
  refine ⟨Nat.zero_le _, ⟨fun hne => absurd rfl hne, fun hex => ?_⟩, fun u v hu => absurd hu (hnone u),
    h.mark_update fun expected heq => absurd heq (hmark expected)⟩
  obtain ⟨u, hu⟩ := hex
  exact absurd hu (hnone u)

/-- An atomic step of one thread.  The only owner to change the word is `lgx_mutex_unlock`, and the store
of 0 is still the step of the owner: nobody could get the mutex while the word was 1. -/
theorem next (h : Exclusive word pc) {word' : ℕ} (hmove : move word (pc t) = some (word', pc')) :
    Exclusive word' (update pc t pc') := by
  have hmoved := moved_of_move hmove
  generalize hpc : pc t = place at hmoved
  cases hmoved with
  | fast hzero | tried hzero | slow hzero => exact (hzero ▸ h).acquire rfl (by simp) (by simp) (by simp)
  | contended hne | again hne =>
      refine h.stay (by rw [hpc]; rfl) (fun expected heq => ?_) h.word_le Iff.rfl
      rwa [← Pc.mark.inj heq]
  | marked =>
      have hne := h.marks t word hpc
      exact h.stay (by rw [hpc]; rfl) (by simp) le_rfl (by omega)
  | unmarked | sleeps | awake | failed | returned =>
      exact h.stay (by rw [hpc]; rfl) (by simp) h.word_le Iff.rfl
  | unlockMarked hmark =>
      -- the word is 1 until the store of 0, and the thread keeps it
      exact h.stay (by rw [hpc]; rfl) (by simp) (by omega) (by omega)
  | unlocked hmark =>
      have howner : (pc t).owns := by rw [hpc]; rfl
      have hpos : word ≠ 0 := h.owner.mpr ⟨t, howner⟩
      have hle := h.word_le
      obtain rfl : word = 1 := by omega
      exact h.release howner rfl (by simp)
  | stored =>
      have howner : (pc t).owns := by rw [hpc]; rfl
      exact h.release howner rfl (by simp)

end Exclusive

/-- Every step keeps the mutex exclusive. -/
theorem Exclusive.step {s s' : State Thread} {a : Action Thread} (h : Exclusive s.word s.pc)
    (hstep : step s a = some s') : Exclusive s'.word s'.pc := by
  cases a with
  | next t =>
      obtain ⟨⟨word', pc'⟩, hmove, rfl⟩ := Option.map_eq_some_iff.mp hstep
      exact h.next hmove
  | wake t woken =>
      cases woken with
      | none =>
          obtain ⟨hpc, rfl⟩ := Option.ite_none_right_eq_some.mp hstep |>.imp_right Option.some.inj
          exact h.stay (by rw [hpc]; rfl) (by simp) h.word_le Iff.rfl
      | some u =>
          obtain ⟨⟨hpc, hu⟩, rfl⟩ := Option.ite_none_right_eq_some.mp hstep |>.imp_right Option.some.inj
          have hne : u ≠ t := by
            rintro rfl
            rw [hu] at hpc
            cases hpc
          have hmid : Exclusive s.word (update s.pc t .idle) :=
            h.stay (by rw [hpc]; rfl) (by simp) h.word_le Iff.rfl
          exact hmid.stay (by rw [update_of_ne hne, hu]; rfl) (by simp) h.word_le Iff.rfl
  | lock t | tryLock t | unlock t | spurious t =>
      obtain ⟨hpc, rfl⟩ := Option.ite_none_right_eq_some.mp hstep |>.imp_right Option.some.inj
      exact h.stay (by rw [hpc]; rfl) (by simp) h.word_le Iff.rfl

theorem Reachable.exclusive {s : State Thread} (h : Reachable s) : Exclusive s.word s.pc := by
  apply Interleaving.Reachable.invariant (I := fun s => Exclusive s.word s.pc) h
  · rintro s rfl
    refine ⟨Nat.zero_le _, ⟨fun hne => absurd rfl hne, fun hex => ?_⟩, ?_, ?_⟩
    · obtain ⟨t, ht⟩ := hex
      cases ht
    · intro t u ht
      cases ht
    · intro t expected ht
      cases ht
  · intro s s' a hs _ hstep
    exact hs.step hstep

/-- At most one thread is between a successful `lgx_mutex_lock` or `lgx_mutex_try_lock` and its
`lgx_mutex_unlock`. -/
theorem mutual_exclusion_of_reachable {s : State Thread} (hreach : Reachable s) (t u : Thread)
    (ht : (s.pc t).holds) (hu : (s.pc u).holds) : t = u := by
  have howns : ∀ pc : Pc, pc.holds → pc.owns := by
    intro pc h
    cases pc <;> first | rfl | cases h
  exact hreach.exclusive.unique t u (howns _ ht) (howns _ hu)

/-! ## Wakeups -/

/-- A thread inside of `lgx_mutex_lock` or `lgx_mutex_unlock` that is not asleep. -/
def Pc.executes : Pc → Bool
  | .lockFast | .mark _ | .wait | .retry | .unlock | .unlockStore | .unlockWake => true
  | _ => false

/-- A thread that will mark the mutex as contended, get it as contended, or wake a sleeper. -/
def Pc.attends : Pc → Bool
  | .mark _ | .wait | .retry | .unlockStore | .unlockWake => true
  | _ => false

/-- If a thread sleeps, the mutex is marked as contended, or a thread that is awake attends to it. -/
def Attended (word : ℕ) (pc : Thread → Pc) : Prop :=
  (∃ t, pc t = .sleeping) → word = 2 ∨ ∃ t, (pc t).attends

namespace Attended

variable {word : ℕ} {pc : Thread → Pc} {t : Thread} {pc' : Pc}

/-- The moving thread attends to the sleepers afterwards. -/
theorem of_attends (hattends : pc'.attends) {word' : ℕ} : Attended word' (update pc t pc') :=
  fun _ => Or.inr ⟨t, by rwa [update_self]⟩

/-- The moving thread did not attend to the sleepers, and does not sleep afterwards. -/
theorem stay (h : Attended word pc) (hattends : (pc t).attends = false) (hawake : pc' ≠ .sleeping) :
    Attended word (update pc t pc') := by
  intro hsleeper
  obtain ⟨u, hu⟩ := hsleeper
  obtain ⟨-, hu⟩ := (update_cases hu).resolve_left fun heq => hawake heq.2
  rcases h ⟨u, hu⟩ with hmark | ⟨v, hv⟩
  · exact Or.inl hmark
  · refine Or.inr ⟨v, ?_⟩
    rw [update_of_ne]
    · exact hv
    · rintro rfl
      rw [hattends] at hv
      cases hv

/-- An atomic step of one thread.  Only the owner takes the mark away, at the start of an
`lgx_mutex_unlock` that ends with a wakeup. -/
theorem next (h : Attended word pc) {word' : ℕ}
    (hmove : move word (pc t) = some (word', pc')) : Attended word' (update pc t pc') := by
  have hmoved := moved_of_move hmove
  generalize hpc : pc t = place at hmoved
  cases hmoved with
  | fast hzero | tried hzero =>
      -- the mutex was free: the mark is not what attends to the sleepers
      intro hsleeper
      rcases h.stay (by rw [hpc]; rfl) (by simp) hsleeper with hmark | hattends
      · omega
      · exact Or.inr hattends
  | contended | marked | unmarked | awake | again | unlockMarked | stored => exact of_attends rfl
  | sleeps hmark => exact fun _ => Or.inl hmark
  | slow => exact fun _ => Or.inl rfl
  | failed | returned => exact h.stay (by rw [hpc]; rfl) (by simp)
  | unlocked hne =>
      -- no mark was there, so that another thread attends to the sleepers
      intro hsleeper
      rcases h.stay (by rw [hpc]; rfl) (by simp) hsleeper with hmark | hattends
      · exact absurd hmark hne
      · exact Or.inr hattends

end Attended

/-- Every step that the futex allows leaves the sleepers attended. -/
theorem Attended.step {s s' : State Thread} {a : Action Thread} (h : Attended s.word s.pc)
    (hallowed : Allowed s a) (hstep : step s a = some s') : Attended s'.word s'.pc := by
  cases a with
  | next t =>
      obtain ⟨⟨word', pc'⟩, hmove, rfl⟩ := Option.map_eq_some_iff.mp hstep
      exact h.next hmove
  | wake t woken =>
      cases woken with
      | none =>
          obtain ⟨hpc, rfl⟩ := Option.ite_none_right_eq_some.mp hstep |>.imp_right Option.some.inj
          intro hsleeper
          obtain ⟨u, hu⟩ := hsleeper
          rcases update_cases hu with ⟨-, hidle⟩ | ⟨-, hu⟩
          · cases hidle
          · exact absurd hu (hallowed u)
      | some u =>
          obtain ⟨-, rfl⟩ := Option.ite_none_right_eq_some.mp hstep |>.imp_right Option.some.inj
          exact of_attends rfl
  | spurious t =>
      obtain ⟨-, rfl⟩ := Option.ite_none_right_eq_some.mp hstep |>.imp_right Option.some.inj
      exact of_attends rfl
  | lock t | tryLock t | unlock t =>
      obtain ⟨hpc, rfl⟩ := Option.ite_none_right_eq_some.mp hstep |>.imp_right Option.some.inj
      exact h.stay (by rw [hpc]; rfl) (by simp)

theorem Reachable.attended {s : State Thread} (h : Reachable s) : Attended s.word s.pc := by
  apply Interleaving.Reachable.invariant (I := fun s => Attended s.word s.pc) h
  · rintro s rfl ⟨t, ht⟩
    cases ht
  · intro s s' a hs hallowed hstep
    exact hs.step hallowed hstep

/-- No thread is stranded: if nobody holds the mutex and nobody is in the middle of `lgx_mutex_lock` or
`lgx_mutex_unlock`, nobody sleeps. -/
theorem not_sleeping_of_reachable {s : State Thread} (hreach : Reachable s)
    (hfree : ∀ t, ¬ (s.pc t).holds) (hquiet : ∀ t, ¬ (s.pc t).executes) (t : Thread) :
    s.pc t ≠ .sleeping := by
  intro ht
  rcases hreach.attended ⟨t, ht⟩ with h2 | ⟨u, hu⟩
  -- a marked mutex has an owner, which holds it or is in `lgx_mutex_unlock`
  · obtain ⟨u, hu⟩ := hreach.exclusive.owner.mp (by omega)
    have hfree := hfree u
    -- who attends to the sleepers is in one of the functions
    have hquiet := hquiet u
    cases hpc : s.pc u <;> simp_all [Pc.owns, Pc.holds, Pc.executes]
  · have hquiet := hquiet u
    cases hpc : s.pc u <;> simp_all [Pc.attends, Pc.executes]

/-! ## A contended run -/

/-- One of two threads gets the mutex, and the other one sleeps. -/
def contend : List (Action Bool) :=
  [.lock true, .next true, .lock false, .next false, .next false, .next false]

/-- The owner gives the mutex up and wakes the other thread, which gets it and gives it up. -/
def handOver : List (Action Bool) :=
  [.unlock true, .next true, .next true, .wake true (some false), .next false, .unlock false,
    .next false, .next false, .wake false none]

instance (s : State Bool) : (a : Action Bool) → Decidable (Allowed s a)
  | .wake _ none => inferInstanceAs (Decidable (∀ u, s.pc u ≠ .sleeping))
  | .wake _ (some _) | .lock _ | .tryLock _ | .unlock _ | .next _ | .spurious _ =>
      inferInstanceAs (Decidable True)

theorem mutual_exclusion_after_contention : ∃ s : State Bool, Reachable s ∧ s.word = 2 ∧
    s.pc true = .holding ∧ s.pc false = .sleeping ∧ ∀ t, (s.pc t).holds → t = true := by
  have hresult : (Interleaving.run
      (Interleaving.guarded step fun s a => decide (Allowed s a)) contend init).map
      (fun s => (s.word, s.pc true, s.pc false)) = some (2, .holding, .sleeping) := by
    decide +kernel
  have hinit : Reachable (init : State Bool) := .init rfl
  obtain ⟨s, hreach, hs⟩ :=
    hinit.exists_of_run_guarded (fun _ _ _ h => of_decide_eq_true h) hresult
  obtain ⟨hword, htrue, hfalse⟩ : s.word = 2 ∧ s.pc true = .holding ∧ s.pc false = .sleeping := by
    simpa only [Prod.mk.injEq] using hs
  exact ⟨s, hreach, hword, htrue, hfalse, fun t ht =>
    mutual_exclusion_of_reachable hreach t true ht (by rw [htrue]; rfl)⟩

theorem not_sleeping_after_contention : ∃ s : State Bool, Reachable s ∧ s.word = 0 ∧
    ∀ t, s.pc t ≠ .sleeping := by
  have hresult : (Interleaving.run
      (Interleaving.guarded step fun s a => decide (Allowed s a)) (contend ++ handOver) init).map
      (fun s => (s.word, s.pc true, s.pc false)) = some (0, .idle, .idle) := by
    decide +kernel
  have hinit : Reachable (init : State Bool) := .init rfl
  obtain ⟨s, hreach, hs⟩ :=
    hinit.exists_of_run_guarded (fun _ _ _ h => of_decide_eq_true h) hresult
  obtain ⟨hword, htrue, hfalse⟩ : s.word = 0 ∧ s.pc true = .idle ∧ s.pc false = .idle := by
    simpa only [Prod.mk.injEq] using hs
  have hidle : ∀ t, s.pc t = .idle := by
    intro t
    cases t
    · exact hfalse
    · exact htrue
  exact ⟨s, hreach, hword, not_sleeping_of_reachable hreach
    (fun t => by rw [hidle t]; decide) (fun t => by rw [hidle t]; decide)⟩

end LgxRuntime.Threading.Mutex
