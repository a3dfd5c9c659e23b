import LgxRuntime.Lib.Interleaving
import LgxRuntime.ResourceLimits.Limits
import Mathlib.Data.List.Basic

/-!
# The rate limit

`lgx_resource_limits_check_allocation_rate` reads the clock, loads the start of the window, and if the
window is over it installs its own time as the start of a new one by a compare-and-swap.  The thread that
succeeds clears the counter with a store of its own.  Then every call adds to the counter, and returns true
if the limit is not exceeded.

The limit is kept for each window if a window is only installed while all other calls under way have read
a time of that window, and if no other thread adds to the counter before it is cleared.  Otherwise an
addition is erased, or made on the account of the wrong window.
-/

namespace LgxRuntime.ResourceLimits.RateLimit

open Function (update update_self update_of_ne)
open Interleaving (forall_update eq_of_update not_update)

/-! ## The threads -/

/-- Where a thread is in `lgx_resource_limits_check_allocation_rate`, with the time that it has read. -/
inductive Pc
  | idle
  /-- At the load of the start of the window. -/
  | load (time : ℕ)
  /-- At the compare-and-swap, with the start that it has loaded. -/
  | cas (time lastReset : ℕ)
  /-- At the store that clears the counter. -/
  | store (time : ℕ)
  /-- At the addition to the counter. -/
  | count (time : ℕ)
  /-- At the count of a violation. -/
  | violation
  deriving DecidableEq

/-- The time that a call has read which has not added to the counter yet. -/
def Pc.time : Pc → Option ℕ
  | .idle | .violation => none
  | .load time | .cas time _ | .store time | .count time => some time

/-- The limits with the threads, the clock, the starts of windows that were installed, and the times that
were read by the calls that have returned true. -/
structure State (Thread : Type) where
  limits : Limits
  pc : Thread → Pc
  clock : ℕ
  installed : List ℕ
  granted : List ℕ

/-- A call, up to its reading of the clock, or the next atomic operation. -/
inductive Action (Thread : Type)
  | call (t : Thread) (time : ℕ)
  | next (t : Thread)

variable {Thread : Type} [DecidableEq Thread]

namespace State

/-- A thread moves on. -/
def goto (s : State Thread) (t : Thread) (pc : Pc) : State Thread :=
  { s with pc := update s.pc t pc }

/-- The next atomic operation of a call. -/
def move (s : State Thread) (t : Thread) : Pc → Option (State Thread)
  | .idle => none
  | .load time =>
      let lastReset := s.limits.lastResetTimeNs
      if sub64 time lastReset ≥ rateLimitWindowNs then some (s.goto t (.cas time lastReset))
      else some (s.goto t (.count time))
  | .cas time lastReset =>
      if s.limits.lastResetTimeNs = lastReset then
        some { s.goto t (.store time) with
          limits := { s.limits with lastResetTimeNs := time }
          installed := time :: s.installed }
      else some (s.goto t (.count time))
  | .store time =>
      some { s.goto t (.count time) with limits := { s.limits with allocationCount := 0 } }
  | .count time =>
      let count := wrap64 (s.limits.allocationCount + 1)
      if count > s.limits.maxAllocationsPerSec then
        some { s.goto t .violation with limits := { s.limits with allocationCount := count } }
      else
        some { s.goto t .idle with
          limits := { s.limits with allocationCount := count }
          granted := time :: s.granted }
  | .violation =>
      some { s.goto t .idle with
        limits := { s.limits with rateLimitViolations := wrap64 (s.limits.rateLimitViolations + 1) } }

end State

/-- One step.  A call returns true at once if there are no limits. -/
def step (s : State Thread) : Action Thread → Option (State Thread)
  | .call t time =>
      if s.pc t = .idle then
        if !s.limits.initialized then some { s with granted := time :: s.granted }
        else some { s.goto t (.load time) with clock := time }
      else none
  | .next t => s.move t (s.pc t)

/-- The clock does not go back. -/
def Monotone (s : State Thread) : Action Thread → Prop
  | .call _ time => s.clock ≤ time ∧ time < 2 ^ 64
  | .next _ => True

/-- A window is only installed while the other calls that have not added to the counter have read a time of
it, nobody adds to the counter while another thread is about to clear it, and the counter does not wrap. -/
def Undisturbed (s : State Thread) : Action Thread → Prop
  | .call _ _ => True
  | .next t =>
      (∀ time lastReset, s.pc t = .cas time lastReset → s.limits.lastResetTimeNs = lastReset →
        ∀ u time', u ≠ t → (s.pc u).time = some time' → time ≤ time' ∧ time' < time + rateLimitWindowNs) ∧
      (∀ time, s.pc t = .count time →
        s.limits.allocationCount + 1 < 2 ^ 64 ∧ ∀ u time', s.pc u ≠ .store time')

/-- Before the first call, after `lgx_resource_limits_init`, whose time is the start of the first window. -/
def Start (s : State Thread) : Prop :=
  ∃ config now, now < 2 ^ 64 ∧ s = ⟨started config now, fun _ => .idle, now, [now], []⟩

/-- The calls that have returned true and that read a time of the window from `start`. -/
def inWindow (start : ℕ) (granted : List ℕ) : List ℕ :=
  granted.filter fun time => start ≤ time ∧ time < start + rateLimitWindowNs

/-- No window grants more calls than the limit. -/
def Limited (s : State Thread) : Prop :=
  ∀ start ∈ s.installed, (inWindow start s.granted).length ≤ s.limits.maxAllocationsPerSec

/-! ## The invariant -/

/-- The calls that have returned true and read a time of the current window, or of a later one. -/
def since (start : ℕ) (granted : List ℕ) : List ℕ :=
  granted.filter fun time => start ≤ time

/-- A thread is where it may be while the window from `start` is the current one. -/
def Pc.Fits (start : ℕ) : Pc → Prop
  | .idle | .load _ | .violation => True
  | .cas time lastReset => lastReset + rateLimitWindowNs ≤ time ∧
      (lastReset = start ∨ time < start + rateLimitWindowNs)
  | .store time => time = start
  | .count time => time < start + rateLimitWindowNs

/-- The calls under way belong to the current window, the counter counts it unless it is about to be
cleared, and the windows before it are over. -/
structure Windowed (s : State Thread) : Prop where
  initialized : s.limits.initialized = true
  clock : s.limits.lastResetTimeNs ≤ s.clock ∧ s.clock < 2 ^ 64
  underway : ∀ t time, (s.pc t).time = some time → s.limits.lastResetTimeNs ≤ time ∧ time ≤ s.clock
  fits : ∀ t, (s.pc t).Fits s.limits.lastResetTimeNs
  clearing : ∀ t u time time', s.pc t = .store time → s.pc u = .store time' → t = u
  granted : ∀ time ∈ s.granted, time < s.limits.lastResetTimeNs + rateLimitWindowNs
  cleared : (∃ t time, s.pc t = .store time) → since s.limits.lastResetTimeNs s.granted = []
  counted : (∀ t time, s.pc t ≠ .store time) →
    (since s.limits.lastResetTimeNs s.granted).length ≤
      min s.limits.allocationCount s.limits.maxAllocationsPerSec
  installed : ∀ start ∈ s.installed,
    start = s.limits.lastResetTimeNs ∨ start + rateLimitWindowNs ≤ s.limits.lastResetTimeNs
  past : ∀ start ∈ s.installed, start ≠ s.limits.lastResetTimeNs →
    (inWindow start s.granted).length ≤ s.limits.maxAllocationsPerSec

namespace Windowed

variable {s s' : State Thread} {t : Thread} {time lastReset start : ℕ} {pc' : Pc}

omit [DecidableEq Thread] in
theorem start_of (h : Start s) : Windowed s := by
  obtain ⟨config, now, hnow, rfl⟩ := h
  exact ⟨rfl, ⟨le_refl _, hnow⟩, by simp [Pc.time], fun _ => trivial, by simp, by simp, by simp,
    fun _ => Nat.zero_le _, fun start hstart => Or.inl (List.mem_singleton.mp hstart),
    fun start hstart hne => absurd (List.mem_singleton.mp hstart) hne⟩

/-- A thread moves on that neither was about to clear the counter nor is so now. -/
theorem goto (h : Windowed s) (hold : ∀ time, s.pc t ≠ .store time) (hnew : ∀ time, pc' ≠ .store time)
    (htime : ∀ time, pc'.time = some time → s.limits.lastResetTimeNs ≤ time ∧ time ≤ s.clock)
    (hfits : pc'.Fits s.limits.lastResetTimeNs) : Windowed (s.goto t pc') := by
  have hstore : ∀ u time, (s.goto t pc').pc u = .store time ↔ s.pc u = .store time :=
    fun u time => Interleaving.apply_update_iff (f := id) (hold time) (hnew time) u
  refine ⟨h.initialized, h.clock, ?_, ?_, fun u v time time' hu hv => ?_, h.granted, fun hclear => ?_,
    fun hnone => ?_, h.installed, h.past⟩
  · exact forall_update
      (P := fun _ p => ∀ time, Pc.time p = some time → s.limits.lastResetTimeNs ≤ time ∧ time ≤ s.clock)
      (Q := fun _ p => ∀ time, Pc.time p = some time → s.limits.lastResetTimeNs ≤ time ∧ time ≤ s.clock)
      h.underway (fun _ _ hu => hu) htime
  · exact forall_update (P := fun _ => Pc.Fits _) (Q := fun _ => Pc.Fits _) h.fits (fun _ _ hu => hu) hfits
  · exact h.clearing u v time time' ((hstore u time).mp hu) ((hstore v time').mp hv)
  · obtain ⟨u, time, hu⟩ := hclear
    exact h.cleared ⟨u, time, (hstore u time).mp hu⟩
  · exact h.counted fun u time hu => hnone u time ((hstore u time).mpr hu)

omit [DecidableEq Thread] in
/-- The calls of the current window that have returned true, whether or not the counter is about to be
cleared. -/
theorem since_length_le (h : Windowed s) :
    (since s.limits.lastResetTimeNs s.granted).length ≤ s.limits.maxAllocationsPerSec := by
  by_cases hclear : ∃ t time, s.pc t = .store time
  · rw [h.cleared hclear]
    exact Nat.zero_le _
  · refine (h.counted fun t time ht => hclear ⟨t, time, ht⟩).trans (min_le_right _ _)

theorem inWindow_length_le_since (start : ℕ) (granted : List ℕ) :
    (inWindow start granted).length ≤ (since start granted).length := by
  refine (List.monotone_filter_right granted fun time htime => ?_).length_le
  simp only [decide_eq_true_eq] at htime ⊢
  exact htime.1

omit [DecidableEq Thread] in
theorem limited (h : Windowed s) : Limited s := by
  intro start hstart
  by_cases hcurrent : start = s.limits.lastResetTimeNs
  · rw [hcurrent]
    exact (inWindow_length_le_since _ _).trans h.since_length_le
  · exact h.past start hstart hcurrent

theorem call (h : Windowed s) (hidle : s.pc t = .idle) (hclock : s.clock ≤ time) (htime : time < 2 ^ 64) :
    Windowed { s.goto t (.load time) with clock := time } := by
  have hlater : Windowed { s with clock := time } := by
    refine ⟨h.initialized, ⟨h.clock.1.trans hclock, htime⟩, fun u time' hu => ?_, h.fits, h.clearing,
      h.granted, h.cleared, h.counted, h.installed, h.past⟩
    obtain ⟨hlow, hhigh⟩ := h.underway u time' hu
    exact ⟨hlow, hhigh.trans hclock⟩
  refine hlater.goto (fun time' hpc => ?_) (fun _ hpc => by cases hpc) (fun time' hsome => ?_) trivial
  · rw [show s.pc t = .store time' from hpc] at hidle
    cases hidle
  · obtain rfl : time = time' := Option.some.inj hsome
    exact ⟨h.clock.1.trans hclock, le_refl _⟩

/-- The start of the window is not in the future, so the difference of the words is the time since then. -/
theorem load (h : Windowed s) (hpc : s.pc t = .load time) (hmove : s.move t (.load time) = some s') :
    Windowed s' := by
  have hstore : ∀ time', s.pc t ≠ .store time' := fun time' hne => by simp [hpc] at hne
  have hunder := h.underway t time (by rw [hpc]; rfl)
  have hsub : sub64 time s.limits.lastResetTimeNs = time - s.limits.lastResetTimeNs :=
    sub64_of_le (lt_of_le_of_lt hunder.2 h.clock.2) hunder.1
  simp only [State.move, hsub] at hmove
  split_ifs at hmove with hover
  · obtain rfl := Option.some.inj hmove
    refine h.goto hstore (fun _ hne => by cases hne) (fun time' hsome => ?_) ⟨?_, Or.inl rfl⟩
    · obtain rfl : time = time' := Option.some.inj hsome
      exact hunder
    · unfold rateLimitWindowNs at *
      omega
  · obtain rfl := Option.some.inj hmove
    refine h.goto hstore (fun _ hne => by cases hne) (fun time' hsome => ?_) ?_
    · obtain rfl : time = time' := Option.some.inj hsome
      exact hunder
    · show time < s.limits.lastResetTimeNs + rateLimitWindowNs
      omega

/-- Another thread has installed a window since the load. -/
theorem cas_failure (h : Windowed s) (hpc : s.pc t = .cas time lastReset)
    (hlast : s.limits.lastResetTimeNs ≠ lastReset) : Windowed (s.goto t (.count time)) := by
  have hfits := h.fits t
  rw [hpc] at hfits
  refine h.goto (fun time' hne => by simp [hpc] at hne) (fun _ hne => by cases hne) (fun time' hsome => ?_) ?_
  · obtain rfl : time = time' := Option.some.inj hsome
    exact h.underway t time (by rw [hpc]; rfl)
  · exact hfits.2.resolve_left (Ne.symm hlast)

section

variable (h : Windowed s) (hpc : s.pc t = .cas time s.limits.lastResetTimeNs)
include h hpc

omit [DecidableEq Thread] in
theorem over_of_cas : s.limits.lastResetTimeNs + rateLimitWindowNs ≤ time := by
  have hfits := h.fits t
  rw [hpc] at hfits
  exact hfits.1

variable (hothers : ∀ u time', u ≠ t → (s.pc u).time = some time' →
  time ≤ time' ∧ time' < time + rateLimitWindowNs)
include hothers

omit [DecidableEq Thread] in
/-- A thread that is about to clear the counter would have the time of the old window. -/
theorem ne_store_of_cas (u : Thread) (time' : ℕ) : s.pc u ≠ .store time' := by
  intro hu
  have hover := h.over_of_cas hpc
  have hwindow : 0 < rateLimitWindowNs := by decide
  have hut : u ≠ t := by
    rintro rfl
    rw [hpc] at hu
    cases hu
  have hstart := h.fits u
  rw [hu] at hstart
  have hlater := (hothers u time' hut (by rw [hu]; rfl)).1
  simp only [Pc.Fits] at hstart
  omega

omit [DecidableEq Thread] in
/-- The other threads fit the new window. -/
theorem fits_of_cas {u : Thread} (hut : u ≠ t) : (s.pc u).Fits time := by
  have hbefore := h.fits u
  cases hu : s.pc u with
  | idle | load | violation => trivial
  | cas time' lastReset' =>
      rw [hu] at hbefore
      exact ⟨hbefore.1, Or.inr (hothers u time' hut (by rw [hu]; rfl)).2⟩
  | store time' => exact absurd hu (h.ne_store_of_cas hpc hothers u time')
  | count time' => exact (hothers u time' hut (by rw [hu]; rfl)).2

/-- A new window is installed, and the one before it is over. -/
theorem cas_success :
    Windowed { s.goto t (.store time) with
      limits := { s.limits with lastResetTimeNs := time }
      installed := time :: s.installed } := by
  have hover := h.over_of_cas hpc
  have hunder := h.underway t time (by rw [hpc]; rfl)
  have hwindow : 0 < rateLimitWindowNs := by decide
  have honly : ∀ u time', update s.pc t (.store time) u = .store time' → u = t := fun u time' =>
    eq_of_update (P := fun p => p = Pc.store time') fun u _ => h.ne_store_of_cas hpc hothers u time'
  refine ⟨h.initialized, ⟨hunder.2, h.clock.2⟩, fun u time' hu => ?_, fun u => ?_,
    fun u v time' time'' hu hv => (honly u time' hu).trans (honly v time'' hv).symm,
    fun time' hgranted => ?_, fun _ => ?_, fun hnone => ?_, fun start hstart => ?_,
    fun start hstart hne => ?_⟩
  · by_cases hut : u = t
    · subst hut
      simp only [State.goto, update_self, Pc.time, Option.some.injEq] at hu
      exact hu ▸ ⟨le_refl _, hunder.2⟩
    · simp only [State.goto, update_of_ne hut] at hu
      exact ⟨(hothers u time' hut hu).1, (h.underway u time' hu).2⟩
  · by_cases hut : u = t
    · subst hut
      simp [State.goto, Pc.Fits]
    · simp only [State.goto, update_of_ne hut]
      exact h.fits_of_cas hpc hothers hut
  · exact (h.granted time' hgranted).trans (by show _ < time + rateLimitWindowNs; omega)
  · refine List.filter_eq_nil_iff.mpr fun time' hgranted => ?_
    have hbefore := h.granted time' hgranted
    simp only [decide_eq_true_eq]
    omega
  · have hself : update s.pc t (.store time) t = .store time := update_self ..
    exact absurd hself (hnone t time)
  · rcases List.mem_cons.mp hstart with rfl | hstart
    · exact Or.inl rfl
    · refine Or.inr ?_
      show start + rateLimitWindowNs ≤ time
      rcases h.installed start hstart with rfl | hbefore
      · exact hover
      · omega
  · have hstart' : start ∈ s.installed := (List.mem_cons.mp hstart).resolve_left hne
    by_cases hcurrent : start = s.limits.lastResetTimeNs
    · rw [hcurrent]
      exact (inWindow_length_le_since _ _).trans h.since_length_le
    · exact h.past start hstart' hcurrent

end

/-- The counter is cleared, and no call of the window has been counted. -/
theorem store (h : Windowed s) (hpc : s.pc t = .store time) :
    Windowed { s.goto t (.count time) with limits := { s.limits with allocationCount := 0 } } := by
  have hstart := h.fits t
  rw [hpc] at hstart
  have hwindow : 0 < rateLimitWindowNs := by decide
  have hnone : ∀ u time', update s.pc t (.count time) u ≠ .store time' := fun u time' =>
    not_update (P := fun p => p = Pc.store time') (fun u hut hu => hut (h.clearing u t time' time hu hpc))
      (fun hcount => by cases hcount) u
  refine ⟨h.initialized, h.clock, ?_, ?_, fun u v time' time'' hu _ => absurd hu (hnone u time'), h.granted,
    fun hclear => ?_, fun _ => ?_, h.installed, h.past⟩
  · refine forall_update
      (P := fun _ p => ∀ time, Pc.time p = some time → s.limits.lastResetTimeNs ≤ time ∧ time ≤ s.clock)
      (Q := fun _ p => ∀ time, Pc.time p = some time → s.limits.lastResetTimeNs ≤ time ∧ time ≤ s.clock)
      h.underway (fun _ _ hu => hu) fun time' hsome => ?_
    obtain rfl : time = time' := Option.some.inj hsome
    exact h.underway t time (by rw [hpc]; rfl)
  · refine forall_update (P := fun _ => Pc.Fits _) (Q := fun _ => Pc.Fits _) h.fits (fun _ _ hu => hu) ?_
    simp only [Pc.Fits] at hstart ⊢
    omega
  · obtain ⟨u, time', hu⟩ := hclear
    exact absurd hu (hnone u time')
  · show (since s.limits.lastResetTimeNs s.granted).length ≤ min 0 _
    rw [h.cleared ⟨t, time, hpc⟩]
    exact Nat.zero_le _

/-- A call is counted in the window that its time belongs to. -/
theorem count (h : Windowed s) (hpc : s.pc t = .count time)
    (hword : s.limits.allocationCount + 1 < 2 ^ 64) (hstore : ∀ u time', s.pc u ≠ .store time')
    (hmove : s.move t (.count time) = some s') : Windowed s' := by
  have hin := h.fits t
  rw [hpc] at hin
  have hunder := h.underway t time (by rw [hpc]; rfl)
  have hcounted := h.counted hstore
  simp only [State.move, wrap64_of_lt hword] at hmove
  split_ifs at hmove with hover
  · obtain rfl := Option.some.inj hmove
    have hgoto : Windowed (s.goto t .violation) :=
      h.goto (hstore t) (fun _ hne => by cases hne) (fun _ hsome => by cases hsome) trivial
    refine ⟨h.initialized, h.clock, hgoto.underway, hgoto.fits, hgoto.clearing, h.granted, hgoto.cleared,
      fun _ => ?_, h.installed, h.past⟩
    show (since s.limits.lastResetTimeNs s.granted).length ≤
      min (s.limits.allocationCount + 1) s.limits.maxAllocationsPerSec
    omega
  · obtain rfl := Option.some.inj hmove
    have hgoto : Windowed (s.goto t .idle) :=
      h.goto (hstore t) (fun _ hne => by cases hne) (fun _ hsome => by cases hsome) trivial
    refine ⟨h.initialized, h.clock, hgoto.underway, hgoto.fits, hgoto.clearing, fun time' hgranted => ?_,
      fun hclear => ?_, fun _ => ?_, h.installed, fun start hstart hne => ?_⟩
    · rcases List.mem_cons.mp hgranted with rfl | hgranted
      · exact hin
      · exact h.granted time' hgranted
    · obtain ⟨u, time', hu⟩ := hclear
      by_cases hut : u = t
      · simp [State.goto, hut] at hu
      · simp only [State.goto, update_of_ne hut] at hu
        exact absurd hu (hstore u time')
    · show (since s.limits.lastResetTimeNs (time :: s.granted)).length ≤
        min (s.limits.allocationCount + 1) s.limits.maxAllocationsPerSec
      rw [since, List.filter_cons_of_pos (by simpa using hunder.1), List.length_cons]
      unfold since at hcounted
      omega
    · show (inWindow start (time :: s.granted)).length ≤ s.limits.maxAllocationsPerSec
      have hbefore := (h.installed start hstart).resolve_left hne
      rw [inWindow, List.filter_cons_of_neg]
      · exact h.past start hstart hne
      · simp only [decide_eq_true_eq]
        omega

theorem violation (h : Windowed s) (hpc : s.pc t = .violation) (violations : ℕ) :
    Windowed { s.goto t .idle with limits := { s.limits with rateLimitViolations := violations } } := by
  have hgoto : Windowed (s.goto t .idle) :=
    h.goto (fun _ hne => by simp [hpc] at hne) (fun _ hne => by cases hne) (fun _ hsome => by cases hsome)
      trivial
  exact ⟨h.initialized, h.clock, hgoto.underway, hgoto.fits, hgoto.clearing, h.granted, hgoto.cleared,
    hgoto.counted, h.installed, h.past⟩

theorem step {a : Action Thread} (h : Windowed s) (hmonotone : Monotone s a)
    (hundisturbed : Undisturbed s a) (hstep : step s a = some s') : Windowed s' := by
  cases a with
  | call t time =>
      obtain ⟨hidle, hstep⟩ := Option.ite_none_right_eq_some.mp hstep
      rw [h.initialized] at hstep
      obtain rfl := Option.some.inj hstep
      exact h.call hidle hmonotone.1 hmonotone.2
  | next t =>
      obtain ⟨hcas, hcount⟩ := hundisturbed
      simp only [RateLimit.step] at hstep
      cases hpc : s.pc t with
      | idle => simp [hpc, State.move] at hstep
      | load time =>
          rw [hpc] at hstep
          exact h.load hpc hstep
      | cas time lastReset =>
          rw [hpc, State.move] at hstep
          split_ifs at hstep with hlast
          · obtain rfl := Option.some.inj hstep
            have hothers := hcas time lastReset hpc hlast
            rw [← hlast] at hpc
            exact h.cas_success hpc hothers
          · obtain rfl := Option.some.inj hstep
            exact h.cas_failure hpc hlast
      | store time =>
          rw [hpc] at hstep
          obtain rfl := Option.some.inj hstep
          exact h.store hpc
      | count time =>
          rw [hpc] at hstep
          exact h.count hpc (hcount time hpc).1 (hcount time hpc).2 hstep
      | violation =>
          rw [hpc] at hstep
          obtain rfl := Option.some.inj hstep
          exact h.violation hpc _

end Windowed

variable {s : State Thread}

/-- No window grants more calls than the limit, if its installation is not disturbed. -/
theorem limited_of_undisturbed
    (h : Interleaving.Reachable Start step (fun s a => Monotone s a ∧ Undisturbed s a) s) : Limited s := by
  have hwindowed : Windowed s := h.invariant (fun _ => Windowed.start_of) fun _ _ _ hwindowed hallowed hstep =>
    hwindowed.step hallowed.1 hallowed.2 hstep
  exact hwindowed.limited

/-- One call in each window. -/
def single : Option Config :=
  some ⟨0, 0, 0, 1, none⟩

/-- A thread installs a window, clears the counter and is counted, and then another one calls. -/
theorem limited_of_undisturbed_two :
    ∃ s : State Bool, s.installed = [rateLimitWindowNs, 0] ∧ s.granted = [rateLimitWindowNs] ∧ Limited s := by
  have hstart : Interleaving.Reachable Start step (fun (s : State Bool) a => Monotone s a ∧ Undisturbed s a)
      ⟨started single 0, fun _ => .idle, 0, [0], []⟩ := .init ⟨single, 0, by decide, rfl⟩
  have hcall := hstart.step (Action.call true rateLimitWindowNs)
    ⟨⟨by decide, by decide⟩, trivial⟩ rfl
  have hload := hcall.step (Action.next true)
    ⟨trivial, fun _ _ hpc => (by cases hpc), fun _ hpc => (by cases hpc)⟩ rfl
  have hcas := hload.step (Action.next true)
    ⟨trivial, fun _ _ _ _ u time' hut hu => (by cases u with
      | false => cases hu
      | true => exact absurd rfl hut), fun _ hpc => (by cases hpc)⟩ rfl
  have hclear := hcas.step (Action.next true)
    ⟨trivial, fun _ _ hpc => (by cases hpc), fun _ hpc => (by cases hpc)⟩ rfl
  have hcount := hclear.step (Action.next true)
    ⟨trivial, fun _ _ hpc => (by cases hpc), fun _ _ => ⟨by decide, fun u time' hu => (by cases u with
      | false => cases hu
      | true => cases hu)⟩⟩ rfl
  have hother := hcount.step (Action.call false (rateLimitWindowNs + 5))
    ⟨⟨by decide, by decide⟩, trivial⟩ rfl
  exact ⟨_, rfl, rfl, limited_of_undisturbed hother⟩

/-- A thread is counted between the compare-and-swap and the store of another one, which erases it. -/
theorem not_limited :
    ¬ ∀ s : State Bool, Interleaving.Reachable Start step Monotone s → Limited s := by
  intro hall
  have hstart : Interleaving.Reachable Start step Monotone
      (⟨started single 0, fun _ => .idle, 0, [0], []⟩ : State Bool) := .init ⟨single, 0, by decide, rfl⟩
  have hcall := hstart.step (Action.call true rateLimitWindowNs) ⟨by decide, by decide⟩ rfl
  have hload := hcall.step (Action.next true) trivial rfl
  have hcas := hload.step (Action.next true) trivial rfl
  -- the other thread
  have hcall' := hcas.step (Action.call false rateLimitWindowNs) ⟨by decide, by decide⟩ rfl
  have hload' := hcall'.step (Action.next false) trivial rfl
  have hcount' := hload'.step (Action.next false) trivial rfl
  -- the first one again
  have hclear := hcount'.step (Action.next true) trivial rfl
  have hcount := hclear.step (Action.next true) trivial rfl
  have htwo := hall _ hcount rateLimitWindowNs (List.mem_cons_self ..)
  exact absurd htwo (by decide)

end LgxRuntime.ResourceLimits.RateLimit
