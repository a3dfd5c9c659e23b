import LgxRuntime.Lib.Interleaving
import LgxRuntime.ResourceLimits.Limits
import Mathlib.Algebra.BigOperators.Group.List.Basic

/-!
# The memory limit

A client asks `lgx_resource_limits_check_memory` for a number of bytes, and when the answer is yes it
reports them to `lgx_resource_limits_track_allocation`.  The first call loads the counter and adds in a
machine word, the second one adds to the counter and then raises the peak in a loop.  Between the two calls
of one thread any number of others may run, so the limit holds as long as the sum of the check does not wrap
and the counter has not grown when the bytes are added.
-/

namespace LgxRuntime.ResourceLimits.MemoryCap

open Function (update)
open Interleaving (forall_update)

/-! ## The threads -/

/-- Where a thread is. -/
inductive Pc
  | idle
  /-- `lgx_resource_limits_check_memory`, at the count of a hit. -/
  | hit
  /-- The check has returned true, from a counter of `current`. -/
  | granted (size current : ℕ)
  /-- `lgx_resource_limits_track_allocation`, at the load of the peak. -/
  | peakLoad (newTotal : ℕ)
  /-- At the compare-and-swap, with the peak that it has loaded. -/
  | peakCas (newTotal currentPeak : ℕ)
  deriving DecidableEq

/-- Whether the thread is outside of the calls. -/
def Pc.outside : Pc → Bool
  | .idle | .granted _ _ => true
  | .hit | .peakLoad _ | .peakCas _ _ => false

/-- The limits with the threads, and the sizes that are tracked and not deallocated. -/
structure State (Thread : Type) where
  limits : Limits
  pc : Thread → Pc
  tracked : List ℕ

/-- A call up to its first atomic operation, the next atomic operation, or a client that does not make use
of a check.  A weak compare-and-swap may fail for no reason. -/
inductive Action (Thread : Type)
  | check (t : Thread) (size : ℕ)
  | track (t : Thread) (size : ℕ)
  | dealloc (t : Thread) (size : ℕ)
  | next (t : Thread) (weak : Bool)
  | drop (t : Thread)

variable {Thread : Type} [DecidableEq Thread]

namespace State

/-- A thread moves on. -/
def goto (s : State Thread) (t : Thread) (pc : Pc) : State Thread :=
  { s with pc := update s.pc t pc }

/-- `lgx_resource_limits_check_memory`, up to the comparison. -/
def checkMemory (s : State Thread) (t : Thread) (size : ℕ) : State Thread :=
  let current := s.limits.currentMemoryBytes
  if !s.limits.initialized then s.goto t (.granted size current)
  else
    let newTotal := wrap64 (current + size)
    if newTotal > s.limits.maxMemoryBytes then s.goto t .hit else s.goto t (.granted size current)

/-- `lgx_resource_limits_track_allocation`, up to the addition. -/
def trackAllocation (s : State Thread) (t : Thread) (size : ℕ) : State Thread :=
  if !s.limits.initialized then s.goto t .idle
  else
    let newTotal := wrap64 (s.limits.currentMemoryBytes + size)
    { s.goto t (.peakLoad newTotal) with
      limits := { s.limits with currentMemoryBytes := newTotal }
      tracked := size :: s.tracked }

/-- `lgx_resource_limits_track_deallocation`. -/
def trackDeallocation (s : State Thread) (size : ℕ) : State Thread :=
  if !s.limits.initialized then s
  else
    { s with
      limits := { s.limits with currentMemoryBytes := sub64 s.limits.currentMemoryBytes size }
      tracked := s.tracked.erase size }

/-- The condition of the loop that raises the peak. -/
def raise (s : State Thread) (t : Thread) (newTotal : ℕ) : State Thread :=
  let currentPeak := s.limits.peakMemoryBytes
  if newTotal > currentPeak then s.goto t (.peakCas newTotal currentPeak) else s.goto t .idle

/-- The next atomic operation of a call. -/
def move (s : State Thread) (t : Thread) (weak : Bool) : Pc → Option (State Thread)
  | .hit =>
      some { s.goto t .idle with
        limits := { s.limits with memoryLimitHits := wrap64 (s.limits.memoryLimitHits + 1) } }
  | .peakLoad newTotal => some (s.raise t newTotal)
  | .peakCas newTotal currentPeak =>
      if s.limits.peakMemoryBytes = currentPeak ∧ weak = false then
        some { s.goto t .idle with limits := { s.limits with peakMemoryBytes := newTotal } }
      else some (s.raise t newTotal)
  | .idle | .granted _ _ => none

end State

/-- One step. -/
def step (s : State Thread) : Action Thread → Option (State Thread)
  | .check t size => if s.pc t = .idle then some (s.checkMemory t size) else none
  | .track t size => if (s.pc t).outside then some (s.trackAllocation t size) else none
  | .dealloc t size => if (s.pc t).outside then some (s.trackDeallocation size) else none
  | .next t weak => s.move t weak (s.pc t)
  | .drop t => if (s.pc t).outside then some (s.goto t .idle) else none

/-- The clients: they only track what has been checked, and only give back what is tracked. -/
def Orderly (s : State Thread) : Action Thread → Prop
  | .check _ size => size ≤ sizeMax
  | .track t size => ∃ current, s.pc t = .granted size current
  | .dealloc _ size => size ∈ s.tracked
  | .next _ _ | .drop _ => True

/-- The sum of a check does not wrap, and the counter has not grown between a check and the addition. -/
def Unraced (s : State Thread) : Action Thread → Prop
  | .check _ size => s.limits.currentMemoryBytes + size ≤ sizeMax
  | .track t size => ∀ current, s.pc t = .granted size current → s.limits.currentMemoryBytes ≤ current
  | .dealloc _ _ | .next _ _ | .drop _ => True

/-- Before the first call, after `lgx_resource_limits_init`. -/
def Start (s : State Thread) : Prop :=
  ∃ config now, s = ⟨started config now, fun _ => .idle, []⟩

/-! ## The limit -/

/-- What a thread has been granted does not exceed the limit. -/
def Pc.Fits (limit : ℕ) : Pc → Prop
  | .granted size current => current + size ≤ limit ∧ current + size ≤ sizeMax
  | .idle | .hit | .peakLoad _ | .peakCas _ _ => True

/-- The counter is the sum of the sizes that are tracked, and within the limit. -/
structure Capped (s : State Thread) : Prop where
  initialized : s.limits.initialized = true
  counter : s.limits.currentMemoryBytes = s.tracked.sum
  limit : s.tracked.sum ≤ s.limits.maxMemoryBytes
  word : s.tracked.sum ≤ sizeMax
  granted : ∀ t, (s.pc t).Fits s.limits.maxMemoryBytes

namespace Capped

variable {s s' : State Thread} {t : Thread} {size : ℕ} {pc' : Pc} {weak : Bool}

omit [DecidableEq Thread] in
theorem start (h : Start s) : Capped s := by
  obtain ⟨config, now, rfl⟩ := h
  exact ⟨rfl, rfl, Nat.zero_le _, Nat.zero_le _, fun _ => trivial⟩

theorem goto (h : Capped s) (hfits : pc'.Fits s.limits.maxMemoryBytes) : Capped (s.goto t pc') :=
  ⟨h.initialized, h.counter, h.limit, h.word,
    forall_update (P := fun _ => Pc.Fits _) (Q := fun _ => Pc.Fits _) h.granted (fun _ _ hu => hu) hfits⟩

theorem checkMemory (h : Capped s) (hword : s.limits.currentMemoryBytes + size ≤ sizeMax) :
    Capped (s.checkMemory t size) := by
  have hwrap : wrap64 (s.limits.currentMemoryBytes + size) = s.limits.currentMemoryBytes + size :=
    wrap64_of_lt (by unfold sizeMax at hword; omega)
  simp only [State.checkMemory, h.initialized, Bool.not_true, Bool.false_eq_true, if_false, hwrap]
  split_ifs with hover
  · exact h.goto trivial
  · exact h.goto ⟨not_lt.mp hover, hword⟩

theorem trackAllocation (h : Capped s) {current : ℕ} (hpc : s.pc t = .granted size current)
    (hgrown : s.limits.currentMemoryBytes ≤ current) : Capped (s.trackAllocation t size) := by
  have hfits := h.granted t
  rw [hpc] at hfits
  obtain ⟨hlimit, hword⟩ := hfits
  have hsum : (size :: s.tracked).sum = s.limits.currentMemoryBytes + size := by
    rw [List.sum_cons, h.counter, Nat.add_comm]
  have hwrap : wrap64 (s.limits.currentMemoryBytes + size) = s.limits.currentMemoryBytes + size :=
    wrap64_of_lt (by unfold sizeMax at hword; omega)
  have hgoto : Capped (s.goto t (.peakLoad (wrap64 (s.limits.currentMemoryBytes + size)))) :=
    h.goto trivial
  simp only [State.trackAllocation, h.initialized, Bool.not_true, Bool.false_eq_true, if_false]
  refine ⟨rfl, ?_, ?_, ?_, hgoto.granted⟩
  · exact hwrap.trans hsum.symm
  · show (size :: s.tracked).sum ≤ s.limits.maxMemoryBytes
    omega
  · show (size :: s.tracked).sum ≤ sizeMax
    omega

omit [DecidableEq Thread] in
theorem trackDeallocation (h : Capped s) (hmem : size ∈ s.tracked) : Capped (s.trackDeallocation size) := by
  have hsum := List.sum_erase hmem
  have hcounter := h.counter
  have hlimit := h.limit
  have hword := h.word
  simp only [State.trackDeallocation, h.initialized, Bool.not_true, Bool.false_eq_true, if_false]
  refine ⟨rfl, ?_, ?_, ?_, h.granted⟩
  · show sub64 s.limits.currentMemoryBytes size = (s.tracked.erase size).sum
    rw [sub64_of_le (by unfold sizeMax at hword; omega) (by omega)]
    omega
  · show (s.tracked.erase size).sum ≤ s.limits.maxMemoryBytes
    omega
  · show (s.tracked.erase size).sum ≤ sizeMax
    omega

theorem raise (h : Capped s) (newTotal : ℕ) : Capped (s.raise t newTotal) := by
  simp only [State.raise]
  split_ifs
  · exact h.goto trivial
  · exact h.goto trivial

theorem move (h : Capped s) (hmove : s.move t weak (s.pc t) = some s') : Capped s' := by
  have hidle : Capped (s.goto t .idle) := h.goto trivial
  cases hpc : s.pc t with
  | idle | granted => simp [State.move, hpc] at hmove
  | hit =>
      rw [hpc] at hmove
      obtain rfl := Option.some.inj hmove
      exact ⟨h.initialized, h.counter, h.limit, h.word, hidle.granted⟩
  | peakLoad newTotal =>
      rw [hpc] at hmove
      obtain rfl := Option.some.inj hmove
      exact h.raise newTotal
  | peakCas newTotal currentPeak =>
      rw [hpc, State.move] at hmove
      split_ifs at hmove
      · obtain rfl := Option.some.inj hmove
        exact ⟨h.initialized, h.counter, h.limit, h.word, hidle.granted⟩
      · obtain rfl := Option.some.inj hmove
        exact h.raise newTotal

theorem step {a : Action Thread} (h : Capped s) (horderly : Orderly s a) (hunraced : Unraced s a)
    (hstep : step s a = some s') : Capped s' := by
  cases a with
  | check t size =>
      obtain ⟨-, hstep⟩ := Option.ite_none_right_eq_some.mp hstep
      obtain rfl := Option.some.inj hstep
      exact h.checkMemory hunraced
  | track t size =>
      obtain ⟨-, hstep⟩ := Option.ite_none_right_eq_some.mp hstep
      obtain rfl := Option.some.inj hstep
      obtain ⟨current, hpc⟩ := horderly
      exact h.trackAllocation hpc (hunraced current hpc)
  | dealloc t size =>
      obtain ⟨-, hstep⟩ := Option.ite_none_right_eq_some.mp hstep
      obtain rfl := Option.some.inj hstep
      exact h.trackDeallocation horderly
  | next t weak => exact h.move hstep
  | drop t =>
      obtain ⟨-, hstep⟩ := Option.ite_none_right_eq_some.mp hstep
      obtain rfl := Option.some.inj hstep
      exact h.goto trivial

end Capped

variable {s : State Thread}

/-- If no check wraps and the counter never grows between a check and the addition that follows, then the
limit is kept. -/
theorem tracked_sum_le_maxMemoryBytes
    (h : Interleaving.Reachable Start step (fun s a => Orderly s a ∧ Unraced s a) s) :
    s.tracked.sum ≤ s.limits.maxMemoryBytes := by
  have hcapped : Capped s := h.invariant (fun _ => Capped.start) fun _ _ _ hcapped hallowed hstep =>
    hcapped.step hallowed.1 hallowed.2 hstep
  exact hcapped.limit

/-- A limit of 100 bytes. -/
def hundred : Option Config :=
  some ⟨100, 0, 0, 0, none⟩

/-- Two threads, one after the other. -/
theorem tracked_sum_le_maxMemoryBytes_two :
    ∃ s : State Bool, s.tracked = [30, 60] ∧ s.tracked.sum ≤ s.limits.maxMemoryBytes := by
  have hstart : Interleaving.Reachable Start step (fun (s : State Bool) a => Orderly s a ∧ Unraced s a)
      ⟨started hundred 0, fun _ => .idle, []⟩ := .init ⟨hundred, 0, rfl⟩
  have hfirst := hstart.step (Action.check true 60) ⟨(by decide : 60 ≤ sizeMax), (by decide : 0 + 60 ≤ sizeMax)⟩ rfl
  have hadd := hfirst.step (Action.track true 60)
    ⟨⟨0, rfl⟩, fun current hpc => by cases hpc; exact le_refl 0⟩ rfl
  have hsecond := hadd.step (Action.check false 30) ⟨(by decide : 30 ≤ sizeMax), (by decide : 60 + 30 ≤ sizeMax)⟩ rfl
  have hboth := hsecond.step (Action.track false 30)
    ⟨⟨60, rfl⟩, fun current hpc => by cases hpc; exact le_refl 60⟩ rfl
  exact ⟨_, rfl, tracked_sum_le_maxMemoryBytes hboth⟩

/-- Two threads that check before either of them adds. -/
theorem not_tracked_sum_le_maxMemoryBytes :
    ¬ ∀ s : State Bool, Interleaving.Reachable Start step Orderly s →
      s.tracked.sum ≤ s.limits.maxMemoryBytes := by
  intro hall
  have hstart : Interleaving.Reachable Start step Orderly
      (⟨started hundred 0, fun _ => .idle, []⟩ : State Bool) := .init ⟨hundred, 0, rfl⟩
  have hfirst := hstart.step (Action.check true 60) (by decide : 60 ≤ sizeMax) rfl
  have hsecond := hfirst.step (Action.check false 60) (by decide : 60 ≤ sizeMax) rfl
  have hadd := hsecond.step (Action.track true 60) ⟨0, rfl⟩ rfl
  have hboth := hadd.step (Action.track false 60) ⟨0, rfl⟩ rfl
  exact absurd (hall _ hboth) (by decide)

end LgxRuntime.ResourceLimits.MemoryCap
