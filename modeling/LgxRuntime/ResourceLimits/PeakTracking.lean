import LgxRuntime.Lib.PendingMax
import LgxRuntime.ResourceLimits.MemoryCap

/-!
# The peak of the tracked memory

`lgx_resource_limits_track_allocation` adds to the counter and raises the peak to the sum afterwards, with a
compare-and-swap that it repeats as long as the sum exceeds the peak.  Between the addition and the last
comparison the sum is pending: the peak may be too small, but not when nobody has a sum pending.

`lgx_resource_limits_track_deallocation` subtracts from the counter and leaves the peak alone.  A counter
that goes below zero wraps to a large number, which the peak does not follow.
-/

namespace LgxRuntime.ResourceLimits.PeakTracking

open Function (update)
open Interleaving (comp_update comp_update_self forall_update)
open MemoryCap (State Action Pc Start)
open PendingMax (Covers)

variable {Thread : Type} [DecidableEq Thread]

/-- The sum that a call of `lgx_resource_limits_track_allocation` compares with the peak. -/
def newTotal : Pc → Option ℕ
  | .peakLoad newTotal | .peakCas newTotal _ => some newTotal
  | .idle | .hit | .granted _ _ => none

/-- A compare-and-swap only ever raises the peak that has been loaded. -/
def Rising : Pc → Prop
  | .peakCas newTotal currentPeak => currentPeak < newTotal
  | .idle | .hit | .granted _ _ | .peakLoad _ => True

/-- The limits with the threads, and the largest value of the counter so far. -/
structure Run (Thread : Type) where
  state : State Thread
  largest : ℕ

/-- One step, after which the counter is read. -/
def step (r : Run Thread) (a : Action Thread) : Option (Run Thread) :=
  (MemoryCap.step r.state a).map fun s => ⟨s, max r.largest s.limits.currentMemoryBytes⟩

/-- After `lgx_resource_limits_init`. -/
def Started (r : Run Thread) : Prop :=
  Start r.state ∧ r.largest = r.state.limits.currentMemoryBytes

/-- No call of `lgx_resource_limits_track_allocation` is in progress. -/
def Quiet (r : Run Thread) : Prop :=
  ∀ t, newTotal (r.state.pc t) = none

/-- The total of the tracked bytes stays below `2 ^ 64`. -/
def BelowWord (r : Run Thread) : Action Thread → Prop
  | .track _ size => r.state.limits.currentMemoryBytes + size < 2 ^ 64
  | .check _ _ | .dealloc _ _ | .next _ _ | .drop _ => True

/-- No deallocation takes off more than the counter holds. -/
def Backed (r : Run Thread) : Action Thread → Prop
  | .dealloc _ size => size ≤ r.state.limits.currentMemoryBytes
  | .check _ _ | .track _ _ | .next _ _ | .drop _ => True

/-- The peak is the largest value, but for the sums that are pending. -/
structure Followed (s : State Thread) (largest : ℕ) : Prop where
  initialized : s.limits.initialized = true
  covers : Covers s.limits.peakMemoryBytes largest fun t => newTotal (s.pc t)
  current_le : s.limits.currentMemoryBytes ≤ largest
  current_lt : s.limits.currentMemoryBytes < 2 ^ 64
  rising : ∀ t, Rising (s.pc t)

namespace Followed

variable {s s' : State Thread} {largest sum peak size : ℕ} {t : Thread} {pc' : Pc} {weak : Bool}

omit [DecidableEq Thread] in
theorem start (h : Start s) : Followed s s.limits.currentMemoryBytes := by
  obtain ⟨config, now, rfl⟩ := h
  exact ⟨rfl, .start 0, le_rfl, Nat.two_pow_pos 64, fun _ => trivial⟩

theorem rising_update (h : Followed s largest) (hrising : Rising pc') (u : Thread) :
    Rising (update s.pc t pc' u) :=
  forall_update (P := fun _ => Rising) (Q := fun _ => Rising) h.rising (fun _ _ hu => hu) hrising u

/-- A thread that moves on keeps what it has pending. -/
theorem goto (h : Followed s largest) (hsame : newTotal pc' = newTotal (s.pc t))
    (hrising : Rising pc') : Followed (s.goto t pc') largest := by
  refine ⟨h.initialized, ?_, h.current_le, h.current_lt, h.rising_update hrising⟩
  have hpending : (fun u => newTotal (update s.pc t pc' u)) = fun u => newTotal (s.pc u) :=
    comp_update_self hsame
  show Covers s.limits.peakMemoryBytes largest fun u => newTotal (update s.pc t pc' u)
  rw [hpending]
  exact h.covers

/-- A sum that does not exceed the peak is dropped. -/
theorem settle (h : Followed s largest) (hsum : newTotal (s.pc t) = some sum)
    (hle : sum ≤ s.limits.peakMemoryBytes) : Followed (s.goto t .idle) largest := by
  refine ⟨h.initialized, ?_, h.current_le, h.current_lt, h.rising_update trivial⟩
  show Covers s.limits.peakMemoryBytes largest fun u => newTotal (update s.pc t .idle u)
  rw [comp_update newTotal]
  exact h.covers.drop hsum hle

/-- The peak is raised. -/
theorem write (h : Followed s largest) (hsum : newTotal (s.pc t) = some sum)
    (hle : s.limits.peakMemoryBytes ≤ sum) :
    Followed { s.goto t .idle with limits := { s.limits with peakMemoryBytes := sum } } largest := by
  refine ⟨h.initialized, ?_, h.current_le, h.current_lt, h.rising_update trivial⟩
  show Covers sum largest fun u => newTotal (update s.pc t .idle u)
  rw [comp_update newTotal]
  exact h.covers.write hsum hle

theorem raise (h : Followed s largest) (hsum : newTotal (s.pc t) = some sum) :
    Followed (s.raise t sum) largest := by
  simp only [State.raise]
  split_ifs with hover
  · exact h.goto hsum.symm hover
  · exact h.settle hsum (not_lt.mp hover)

theorem trackAllocation (h : Followed s largest) (hpc : newTotal (s.pc t) = none) (size : ℕ) :
    Followed (s.trackAllocation t size)
      (max largest (s.trackAllocation t size).limits.currentMemoryBytes) := by
  simp only [State.trackAllocation, h.initialized, Bool.not_true, Bool.false_eq_true, if_false]
  refine ⟨rfl, ?_, le_max_right .., Nat.mod_lt _ (Nat.two_pow_pos 64), h.rising_update trivial⟩
  show Covers s.limits.peakMemoryBytes _ fun u => newTotal (update s.pc t (.peakLoad _) u)
  rw [comp_update newTotal]
  exact h.covers.appear hpc _

omit [DecidableEq Thread] in
theorem trackDeallocation (h : Followed s largest) (hsize : size ≤ s.limits.currentMemoryBytes) :
    Followed (s.trackDeallocation size) largest := by
  have hsub : sub64 s.limits.currentMemoryBytes size = s.limits.currentMemoryBytes - size :=
    sub64_of_le h.current_lt hsize
  have hle := h.current_le
  have hlt := h.current_lt
  simp only [State.trackDeallocation, h.initialized, Bool.not_true, Bool.false_eq_true, if_false, hsub]
  refine ⟨rfl, h.covers, ?_, ?_, h.rising⟩
  · exact (Nat.sub_le ..).trans hle
  · exact (Nat.sub_le ..).trans_lt hlt

/-- The next atomic operation of a call. -/
theorem move (h : Followed s largest) (hmove : s.move t weak (s.pc t) = some s') : Followed s' largest := by
  cases hpc : s.pc t with
  | idle | granted => simp [State.move, hpc] at hmove
  | hit =>
      rw [hpc] at hmove
      obtain rfl := Option.some.inj hmove
      have hidle : Followed (s.goto t .idle) largest := h.goto (by rw [hpc]; rfl) trivial
      exact ⟨h.initialized, hidle.covers, h.current_le, h.current_lt, hidle.rising⟩
  | peakLoad sum =>
      rw [hpc] at hmove
      obtain rfl := Option.some.inj hmove
      exact h.raise (by rw [hpc]; rfl)
  | peakCas sum peak =>
      have hsum : newTotal (s.pc t) = some sum := by rw [hpc]; rfl
      have hrising : peak < sum := by simpa only [hpc, Rising] using h.rising t
      rw [hpc, State.move] at hmove
      split_ifs at hmove with hcas
      · obtain rfl := Option.some.inj hmove
        exact h.write hsum (hcas.1.trans_le hrising.le)
      · -- somebody else has raised the peak, or the operation has failed for no reason
        obtain rfl := Option.some.inj hmove
        exact h.raise hsum

omit [DecidableEq Thread] in
/-- A step that leaves the counter alone. -/
theorem keep (h : Followed s' largest) : Followed s' (max largest s'.limits.currentMemoryBytes) := by
  rwa [max_eq_left h.current_le]

end Followed

theorem Followed.step {r r' : Run Thread} {a : Action Thread} (h : Followed r.state r.largest)
    (hbacked : Backed r a) (hstep : step r a = some r') : Followed r'.state r'.largest := by
  obtain ⟨s, hs, rfl⟩ := Option.map_eq_some_iff.mp hstep
  have houtside : ∀ {t}, (r.state.pc t).outside = true → newTotal (r.state.pc t) = none := by
    intro t
    cases r.state.pc t <;> simp [Pc.outside, newTotal]
  cases a with
  | check t size =>
      obtain ⟨hpc, hs⟩ := Option.ite_none_right_eq_some.mp hs
      obtain rfl := Option.some.inj hs
      apply Followed.keep
      simp only [State.checkMemory]
      split_ifs
      · exact h.goto (by rw [hpc]; rfl) trivial
      · exact h.goto (by rw [hpc]; rfl) trivial
      · exact h.goto (by rw [hpc]; rfl) trivial
  | track t size =>
      obtain ⟨hpc, hs⟩ := Option.ite_none_right_eq_some.mp hs
      obtain rfl := Option.some.inj hs
      exact h.trackAllocation (houtside hpc) size
  | dealloc t size =>
      obtain ⟨-, hs⟩ := Option.ite_none_right_eq_some.mp hs
      obtain rfl := Option.some.inj hs
      exact (h.trackDeallocation hbacked).keep
  | next t weak => exact (h.move hs).keep
  | drop t =>
      obtain ⟨hpc, hs⟩ := Option.ite_none_right_eq_some.mp hs
      obtain rfl := Option.some.inj hs
      have hsame : newTotal .idle = newTotal (r.state.pc t) := (houtside hpc).symm
      exact (h.goto hsame trivial).keep

/-- Whatever the threads do, the peak is the largest value that the counter has held, whenever no call of
`lgx_resource_limits_track_allocation` is in progress. -/
theorem peak_eq_largest {r : Run Thread} (h : Interleaving.Reachable Started step Backed r)
    (hquiet : Quiet r) : r.state.limits.peakMemoryBytes = r.largest := by
  have hfollowed : Followed r.state r.largest := by
    apply h.invariant (I := fun r => Followed r.state r.largest)
    · intro r hstarted
      rw [hstarted.2]
      exact .start hstarted.1
    · intro r r' a hfollowed hbacked hstep
      exact hfollowed.step hbacked hstep
  exact hfollowed.covers.eq_of_none hquiet

/-- Before the first call. -/
def fresh : Run Bool :=
  ⟨⟨started none 0, fun _ => .idle, []⟩, 0⟩

/-- Two threads add 60 and 30 bytes before either of them looks at the peak, and 60 bytes are given back. -/
theorem peak_eq_largest_two : ∃ r : Run Bool, Quiet r ∧ r.state.limits.currentMemoryBytes = 30 ∧
    r.state.limits.peakMemoryBytes = 90 ∧ r.state.limits.peakMemoryBytes = r.largest := by
  have hstart : Interleaving.Reachable Started step Backed fresh := .init ⟨⟨none, 0, rfl⟩, rfl⟩
  have hfirst := hstart.step (Action.track true 60) trivial rfl
  have hsecond := hfirst.step (Action.track false 30) trivial rfl
  have hload := hsecond.step (Action.next false false) trivial rfl
  have hraise := hload.step (Action.next false false) trivial rfl
  have hdrop := hraise.step (Action.next true false) trivial rfl
  have hback := hdrop.step (Action.dealloc true 60) (by decide : 60 ≤ 90) rfl
  refine ⟨_, Bool.forall_bool.mpr ⟨rfl, rfl⟩, rfl, rfl, peak_eq_largest hback ?_⟩
  exact Bool.forall_bool.mpr ⟨rfl, rfl⟩

/-- A byte that has not been tracked is given back. -/
theorem not_peak_eq_largest :
    ¬ ∀ r : Run Bool, Interleaving.Reachable Started step BelowWord r → Quiet r →
      r.state.limits.peakMemoryBytes = r.largest := by
  intro hall
  have hstart : Interleaving.Reachable Started step BelowWord fresh := .init ⟨⟨none, 0, rfl⟩, rfl⟩
  have hback := hstart.step (Action.dealloc true 1) trivial rfl
  exact absurd (hall _ hback fun _ => rfl) (by decide)

end LgxRuntime.ResourceLimits.PeakTracking
