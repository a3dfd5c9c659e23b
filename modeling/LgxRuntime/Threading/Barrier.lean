import LgxRuntime.Lib.Headcount
import Mathlib.Data.ENat.Basic

/-!
# The barrier

A thread that calls `lgx_barrier_wait` saves the generation, counts itself in, and spins until the
generation is another one.  The last thread of a round sets the count back to 0 and advances the generation
in a second step.  A fast thread may be in the next round while a slow one still spins in this one, but no
further: the generation is advanced at most once as long as a thread has not left, so that it does not come
back to the saved one even when it wraps.

The number of calls that a thread has started and returned from, and the number of times that the
generation was advanced, are counted in the state.
-/

namespace LgxRuntime.Threading.Barrier

open Function (update update_self update_of_ne)
open Interleaving (headcount headcount_stay headcount_enter headcount_eq_zero forall_of_headcount
  forall_update)

/-! ## The threads -/

/-- Where a thread is. -/
inductive Pc
  | idle
  /-- `lgx_barrier_wait`, at the load of the generation. -/
  | load
  /-- At `atomic_fetch_add` on the count, with the generation that it has saved. -/
  | arrive (gen : ℕ)
  /-- The last thread, at the store of 0 to the count. -/
  | reset
  /-- The last thread, at `atomic_fetch_add` on the generation. -/
  | advance
  /-- At the load of the generation in the loop. -/
  | spin (gen : ℕ)
  deriving DecidableEq

/-- A thread, with the number of calls of `lgx_barrier_wait` that it has started and returned from. -/
structure Local where
  pc : Pc
  started : ℕ
  returned : ℕ

/-- `struct lgx_barrier_s` with its threads, and the number of times that the generation was advanced. -/
structure State (Thread : Type) where
  threshold : ℕ
  count : ℕ
  generation : ℕ
  advanced : ℕ
  threads : Thread → Local

/-- `lgx_barrier_create` of a count that is not 0. -/
def create {Thread : Type} (count : ℕ) : State Thread :=
  { threshold := count, count := 0, generation := 0, advanced := 0, threads := fun _ => ⟨.idle, 0, 0⟩ }

/-- A call, or the next step of a thread. -/
inductive Action (Thread : Type)
  | wait (t : Thread)
  | next (t : Thread)

variable {Thread : Type} [DecidableEq Thread]

/-- A thread moves on. -/
def State.goto (s : State Thread) (t : Thread) (pc : Pc) : State Thread :=
  { s with threads := update s.threads t { s.threads t with pc := pc } }

/-- A thread returns from `lgx_barrier_wait`. -/
def State.return (s : State Thread) (t : Thread) : State Thread :=
  { s with
    threads := update s.threads t { s.threads t with pc := .idle, returned := (s.threads t).returned + 1 } }

/-- The next step of a thread. -/
def move (s : State Thread) (t : Thread) : Pc → Option (State Thread)
  | .load => some (s.goto t (.arrive s.generation))
  | .arrive gen =>
      let arrived := (s.count + 1) % 2 ^ 32
      some { s.goto t (if arrived = s.threshold then .reset else .spin gen) with count := arrived }
  | .reset => some { s.goto t .advance with count := 0 }
  | .advance =>
      some { s.return t with generation := (s.generation + 1) % 2 ^ 32, advanced := s.advanced + 1 }
  | .spin gen => if s.generation = gen then some s else some (s.return t)
  | .idle => none

/-- One step. -/
def step (s : State Thread) : Action Thread → Option (State Thread)
  | .wait t =>
      if (s.threads t).pc = .idle then
        some { s with
          threads := update s.threads t
            { s.threads t with pc := .load, started := (s.threads t).started + 1 } }
      else none
  | .next t => move s t (s.threads t).pc

/-- A new barrier for exactly these threads; the threshold is a `uint32_t`. -/
def Initial [Fintype Thread] (s : State Thread) : Prop :=
  Fintype.card Thread ≠ 0 ∧ Fintype.card Thread < 2 ^ 32 ∧ s = create (Fintype.card Thread)

/-- The states of the runs of the threads. -/
def Reachable [Fintype Thread] : State Thread → Prop :=
  Interleaving.Reachable Initial step fun _ _ => True

/-! ## Rounds -/

/-- A thread that has counted itself in for the round after `round` rounds, and spins. -/
def Local.waits (round : ℕ) (l : Local) : Bool :=
  match l.pc with
  | .spin _ => l.started = round + 1
  | _ => false

/-- The last thread of a round. -/
def Pc.isLast : Pc → Bool
  | .reset | .advance => true
  | _ => false

/-- Where a thread is after `round` rounds: outside, in the next round with the generation of it, or still
spinning in the last one with the generation before. -/
def Local.Ok (round : ℕ) (l : Local) : Prop :=
  match l.pc with
  | .idle => l.started = round ∧ l.returned = round
  | .load | .reset | .advance => l.started = round + 1 ∧ l.returned = round
  | .arrive gen => l.started = round + 1 ∧ l.returned = round ∧ gen = round % 2 ^ 32
  | .spin gen =>
      (l.started = round + 1 ∧ l.returned = round ∧ gen = round % 2 ^ 32) ∨
        (l.started = round ∧ l.returned + 1 = round ∧ gen = (round - 1) % 2 ^ 32)

theorem Local.Ok.bounds {round : ℕ} {l : Local} (h : l.Ok round) :
    l.returned ≤ round ∧ round ≤ l.started := by
  unfold Local.Ok at h
  split at h <;> omega

/-- The count is the number of threads that spin in this round, until the last one has arrived.  Then all
others spin, and the count is 0 when the last one is about to advance the generation. -/
structure Rounds [Fintype Thread] (s : State Thread) : Prop where
  threshold : s.threshold = Fintype.card Thread
  threshold_lt : s.threshold < 2 ^ 32
  generation : s.generation = s.advanced % 2 ^ 32
  ok : ∀ t, (s.threads t).Ok s.advanced
  arrived : (∀ t, (s.threads t).pc.isLast = false) →
    headcount (Local.waits s.advanced) s.threads = s.count ∧ s.count < s.threshold
  last : ∀ t, (s.threads t).pc.isLast = true →
    (∀ u, u ≠ t → (s.threads u).waits s.advanced = true) ∧ ((s.threads t).pc = .advance → s.count = 0)

namespace Rounds

variable [Fintype Thread] {s s' : State Thread} {t : Thread}

omit [DecidableEq Thread] in
/-- A thread that does not spin, and is not the last one, has nobody to be the last one beside it. -/
theorem no_last (h : Rounds s) (hlast : (s.threads t).pc.isLast = false)
    (hwaits : (s.threads t).waits s.advanced = false) (u : Thread) : (s.threads u).pc.isLast = false := by
  rw [← Bool.not_eq_true]
  intro hu
  have hne : t ≠ u := by
    rintro rfl
    rw [hlast] at hu
    cases hu
  have hspin := (h.last u hu).1 t hne
  rw [hwaits] at hspin
  cases hspin

omit [Fintype Thread] in
theorem ok_update {round : ℕ} (h : ∀ u, (s.threads u).Ok round) {l : Local} (hok : l.Ok round)
    (u : Thread) : (update s.threads t l u).Ok round :=
  forall_update (P := fun _ => Local.Ok round) (Q := fun _ => Local.Ok round) h (fun _ _ hu => hu) hok u

/-- The threads after one of them, which was not the last one, has moved on to where it is not the last
one, and spins as before. -/
theorem stay (h : Rounds s) {l : Local} (hok : l.Ok s.advanced) (hlast : (s.threads t).pc.isLast = false)
    (hlast' : l.pc.isLast = false) (hwaits : l.waits s.advanced = (s.threads t).waits s.advanced) :
    Rounds { s with threads := update s.threads t l } := by
  have hkeep : ∀ u, (update s.threads t l u).pc.isLast = (s.threads u).pc.isLast :=
    Interleaving.apply_update_self (f := fun l : Local => l.pc.isLast) (by rw [hlast, hlast'])
  have hspin : ∀ u, (update s.threads t l u).waits s.advanced = (s.threads u).waits s.advanced :=
    Interleaving.apply_update_self hwaits
  refine ⟨h.threshold, h.threshold_lt, h.generation, ok_update h.ok hok, fun hnone => ?_,
    fun u hu => ?_⟩
  · rw [headcount_stay hwaits]
    exact h.arrived fun u => (hkeep u).symm.trans (hnone u)
  · have hut : u ≠ t := by
      rintro rfl
      rw [hkeep, hlast] at hu
      cases hu
    rw [hkeep] at hu
    simp only [hspin, update_of_ne hut]
    exact h.last u hu

/-- A thread counts itself in.  If it is the last one, all others spin. -/
theorem arrive (h : Rounds s) {gen : ℕ} (hpc : (s.threads t).pc = .arrive gen)
    (hmove : move s t (.arrive gen) = some s') : Rounds s' := by
  have hok := h.ok t
  simp only [Local.Ok, hpc] at hok
  have hlast : (s.threads t).pc.isLast = false := by rw [hpc]; rfl
  have hwaits : (s.threads t).waits s.advanced = false := by simp [Local.waits, hpc]
  have hnone := h.no_last hlast hwaits
  obtain ⟨hcount, hlt⟩ := h.arrived hnone
  have hmod : (s.count + 1) % 2 ^ 32 = s.count + 1 := by
    have := h.threshold_lt
    exact Nat.mod_eq_of_lt (by omega)
  simp only [move, hmod] at hmove
  cases hmove
  by_cases hfull : s.count + 1 = s.threshold
  · -- everybody else has arrived before
    have hall : ∀ u, u ≠ t → (s.threads u).waits s.advanced = true := by
      refine forall_of_headcount ?_ hwaits
      rw [hcount, ← h.threshold, ← hfull]
      rfl
    simp only [State.goto, if_pos hfull]
    refine ⟨h.threshold, h.threshold_lt, h.generation, ok_update h.ok ⟨hok.1, hok.2.1⟩,
      fun hnot => ?_, fun u hu => ?_⟩
    · have ht := hnot t
      simp [Pc.isLast] at ht
    · have hut : u = t := by
        by_contra hne
        simp only [update_of_ne hne, hnone u] at hu
        cases hu
      subst hut
      refine ⟨fun v hv => ?_, fun hadvance => ?_⟩
      · simp only [update_of_ne hv]
        exact hall v hv
      · simp at hadvance
  · simp only [State.goto, if_neg hfull]
    have hnew : ({ s.threads t with pc := .spin gen } : Local).waits s.advanced = true := by
      simp [Local.waits, hok.1]
    refine ⟨h.threshold, h.threshold_lt, h.generation, ok_update h.ok (Or.inl hok),
      fun _ => ⟨?_, by simp only; omega⟩, fun u hu => ?_⟩
    · rw [headcount_enter hwaits hnew, hcount]
      rfl
    · by_cases hut : u = t
      · simp [hut, Pc.isLast] at hu
      · simp only [update_of_ne hut, hnone u] at hu
        cases hu

/-- The last thread sets the count back. -/
theorem reset (h : Rounds s) (hpc : (s.threads t).pc = .reset) :
    Rounds { s.goto t .advance with count := 0 } := by
  have hok := h.ok t
  simp only [Local.Ok, hpc] at hok
  have hall := (h.last t (by rw [hpc]; rfl)).1
  refine ⟨h.threshold, h.threshold_lt, h.generation, ok_update h.ok hok, fun hnot => ?_,
    fun u hu => ?_⟩
  · have ht := hnot t
    simp [State.goto, Pc.isLast] at ht
  · have hut : u = t := by
      by_contra hne
      have hspin := hall u hne
      simp only [State.goto, update_of_ne hne] at hu
      cases hpcu : (s.threads u).pc <;> simp_all [Local.waits, Pc.isLast]
    subst hut
    refine ⟨fun v hv => ?_, fun _ => rfl⟩
    simp only [State.goto, update_of_ne hv]
    exact hall v hv

/-- The last thread advances the generation: all others are released, and the next round is empty. -/
theorem advance (h : Rounds s) (hpc : (s.threads t).pc = .advance) :
    Rounds { s.return t with
      generation := (s.generation + 1) % 2 ^ 32
      advanced := s.advanced + 1 } := by
  have hok := h.ok t
  simp only [Local.Ok, hpc] at hok
  obtain ⟨hall, hzero⟩ := h.last t (by rw [hpc]; rfl)
  -- nobody is at another place than outside, or spinning in the round that is over
  have hplaces : ∀ u, ((s.return t).threads u).Ok (s.advanced + 1) ∧
      ((s.return t).threads u).pc.isLast = false ∧
      ((s.return t).threads u).waits (s.advanced + 1) = false := by
    intro u
    by_cases hut : u = t
    · subst hut
      simp [State.return, Local.Ok, Local.waits, Pc.isLast, hok.1, hok.2]
    · have hspin := hall u hut
      have hoku := h.ok u
      simp only [State.return, update_of_ne hut]
      cases hpcu : (s.threads u).pc with
      | spin gen =>
          simp only [Local.waits, hpcu, decide_eq_true_eq] at hspin
          simp only [Local.Ok, hpcu] at hoku
          simp only [Local.Ok, Local.waits, hpcu, Pc.isLast, decide_eq_false_iff_not,
            Nat.add_sub_cancel]
          exact ⟨Or.inr (by omega), trivial, by omega⟩
      | _ => simp [Local.waits, hpcu] at hspin
  refine ⟨h.threshold, h.threshold_lt, ?_, fun u => (hplaces u).1, fun _ => ⟨?_, ?_⟩, fun u hu => ?_⟩
  · have := h.generation
    simp only
    omega
  · rw [headcount_eq_zero.mpr fun u => (hplaces u).2.2]
    simp [State.return, hzero hpc]
  · have hpos : 0 < Fintype.card Thread := Fintype.card_pos_iff.mpr ⟨t⟩
    simp only [State.return, hzero hpc, h.threshold]
    exact hpos
  · rw [(hplaces u).2.1] at hu
    cases hu

omit [DecidableEq Thread] in
/-- After a round, the generation is not the one that was saved in it. -/
theorem generation_ne (h : Rounds s) {gen : ℕ} (hpc : (s.threads t).pc = .spin gen)
    (hover : (s.threads t).started ≤ s.advanced) : s.generation ≠ gen := by
  have hok := h.ok t
  have hgeneration := h.generation
  simp only [Local.Ok, hpc] at hok
  omega

/-- One step of one thread. -/
theorem next (h : Rounds s) (hmove : move s t (s.threads t).pc = some s') : Rounds s' := by
  have hok := h.ok t
  cases hpc : (s.threads t).pc with
  | idle =>
      rw [hpc] at hmove
      cases hmove
  | load =>
      rw [hpc] at hmove
      cases hmove
      simp only [Local.Ok, hpc] at hok
      exact h.stay ⟨hok.1, hok.2, h.generation⟩ (by rw [hpc]; rfl) rfl (by simp [Local.waits, hpc])
  | arrive gen =>
      rw [hpc] at hmove
      exact h.arrive hpc hmove
  | reset =>
      rw [hpc] at hmove
      cases hmove
      exact h.reset hpc
  | advance =>
      rw [hpc] at hmove
      cases hmove
      exact h.advance hpc
  | spin gen =>
      rw [hpc] at hmove
      simp only [move] at hmove
      split at hmove
      · cases hmove
        exact h
      · rename_i hleaves
        cases hmove
        simp only [Local.Ok, hpc] at hok
        have hgeneration := h.generation
        -- the generation has changed, so that the round is over
        have hover : (s.threads t).started = s.advanced ∧ (s.threads t).returned + 1 = s.advanced := by
          omega
        refine h.stay ⟨hover.1, hover.2⟩ (by rw [hpc]; rfl) rfl ?_
        simp [Local.waits, hpc, hover.1]

/-- Every step keeps the rounds in order. -/
theorem step {a : Action Thread} (h : Rounds s) (hstep : step s a = some s') : Rounds s' := by
  cases a with
  | wait t =>
      obtain ⟨hpc, rfl⟩ := Option.ite_none_right_eq_some.mp hstep |>.imp_right Option.some.inj
      have hok := h.ok t
      simp only [Local.Ok, hpc] at hok
      refine h.stay ⟨?_, hok.2⟩ (by rw [hpc]; rfl) rfl (by simp [Local.waits, hpc])
      simp only [hok.1]
  | next t => exact h.next hstep

end Rounds

theorem Reachable.rounds [Fintype Thread] {s : State Thread} (h : Reachable s) : Rounds s := by
  apply Interleaving.Reachable.invariant (I := Rounds) h
  · rintro s ⟨hpos, hlt, rfl⟩
    refine ⟨rfl, hlt, rfl, fun t => ⟨rfl, rfl⟩, fun _ => ⟨?_, Nat.pos_of_ne_zero hpos⟩, fun t ht => ?_⟩
    · exact headcount_eq_zero.mpr fun t => rfl
    · cases ht
  · exact fun s s' a hs _ hstep => hs.step hstep

/-- Nobody returns from a call before everybody has started it, and nobody is held back in a round that is
over: the generation is not the one that it has saved. -/
structure Synchronized (s : State Thread) : Prop where
  all_started : ∀ t u, (s.threads t).returned ≤ (s.threads u).started
  released : ∀ t gen, (s.threads t).pc = .spin gen → (s.threads t).started ≤ s.advanced →
    s.generation ≠ gen

/-- In every run of as many threads as the threshold the barrier keeps them together, for any number of
rounds. -/
theorem synchronized_of_reachable [Fintype Thread] {s : State Thread} (hreach : Reachable s) :
    Synchronized s := by
  have h := hreach.rounds
  exact ⟨fun t u => (h.ok t).bounds.1.trans (h.ok u).bounds.2,
    fun t gen hpc hover => h.generation_ne hpc hover⟩

/-! ## A run of two rounds -/

/-- One thread is in the second round before the other one has left the first one. -/
theorem synchronized_after_overtaking : ∃ s : State Bool, Reachable s ∧
    (s.threads true).pc = .spin 1 ∧ (s.threads true).started = 2 ∧ (s.threads false).pc = .spin 0 ∧
    (s.threads false).started = 1 ∧ s.advanced = 1 ∧ Synchronized s := by
  let actions : List (Action Bool) :=
    [.wait false, .next false, .next false, .wait true, .next true, .next true, .next true, .next true,
      .wait true, .next true, .next true]
  have hresult : (Interleaving.run step actions (create 2)).map
      (fun s => ((s.threads true).pc, (s.threads true).started, (s.threads false).pc,
        (s.threads false).started, s.advanced)) = some (.spin 1, 2, .spin 0, 1, 1) := by
    decide +kernel
  obtain ⟨s, hrun, hs⟩ := Option.map_eq_some_iff.mp hresult
  obtain ⟨htrue, htrue', hfalse, hfalse', hadvanced⟩ : (s.threads true).pc = .spin 1 ∧
      (s.threads true).started = 2 ∧ (s.threads false).pc = .spin 0 ∧ (s.threads false).started = 1 ∧
      s.advanced = 1 := by
    simpa only [Prod.mk.injEq] using hs
  have hreach : Reachable s :=
    Interleaving.Reachable.run (.init ⟨by simp, by simp, rfl⟩) (fun _ _ => trivial) hrun
  exact ⟨s, hreach, htrue, htrue', hfalse, hfalse', hadvanced, synchronized_of_reachable hreach⟩

end LgxRuntime.Threading.Barrier
