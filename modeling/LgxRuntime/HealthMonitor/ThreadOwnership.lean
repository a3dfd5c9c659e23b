import LgxRuntime.HealthMonitor.Monitor
import LgxRuntime.Lib.Interleaving
import Mathlib.Data.List.Range

/-!
# Who owns the monitoring thread

As long as one call at a time stops the monitoring, and none does so from the alert callback, the threads are
joined in the order in which they are created, each before the next one is created: the monitoring stays
enabled until the thread is joined, and no thread is created while it is enabled.
-/

namespace LgxRuntime.HealthMonitor

open Function (update update_self)
open Interleaving (forall_update of_update update_of_not eq_of_update not_update)

variable {Thread : Type} [DecidableEq Thread]

/-- What a caller knows that stops the last thread: whether it has been joined. -/
def CallerOk (monitoringThread created joins : ℕ) (c : Caller Thread) : Pc → Prop
  | .readThread target => target = monitoringThread ∧ created = joins + 1 ∧ ∀ n, c ≠ .callback n
  | .join target thread =>
      target = monitoringThread ∧ thread = monitoringThread ∧ created = joins + 1 ∧ ∀ n, c ≠ .callback n
  | .clear target => target = monitoringThread ∧ created = joins
  | _ => True

/-- All threads were joined in their order, but for the last one as long as the monitoring is enabled and
nobody has joined it. -/
structure Intact (s : State Thread) : Prop where
  joined : s.joined = List.range s.joined.length
  disabled : s.monitoringEnabled = false → s.created = s.joined.length
  enabled : s.monitoringEnabled = true → s.monitoringThread + 1 = s.created
  unjoined : s.monitoringEnabled = true → (∀ c, ¬ (s.pc c).Stopping) → s.created = s.joined.length + 1
  stopping : ∀ c, (s.pc c).Stopping → s.monitoringEnabled = true
  alone : ∀ c d, (s.pc c).Stopping → (s.pc d).Stopping → c = d
  callers : ∀ c, CallerOk s.monitoringThread s.created s.joined.length c (s.pc c)
  stopped : ∀ n ∈ s.stopped, n < s.joined.length

omit [DecidableEq Thread] in
theorem Initial.intact {s : State Thread} (h : Initial s) : Intact s := by
  subst h
  exact
    { joined := rfl
      disabled := fun _ => rfl
      enabled := fun hon => by cases hon
      unjoined := fun hon => by cases hon
      stopping := fun _ hstop => hstop.elim
      alone := fun _ _ hstop _ => hstop.elim
      callers := fun _ => trivial
      stopped := fun n hn => by cases hn }

omit [DecidableEq Thread] in
/-- A caller that does not stop the monitoring knows nothing. -/
theorem CallerOk.of_not_stopping {monitoringThread created joins : ℕ} {c : Caller Thread} {pc : Pc}
    (h : ¬ pc.Stopping) : CallerOk monitoringThread created joins c pc := by
  cases pc with
  | readThread target => exact absurd trivial h
  | join target thread => exact absurd trivial h
  | clear target => exact absurd trivial h
  | _ => trivial

/-! ## The steps of a caller -/

section

variable {s : State Thread} {c : Caller Thread} {pc : Pc}

theorem not_quiet_update (hnew : pc.Stopping) : ¬ ∀ d, ¬ (update s.pc c pc d).Stopping :=
  fun hquiet => hquiet c (by rw [update_self]; exact hnew)

/-- A caller moves on that does not stop the monitoring. -/
theorem Intact.goto (h : Intact s) (hold : ¬ (s.pc c).Stopping) (hnew : ¬ pc.Stopping) : Intact (s.goto c pc) :=
  { h with
    unjoined := fun hon hquiet => h.unjoined hon fun d hd => hquiet d (update_of_not hold hd)
    stopping := fun d hd => h.stopping d (of_update hnew hd)
    alone := fun d e hd he => h.alone d e (of_update hnew hd) (of_update hnew he)
    callers := forall_update h.callers (fun _ _ hok => hok) (.of_not_stopping hnew) }

/-- A caller that stops the monitoring moves on and still stops it. -/
theorem Intact.gotoStopping (h : Intact s) (hothers : ∀ d, d ≠ c → ¬ (s.pc d).Stopping) (hnew : pc.Stopping)
    (hon : s.monitoringEnabled = true)
    (hok : CallerOk s.monitoringThread s.created s.joined.length c pc) : Intact (s.goto c pc) :=
  { h with
    unjoined := fun _ hquiet => absurd hquiet (not_quiet_update hnew)
    stopping := fun _ _ => hon
    alone := fun _ _ hd he => (eq_of_update hothers hd).trans (eq_of_update hothers he).symm
    callers := forall_update h.callers (fun _ _ hok => hok) hok }

omit [DecidableEq Thread] in
theorem Intact.other_quiet (h : Intact s) (hc : (s.pc c).Stopping) (d : Caller Thread) (hdc : d ≠ c) :
    ¬ (s.pc d).Stopping :=
  fun hd => hdc (h.alone d c hd hc)

/-- The thread that has been stopped is joined. -/
theorem Intact.join (h : Intact s) {target thread : ℕ} (hc : s.pc c = .join target thread) :
    Intact { s.goto c (.clear target) with joined := s.joined ++ [thread] } := by
  have hstopping : (s.pc c).Stopping := by rw [hc]; trivial
  have hok := h.callers c
  rw [hc] at hok
  obtain ⟨htarget, rfl, hcreated, -⟩ := hok
  have hon := h.stopping c hstopping
  have hlast : s.monitoringThread = s.joined.length := by
    have hthread := h.enabled hon
    omega
  have hlength : (s.joined ++ [s.monitoringThread]).length = s.joined.length + 1 := List.length_append
  have hothers := h.other_quiet hstopping
  exact
    { joined := by
        rw [hlength, List.range_succ, ← h.joined, hlast]
      disabled := fun hoff => absurd (hon.symm.trans hoff) (by decide)
      enabled := h.enabled
      unjoined := fun _ hquiet => absurd hquiet (not_quiet_update trivial)
      stopping := fun _ _ => hon
      alone := fun _ _ hd he => (eq_of_update hothers hd).trans (eq_of_update hothers he).symm
      callers := forall_update h.callers (fun d hdc _ => .of_not_stopping (hothers d hdc))
        ⟨htarget, hcreated.trans hlength.symm⟩
      stopped := fun n hn => (h.stopped n hn).trans_le (by rw [hlength]; exact Nat.le_succ _) }

/-- The monitoring is disabled once its thread has been joined. -/
theorem Intact.clear (h : Intact s) {target : ℕ} (hc : s.pc c = .clear target) :
    Intact { s.goto c (.returns .success) with monitoringEnabled := false, stopped := s.stopped ++ [target] } := by
  have hstopping : (s.pc c).Stopping := by rw [hc]; trivial
  have hok := h.callers c
  rw [hc] at hok
  obtain ⟨rfl, hcreated⟩ := hok
  have hthread := h.enabled (h.stopping c hstopping)
  have hothers := h.other_quiet hstopping
  have hquiet : ∀ d, ¬ (update s.pc c (.returns .success) d).Stopping :=
    not_update hothers id
  exact
    { h with
      disabled := fun _ => hcreated
      enabled := fun hon => by cases hon
      unjoined := fun hon => by cases hon
      stopping := fun d hd => (hquiet d hd).elim
      alone := fun d _ hd => (hquiet d hd).elim
      callers := fun d => .of_not_stopping (hquiet d)
      stopped := fun n hn => by
        rcases List.mem_append.mp hn with hn | hn
        · exact h.stopped n hn
        · obtain rfl := List.mem_singleton.mp hn
          show s.monitoringThread < s.joined.length
          omega }

omit [DecidableEq Thread] in
/-- Nobody stops a monitoring that is not enabled. -/
theorem Intact.quiet (h : Intact s) (hoff : s.monitoringEnabled = false) (d : Caller Thread) :
    ¬ (s.pc d).Stopping :=
  fun hd => absurd (hoff.symm.trans (h.stopping d hd)) Bool.false_ne_true

/-- A monitoring thread is created. -/
theorem Intact.create (h : Intact s) (hoff : s.monitoringEnabled = false) (intervalMs : ℕ) :
    Intact { s.goto c (.returns .success) with
      monitoringIntervalMs := intervalMs
      monitoringEnabled := true
      monitoringThreadRunning := true
      monitoringThread := s.created
      created := s.created + 1 } := by
  have hquiet : ∀ d, ¬ (update s.pc c (.returns .success) d).Stopping :=
    not_update (fun d _ => h.quiet hoff d) id
  exact
    { h with
      disabled := fun hon => by cases hon
      enabled := fun _ => rfl
      unjoined := fun _ _ => congrArg (· + 1) (h.disabled hoff)
      stopping := fun d hd => (hquiet d hd).elim
      alone := fun d _ hd => (hquiet d hd).elim
      callers := fun d => .of_not_stopping (hquiet d) }

/-- No monitoring thread is created, and the monitoring stays disabled. -/
theorem Intact.createFailed (h : Intact s) (hold : ¬ (s.pc c).Stopping) (hoff : s.monitoringEnabled = false)
    (intervalMs : ℕ) :
    Intact { s.goto c (.returns .systemError) with
      monitoringIntervalMs := intervalMs
      monitoringEnabled := false
      monitoringThreadRunning := false } := by
  have hgoto : Intact (s.goto c (.returns .systemError)) := h.goto hold id
  exact
    { hgoto with
      disabled := fun _ => h.disabled hoff
      enabled := fun hon => by cases hon
      unjoined := fun hon => by cases hon
      stopping := fun d hd => absurd (of_update id hd) (h.quiet hoff d) }

/-! ## Every step -/

variable {s' : State Thread}

theorem next_intact (h : Intact s) {create : Bool} (horderly : Orderly s (.next c create))
    (hstep : s.next c create (s.pc c) = some s') : Intact s' := by
  cases hc : s.pc c with
  | idle =>
      rw [hc] at hstep
      cases hstep
  | start intervalMs =>
      have hold : ¬ (s.pc c).Stopping := by rw [hc]; exact id
      rw [hc] at hstep
      simp only [State.next] at hstep
      split at hstep
      · obtain rfl := Option.some.inj hstep
        exact h.goto hold id
      · rename_i hoff
        have hoff := Bool.eq_false_of_not_eq_true hoff
        split at hstep
        · obtain rfl := Option.some.inj hstep
          exact h.create hoff intervalMs
        · obtain rfl := Option.some.inj hstep
          exact h.createFailed hold hoff intervalMs
  | stop =>
      have hold : ¬ (s.pc c).Stopping := by rw [hc]; exact id
      rw [hc] at hstep
      simp only [State.next] at hstep
      split at hstep
      · obtain rfl := Option.some.inj hstep
        exact h.goto hold id
      · rename_i hon
        have hon : s.monitoringEnabled = true := by simpa using hon
        obtain rfl := Option.some.inj hstep
        obtain ⟨hgame, hquiet⟩ := horderly hc hon
        have hgoto : Intact (s.goto c (.readThread s.monitoringThread)) :=
          h.gotoStopping (fun d _ => hquiet d) trivial hon ⟨rfl, h.unjoined hon hquiet, hgame⟩
        exact { hgoto with }
  | readThread target =>
      have hstopping : (s.pc c).Stopping := by rw [hc]; trivial
      have hok := h.callers c
      rw [hc] at hstep hok
      obtain rfl := Option.some.inj hstep
      obtain ⟨htarget, hcreated, hgame⟩ := hok
      exact h.gotoStopping (h.other_quiet hstopping) trivial (h.stopping c hstopping)
        ⟨htarget, rfl, hcreated, hgame⟩
  | join target thread =>
      have hok := h.callers c
      rw [hc] at hstep hok
      obtain ⟨-, -, -, hgame⟩ := hok
      simp only [State.next, if_neg (hgame thread)] at hstep
      obtain ⟨-, hstep⟩ := Option.ite_none_right_eq_some.mp hstep
      obtain rfl := Option.some.inj hstep
      exact h.join hc
  | clear target =>
      rw [hc] at hstep
      obtain rfl := Option.some.inj hstep
      exact h.clear hc
  | returns result =>
      have hold : ¬ (s.pc c).Stopping := by rw [hc]; exact id
      rw [hc] at hstep
      obtain rfl := Option.some.inj hstep
      exact h.goto hold id

theorem call_intact (h : Intact s) (hnew : ¬ pc.Stopping) (hstep : s.call c pc = some s') : Intact s' := by
  unfold State.call at hstep
  split at hstep
  · rename_i hc
    obtain ⟨-, hstep⟩ := Option.ite_none_right_eq_some.mp hstep
    obtain rfl := Option.some.inj hstep
    exact h.goto (by rw [hc]; exact id) hnew
  · cases hstep

theorem step_intact {a : Action Thread} (h : Intact s) (horderly : Orderly s a) (hstep : step s a = some s') :
    Intact s' := by
  cases a with
  | callStart c intervalMs =>
      refine call_intact h ?_ hstep
      split <;> exact id
  | callStop c => exact call_intact h id hstep
  | next c create => exact next_intact h horderly hstep
  | finish n =>
      simp only [step, State.finish] at hstep
      split at hstep
      · obtain ⟨-, hstep⟩ := Option.ite_none_right_eq_some.mp hstep
        obtain rfl := Option.some.inj hstep
        exact { h with }
      · cases hstep

end

/-! ## Every run -/

omit [DecidableEq Thread] in
/-- The thread that has not been joined, if there is one, is the last one. -/
theorem Intact.unjoined_iff {s : State Thread} (h : Intact s) (n : ℕ) :
    s.Unjoined n ↔ n < s.created ∧ s.joined.length ≤ n := by
  rw [State.Unjoined, h.joined, List.mem_range, List.length_range, Nat.not_lt]

omit [DecidableEq Thread] in
theorem CallerOk.created_le {monitoringThread created joins : ℕ} {c : Caller Thread} {pc : Pc}
    (h : CallerOk monitoringThread created joins c pc) (hc : pc.Stopping) : created ≤ joins + 1 := by
  cases pc with
  | readThread target => exact h.2.1.le
  | join target thread => exact h.2.2.1.le
  | clear target => exact h.2.le.trans (Nat.le_succ _)
  | _ => exact hc.elim

omit [DecidableEq Thread] in
/-- All threads but one have been joined. -/
theorem Intact.created_le {s : State Thread} (h : Intact s) : s.created ≤ s.joined.length + 1 := by
  cases hon : s.monitoringEnabled with
  | false => exact (h.disabled hon).le.trans (Nat.le_succ _)
  | true =>
      by_cases hquiet : ∀ c, ¬ (s.pc c).Stopping
      · exact (h.unjoined hon hquiet).le
      · obtain ⟨c, hc⟩ := not_forall_not.mp hquiet
        exact (h.callers c).created_le hc

omit [DecidableEq Thread] in
theorem Intact.owned {s : State Thread} (h : Intact s) : Owned s := by
  have hle := h.created_le
  refine ⟨fun m n hm hn => ?_, ?_, fun n hn => ?_, fun hidle => ?_⟩
  · rw [h.unjoined_iff] at hm hn
    omega
  · rw [h.joined]
    exact List.nodup_range
  · rw [h.joined]
    exact List.mem_range.mpr (h.stopped n hn)
  · have hquiet : ∀ c, ¬ (s.pc c).Stopping := fun c => by rw [hidle c]; exact id
    constructor
    · intro hon
      have hlast := h.unjoined hon hquiet
      exact ⟨s.joined.length, (h.unjoined_iff _).mpr ⟨by omega, Nat.le_refl _⟩⟩
    · rintro ⟨n, hn⟩
      obtain ⟨hlt, hge⟩ := (h.unjoined_iff n).mp hn
      by_contra hoff
      have hall := h.disabled (Bool.eq_false_of_not_eq_true hoff)
      omega

/-- The monitoring threads are owned in every run in which one call at a time stops the monitoring, and none from
the alert callback. -/
theorem owned_of_reachable {s : State Thread} (h : Interleaving.Reachable Initial step Orderly s) : Owned s := by
  have hintact : Intact s := h.invariant (fun _ => Initial.intact) fun _ _ _ => step_intact
  exact hintact.owned

/-- Nobody begins to stop the monitoring. -/
def calm (s : State Unit) : Action Unit → Bool
  | .next c _ =>
      match s.pc c with
      | .stop => false
      | _ => true
  | _ => true

theorem orderly_of_calm {s : State Unit} {a : Action Unit} (hcheck : calm s a = true) : Orderly s a := by
  cases a with
  | next c create =>
      intro hc
      simp only [calm, hc] at hcheck
      cases hcheck
  | _ => trivial

/-- A thread of the game may stop the monitoring while nobody does. -/
theorem orderly_of_quiet {s : State Unit} {create : Bool} (t : Unit) (hquiet : ∀ d, ¬ (s.pc d).Stopping) :
    Orderly s (.next (.game t) create) :=
  fun _ _ => ⟨fun n hn => (by cases hn), hquiet⟩

/-- The monitoring is started and stopped. -/
theorem owned_of_reachable_once : ∃ s : State Unit, s.joined = [0] ∧ s.stopped = [0] ∧ Owned s := by
  have hinit : Interleaving.Reachable Initial step Orderly (healthMonitorInit : State Unit) := .init rfl
  have hstart :
      Interleaving.run (Interleaving.guarded step calm)
        [Action.callStart (.game ()) 1000, Action.next (.game ()) true, Action.next (.game ()) true,
          Action.callStop (.game ())] healthMonitorInit = some _ := rfl
  have hstarted := hinit.run_guarded (fun _ _ _ => orderly_of_calm) hstart
  have hstopping := hstarted.step (.next (.game ()) true)
    (orderly_of_quiet () fun d => by cases d <;> exact id) rfl
  obtain ⟨s, hreach, hs⟩ := hstopping.exists_of_run_guarded (fun _ _ _ => orderly_of_calm)
    (by rfl : (Interleaving.run (Interleaving.guarded step calm)
      [Action.next (.game ()) true, Action.finish 0, Action.next (.game ()) true, Action.next (.game ()) true,
        Action.next (.game ()) true] _).map (fun s => (s.joined, s.stopped)) = some ([0], [0]))
  exact ⟨s, congrArg Prod.fst hs, congrArg Prod.snd hs, owned_of_reachable hreach⟩

/-- Two calls that stop the monitoring at the same time join the same thread. -/
theorem not_owned_of_reachable :
    ¬ ∀ s : State Bool, Interleaving.Reachable Initial step (fun _ _ => True) s → Owned s := by
  intro hall
  have hinit : Interleaving.Reachable Initial step (fun _ _ => True) (healthMonitorInit : State Bool) := .init rfl
  have hresult :
      (Interleaving.run step
        [Action.callStart (.game true) 1000, Action.next (.game true) true, Action.next (.game true) true,
          Action.callStop (.game true), Action.callStop (.game false), Action.next (.game true) true,
          Action.next (.game false) true, Action.next (.game true) true, Action.next (.game false) true,
          Action.finish 0, Action.next (.game true) true, Action.next (.game false) true]
        healthMonitorInit).map State.joined = some [0, 0] := rfl
  obtain ⟨s, hrun, hjoined⟩ := Option.map_eq_some_iff.mp hresult
  have howned := hall s (hinit.run (fun _ _ => trivial) hrun)
  have honce := howned.joinedOnce
  rw [hjoined] at honce
  exact absurd honce (by decide)

end LgxRuntime.HealthMonitor
