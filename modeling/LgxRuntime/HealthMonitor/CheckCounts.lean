import LgxRuntime.HealthMonitor.Check

/-!
# What the monitoring loop counts

The loop counts an iteration only if the check serves the size in its local status, which is never set.
Every iteration is counted, and every call that is due is made, exactly if the local variable happens to
hold a size that the check serves each time.
-/

namespace LgxRuntime.HealthMonitor

variable {Callback UserData : Type} {m : Monitor Callback UserData} {status : BasicStatus} {c : Conditions}
  {e : Event Callback UserData} {events events' : List (Event Callback UserData)}

/-! ## The calls that are due -/

/-- The call that is due in one iteration. -/
def alertDue (callback : Option Callback) (userData : UserData) (status : BasicStatus) (c : Conditions) :
    List (Alert Callback UserData) :=
  match callback, c.assess.overallHealth with
  | some callback, .warning | some callback, .critical =>
      [⟨callback, { c.assess.toBasicStatus with structSize := status.structSize }, userData⟩]
  | _, _ => []

variable {callback : Option Callback} {userData : UserData}

theorem alertsDue_nil : alertsDue callback userData ([] : List (Event Callback UserData)) = [] := rfl

theorem alertsDue_iteration :
    alertsDue callback userData (.iteration status c :: events) =
      alertDue callback userData status c ++ alertsDue callback userData events := rfl

theorem alertsDue_check :
    alertsDue callback userData (.check status c :: events) = alertsDue callback userData events := rfl

/-! ## One event -/

theorem healthMonitorCheck_of_served (h : Served status) :
    healthMonitorCheck m status c =
      (.success, { m with lastStatus := c.assess, lastCheckTime := c.now },
        { c.assess.toBasicStatus with structSize := status.structSize }) := by
  rw [healthMonitorCheck, if_neg (not_lt.mpr h.2), if_neg (not_lt.mpr h.1)]

theorem healthMonitorCheck_of_not_served (h : ¬ Served status) :
    healthMonitorCheck m status c = (.invalidParam, m, status) := by
  unfold healthMonitorCheck
  split_ifs with hlarge hsmall
  · rfl
  · rfl
  · exact absurd ⟨not_lt.mp hsmall, not_lt.mp hlarge⟩ h

/-- A size that is refused makes the loop skip everything. -/
theorem iterate_of_not_served (h : ¬ Served status) : m.iterate status c = (m, []) := by
  rw [Monitor.iterate, healthMonitorCheck_of_not_served h]

/-- A check by the game leaves the statistics and the alert callback alone. -/
theorem healthMonitorCheck_monitor (m : Monitor Callback UserData) (status : BasicStatus) (c : Conditions) :
    ∃ last time, (healthMonitorCheck m status c).2.1 = { m with lastStatus := last, lastCheckTime := time } := by
  by_cases h : Served status
  · exact ⟨_, _, by rw [healthMonitorCheck_of_served h]⟩
  · exact ⟨m.lastStatus, m.lastCheckTime, by rw [healthMonitorCheck_of_not_served h]⟩

/-- An iteration whose size is served counts what it finds, and alerts. -/
theorem iterate_of_served (h : Served status) :
    (m.iterate status c).1.totalChecks = m.totalChecks + 1 ∧
      (m.iterate status c).1.warningsTriggered =
        m.warningsTriggered + (if c.assess.overallHealth = .warning then 1 else 0) ∧
      (m.iterate status c).1.criticalsTriggered =
        m.criticalsTriggered + (if c.assess.overallHealth = .critical then 1 else 0) ∧
      (m.iterate status c).2 =
        alertsDue m.alertCallback m.alertCallbackUserData [.iteration status c] := by
  rw [alertsDue_iteration, alertsDue_nil, List.append_nil]
  unfold Monitor.iterate Monitor.alert alertDue
  rw [healthMonitorCheck_of_served h]
  dsimp only
  cases c.assess.overallHealth <;> cases m.alertCallback
  all_goals exact ⟨rfl, by simp, by simp, rfl⟩

/-- The other events count nothing and call nothing. -/
theorem step_of_not_isIteration (h : e.isIteration = false) :
    (m.step e).1.totalChecks = m.totalChecks ∧ (m.step e).1.warningsTriggered = m.warningsTriggered ∧
      (m.step e).1.criticalsTriggered = m.criticalsTriggered ∧
      (m.step e).2 = alertsDue m.alertCallback m.alertCallbackUserData [e] ∧
      ∀ level, e.isAssessed level = false := by
  cases e with
  | iteration status c => cases h
  | check status c =>
      obtain ⟨last, time, hcheck⟩ := healthMonitorCheck_monitor m status c
      rw [Monitor.step, hcheck]
      exact ⟨rfl, rfl, rfl, rfl, fun _ => rfl⟩
  | setAlertCallback callback userData => exact ⟨rfl, rfl, rfl, rfl, fun _ => rfl⟩

theorem run_singleton (m : Monitor Callback UserData) (e : Event Callback UserData) : m.run [e] = m.step e :=
  Prod.ext rfl (List.append_nil _)

theorem ofNat_countP_singleton (p : Event Callback UserData → Bool) (e : Event Callback UserData) :
    UInt64.ofNat ([e].countP p) = if p e = true then 1 else 0 := by
  rw [List.countP_singleton]
  split_ifs <;> rfl

theorem counted_iteration (h : Served status) : Counted m [.iteration status c] := by
  obtain ⟨htotal, hwarnings, hcriticals, halerts⟩ := @iterate_of_served _ _ m status c h
  constructor
  · rw [run_singleton, ofNat_countP_singleton]
    exact htotal
  · rw [run_singleton, ofNat_countP_singleton]
    simpa only [Monitor.step, Event.isAssessed, decide_eq_true_eq] using hwarnings
  · rw [run_singleton, ofNat_countP_singleton]
    simpa only [Monitor.step, Event.isAssessed, decide_eq_true_eq] using hcriticals
  · rw [run_singleton]
    exact halerts

theorem counted_of_not_isIteration (h : e.isIteration = false) : Counted m [e] := by
  obtain ⟨htotal, hwarnings, hcriticals, halerts, hassessed⟩ := @step_of_not_isIteration _ _ m e h
  constructor
  · rw [run_singleton, ofNat_countP_singleton, h, htotal]
    exact (UInt64.add_zero _).symm
  · rw [run_singleton, ofNat_countP_singleton, hassessed, hwarnings]
    exact (UInt64.add_zero _).symm
  · rw [run_singleton, ofNat_countP_singleton, hassessed, hcriticals]
    exact (UInt64.add_zero _).symm
  · rw [run_singleton]
    exact halerts

/-- An iteration leaves the registered callback alone. -/
theorem iterate_callback (m : Monitor Callback UserData) (status : BasicStatus) (c : Conditions) :
    (m.iterate status c).1.alertCallback = m.alertCallback ∧
      (m.iterate status c).1.alertCallbackUserData = m.alertCallbackUserData := by
  by_cases h : Served status
  · cases hlevel : c.assess.overallHealth <;>
      simp [Monitor.iterate, healthMonitorCheck_of_served h, hlevel]
  · rw [iterate_of_not_served h]
    exact ⟨rfl, rfl⟩

/-- The calls that are due are due event by event. -/
theorem alertsDue_cons (m : Monitor Callback UserData) (e : Event Callback UserData)
    (events : List (Event Callback UserData)) :
    alertsDue m.alertCallback m.alertCallbackUserData (e :: events) =
      alertsDue m.alertCallback m.alertCallbackUserData [e] ++
        alertsDue (m.step e).1.alertCallback (m.step e).1.alertCallbackUserData events := by
  cases e with
  | iteration status c =>
      obtain ⟨hcallback, huserData⟩ := iterate_callback m status c
      rw [alertsDue_iteration, alertsDue_iteration, alertsDue_nil, List.append_nil, Monitor.step, hcallback,
        huserData]
  | check status c =>
      obtain ⟨last, time, hcheck⟩ := healthMonitorCheck_monitor m status c
      rw [alertsDue_check, alertsDue_check, alertsDue_nil, List.nil_append, Monitor.step, hcheck]
  | setAlertCallback callback userData => rfl

/-! ## Runs -/

theorem run_append (m : Monitor Callback UserData) (events events' : List (Event Callback UserData)) :
    m.run (events ++ events') =
      (((m.run events).1.run events').1, (m.run events).2 ++ ((m.run events).1.run events').2) := by
  induction events generalizing m with
  | nil => rfl
  | cons e events ih => simp only [List.cons_append, Monitor.run, ih, List.append_assoc]

/-- What is counted event by event is counted in the run. -/
theorem Counted.cons (h : Counted m [e]) (hrest : Counted (m.step e).1 events) : Counted m (e :: events) := by
  have hcount (p : Event Callback UserData → Bool) :
      UInt64.ofNat ((e :: events).countP p) = .ofNat ([e].countP p) + .ofNat (events.countP p) := by
    rw [← UInt64.ofNat_add, ← List.countP_append, List.singleton_append]
  constructor
  · rw [hcount, ← UInt64.add_assoc, ← h.totalChecks]
    exact hrest.totalChecks
  · rw [hcount, ← UInt64.add_assoc, ← h.warnings]
    exact hrest.warnings
  · rw [hcount, ← UInt64.add_assoc, ← h.criticals]
    exact hrest.criticals
  · rw [alertsDue_cons, ← h.alerts, ← hrest.alerts]
    simp only [Monitor.run, List.append_nil]

/-- If the local status always has a size that is served, nothing is missed. -/
theorem counted_of_served (h : ∀ status c, .iteration status c ∈ events → Served status) :
    Counted m events := by
  induction events generalizing m with
  | nil => constructor <;> simp [Monitor.run, alertsDue_nil]
  | cons e events ih =>
      refine Counted.cons ?_ (ih fun status c hmem => h status c (List.mem_cons_of_mem _ hmem))
      cases e with
      | iteration status c => exact counted_iteration (h status c List.mem_cons_self)
      | check status c => exact counted_of_not_isIteration rfl
      | setAlertCallback callback userData => exact counted_of_not_isIteration rfl

/-- An iteration whose size is refused is not counted. -/
theorem served_of_counted (hbefore : Counted m events)
    (h : Counted m (events ++ [.iteration status c])) : Served status := by
  by_contra hserved
  have htotal := h.totalChecks
  rw [run_append] at htotal
  simp only [Monitor.run, Monitor.step, iterate_of_not_served hserved, hbefore.totalChecks,
    List.countP_append, List.countP_singleton, Event.isIteration, if_true, UInt64.ofNat_add] at htotal
  grind

/-- Health monitoring misses nothing, after any number of events, exactly if the local status of the loop has
a size that the check serves in every iteration. -/
theorem counted_prefix_iff (m : Monitor Callback UserData) (events : List (Event Callback UserData)) :
    (∀ before, before <+: events → Counted m before) ↔
      ∀ status c, .iteration status c ∈ events → Served status := by
  constructor
  · intro h status c hmem
    obtain ⟨before, after, rfl⟩ := List.append_of_mem hmem
    have hfront : before ++ [.iteration status c] <+: before ++ .iteration status c :: after :=
      ⟨after, by rw [List.append_assoc, List.singleton_append]⟩
    exact served_of_counted (h before (List.prefix_append _ _)) (h _ hfront)
  · rintro h before ⟨after, rfl⟩
    exact counted_of_served fun status c hmem => h status c (List.mem_append_left _ hmem)

/-- The local status is left with a size of 0: the loop does not count its iteration. -/
theorem not_counted_of_uninitialised :
    ¬ ∀ (m : Monitor Unit Unit) (events : List (Event Unit Unit)) (before : List (Event Unit Unit)),
      before <+: events → Counted m before := by
  intro h
  let status : BasicStatus := { HealthStatus.zero.toBasicStatus with structSize := 0 }
  let m : Monitor Unit Unit := ⟨.zero, 0, none, (), 0, 0, 0⟩
  have htotal := (h m [.iteration status ⟨none, none, 0⟩] _ List.prefix_rfl).totalChecks
  rw [Monitor.run, Monitor.step, iterate_of_not_served (by decide)] at htotal
  exact absurd htotal (by decide)

end LgxRuntime.HealthMonitor
