import LgxRuntime.Telemetry.Telemetry

/-!
# Consent

`lgx_telemetry_enable` sets both the consent and the flag that the recorders look at.
`lgx_telemetry_configure` sets the flag as well, and does not look at the consent.  The recorders keep to the
consent as long as a configuration only enables telemetry after the user has consented.
-/

namespace LgxRuntime.Telemetry.Consent

/-- What the call of `lgx_telemetry_enable` that a call is says about the consent. -/
def consentOf : Call → Option Bool
  | .enable userConsent => some userConsent
  | _ => none

/-- The consent of the most recent call of `lgx_telemetry_enable`, if there is one. -/
def lastConsent (calls : List Call) : Option Bool :=
  (calls.filterMap consentOf).getLast?

/-- A configuration that enables telemetry comes after the user has consented. -/
def Permitted (calls : List Call) (call : Call) : Prop :=
  ∀ config, call = .configure config → config.enabled = true → lastConsent calls = some true

/-- An event is added, or counted as dropped, or a statistic is updated. -/
def Records (tel tel' : TelemetryState) : Prop :=
  tel'.ring ≠ tel.ring ∨ tel'.statistics ≠ tel.statistics

section

variable {tel tel' : TelemetryState} {calls : List Call} {call : Call}

theorem lastConsent_append :
    lastConsent (calls ++ [call]) = (consentOf call).or (lastConsent calls) := by
  unfold lastConsent
  rw [List.filterMap_append]
  cases h : consentOf call with
  | none => simp [h]
  | some userConsent => simp [h]

theorem not_records (hring : tel'.ring = tel.ring) (hstatistics : tel'.statistics = tel.statistics) :
    ¬ Records tel tel' := by
  rintro (hne | hne)
  · exact hne hring
  · exact hne hstatistics

/-- A recorder does nothing while telemetry is disabled. -/
theorem step_of_disabled (hdisabled : tel.enabled = false) (hstep : step tel call = some tel') :
    ¬ Records tel tel' := by
  have hsame : some tel = some tel' → ¬ Records tel tel' := by
    rintro ⟨⟩
    exact not_records rfl rfl
  cases call with
  | enable userConsent =>
      cases hstep
      exact not_records rfl rfl
  | configure config =>
      cases hstep
      exact not_records rfl rfl
  | recordFrameTime spikeDraw draw frameTimeMs =>
      rw [step, recordFrameTime, hdisabled] at hstep
      exact hsame hstep
  | recordMemoryUsage draw memoryUsageMb =>
      rw [step, recordMemoryUsage, hdisabled] at hstep
      exact hsame hstep
  | recordAllocation draw size =>
      rw [step, recordAllocation, hdisabled] at hstep
      exact hsame hstep
  | recordAllocationFailure draw requestedSize =>
      rw [step, recordAllocationFailure, hdisabled] at hstep
      exact hsame hstep
  | recordArenaOverflow draw frameNumber requestedSize arenaCapacity arenaUsage file line =>
      rw [step, recordArenaOverflow, hdisabled] at hstep
      exact hsame hstep

theorem addEvent_enabled {draw : Draw} {data : EventData} (hadd : addEvent tel draw data = some tel') :
    tel'.enabled = tel.enabled := by
  obtain ⟨rate, sampled, heq⟩ := addTelemetryEvent_eq tel draw.random ⟨draw.timestampNs, data⟩
  rw [addEvent, heq] at hadd
  obtain ⟨ring, -, rfl⟩ := Option.map_eq_some_iff.mp hadd
  rfl

/-- A recorder leaves the flag alone. -/
theorem recording_enabled {result : Option TelemetryState} (h : Recording tel result)
    (hresult : result = some tel') : tel'.enabled = tel.enabled := by
  induction h with
  | done tel =>
      cases hresult
      rfl
  | statistics statistics h ih => exact ih hresult
  | undefined draw data hadd => cases hresult
  | event draw data hadd h ih => exact (ih hresult).trans (addEvent_enabled hadd)

/-- Telemetry is enabled only after the user has consented. -/
theorem lastConsent_of_enabled (h : Run Permitted calls tel) (henabled : tel.enabled = true) :
    lastConsent calls = some true := by
  induction h with
  | init => cases henabled
  | @step calls tel tel' call h hcall hstep ih =>
      rw [lastConsent_append]
      cases call with
      | enable userConsent =>
          cases hstep
          exact congrArg some henabled
      | configure config =>
          cases hstep
          exact hcall config rfl henabled
      | _ =>
          refine ih ((recording_enabled ?_ hstep).symm.trans henabled)
          exact step_recording (fun _ => Call.noConfusion) fun _ => Call.noConfusion

/-- As long as configurations enable telemetry only after the user has consented, nothing is recorded without
the consent. -/
theorem lastConsent_of_records (h : Run Permitted calls tel) (hstep : step tel call = some tel')
    (hrecords : Records tel tel') : lastConsent calls = some true := by
  refine lastConsent_of_enabled h ?_
  by_contra hdisabled
  exact step_of_disabled (Bool.eq_false_of_not_eq_true hdisabled) hstep hrecords

end

/-- A configuration that enables telemetry, after the user was asked. -/
def configured (userConsent : Bool) : TelemetryState :=
  telemetryConfigure (telemetryEnable telemetryInit userConsent) ⟨true, 10, .sample, false, 0, ⟨true, true⟩⟩

/-- The failure is recorded in any case. -/
theorem step_configured (userConsent : Bool) :
    ∃ tel', step (configured userConsent) failure = some tel' ∧ Records (configured userConsent) tel' := by
  have hstep := @step_failure (configured userConsent) rfl rfl (by decide : 0 < 10)
  have hin : (configured userConsent).ring.head < (configured userConsent).ring.buffer.length :=
    Nat.lt_of_lt_of_eq (by decide : 0 < telemetryRingBufferSize) List.length_replicate.symm
  rw [EventRing.push, if_pos ⟨hin, (by decide : 10 ≠ 0)⟩, Option.map_some] at hstep
  refine ⟨_, hstep, Or.inl fun hring => ?_⟩
  exact Nat.succ_ne_self _ (congrArg EventRing.count hring)

theorem lastConsent_of_records_consented : ∃ tel', step (configured true) failure = some tel' ∧
    Records (configured true) tel' ∧
      lastConsent [.enable true, .configure ⟨true, 10, .sample, false, 0, ⟨true, true⟩⟩] = some true := by
  have henabled : Run Permitted [.enable true] (telemetryEnable telemetryInit true) :=
    Run.init.step (by rintro config ⟨⟩) rfl
  have hrun : Run Permitted [.enable true, .configure ⟨true, 10, .sample, false, 0, ⟨true, true⟩⟩]
      (configured true) := henabled.step (fun _ _ _ => rfl) rfl
  obtain ⟨tel', hstep, hrecords⟩ := step_configured true
  exact ⟨tel', hstep, hrecords, lastConsent_of_records hrun hstep hrecords⟩

/-- A configuration enables telemetry after the user has refused it, and a failure is recorded. -/
theorem not_lastConsent_of_records :
    ¬ ∀ (calls : List Call) (tel tel' : TelemetryState) (call : Call), Run (fun _ _ => True) calls tel →
      step tel call = some tel' → Records tel tel' → lastConsent calls = some true := by
  intro hall
  have hrun : Run (fun _ _ => True) [.enable false, .configure ⟨true, 10, .sample, false, 0, ⟨true, true⟩⟩]
      (configured false) := (Run.init.step trivial rfl).step trivial rfl
  obtain ⟨tel', hstep, hrecords⟩ := step_configured false
  exact absurd (hall _ _ tel' _ hrun hstep hrecords) (by decide)

end LgxRuntime.Telemetry.Consent
