import LgxRuntime.Telemetry.Telemetry

/-!
# Stores to the ring

`lgx_telemetry_configure` changes the size that the head is reduced by, and leaves the ring as it was
allocated.  The stores stay in the ring as long as no size is larger than it, and no reduction is modulo zero
as long as the size is 0 only under a policy that drops the new event.  Under a larger size the head runs
out of the ring.
-/

namespace LgxRuntime.Telemetry.RingSafety

/-- A size that the ring has slots for; a ring of no slots never drops its oldest event. -/
def Fits (size : ℕ) (policy : OverflowPolicy) : Prop :=
  size ≤ telemetryRingBufferSize ∧ (size = 0 → policy ≠ .dropOldest)

/-- A call that configures a size that fits, or any other call. -/
def FitsCall (_ : List Call) (call : Call) : Prop :=
  ∀ config, call = .configure config → Fits config.ringBufferSize config.overflowPolicy

/-- The head is in the ring. -/
structure Sound (ring : EventRing) : Prop where
  length : ring.buffer.length = telemetryRingBufferSize
  head_lt : ring.head < telemetryRingBufferSize

/-! ## Sizes that fit -/

section

variable {ring : EventRing} {size : ℕ} {policy : OverflowPolicy} {event : Event} {tel tel' : TelemetryState}
  {calls : List Call} {call : Call}

theorem Sound.push (h : Sound ring) (hfits : size ≤ telemetryRingBufferSize) (hsize : size ≠ 0) :
    ∃ ring', ring.push size event = some ring' ∧ Sound ring' := by
  have hhead : ring.head < ring.buffer.length := h.head_lt.trans_eq h.length.symm
  refine ⟨_, if_pos ⟨hhead, hsize⟩, List.length_set.trans h.length, ?_⟩
  exact (Nat.mod_lt _ (Nat.pos_of_ne_zero hsize)).trans_le hfits

/-- An event is added without undefined behaviour. -/
theorem Sound.offer (h : Sound ring) (hfits : Fits size policy) (sampled : Bool) :
    ∃ ring', ring.offer size policy sampled event = some ring' ∧ Sound ring' := by
  have hdrop : Sound ring.drop := ⟨h.length, h.head_lt⟩
  cases sampled with
  | false => exact ⟨_, rfl, hdrop⟩
  | true =>
      unfold EventRing.offer
      rw [if_neg (by decide)]
      by_cases hfull : ring.count ≥ size
      · rw [if_pos hfull]
        cases policy with
        | dropOldest =>
            have hsize : size ≠ 0 := fun hzero => hfits.2 hzero rfl
            have hdropped : ring.dropOldest size = some
                { ring.drop with tail := (ring.tail + 1) % size, count := ring.count - 1 } := if_neg hsize
            dsimp only
            rw [hdropped, Option.bind_some]
            exact Sound.push ⟨h.length, h.head_lt⟩ hfits.1 hsize
        | dropNewest => exact ⟨_, rfl, hdrop⟩
        | sample => exact ⟨_, rfl, hdrop⟩
      · rw [if_neg hfull]
        exact h.push hfits.1 (by omega)

/-- What the calls keep. -/
def SoundState (tel : TelemetryState) : Prop :=
  Sound tel.ring ∧ Fits tel.ringBufferSize tel.overflowPolicy

theorem SoundState.addEvent (h : SoundState tel) (draw : Draw) (data : EventData) :
    ∃ tel', addEvent tel draw data = some tel' ∧ SoundState tel' := by
  obtain ⟨rate, sampled, hadd⟩ := addTelemetryEvent_eq tel draw.random ⟨draw.timestampNs, data⟩
  obtain ⟨ring, hoffer, hsound⟩ := @Sound.offer _ _ _ ⟨draw.timestampNs, data⟩ h.1 h.2 sampled
  rw [hoffer, Option.map_some] at hadd
  exact ⟨_, hadd, hsound, h.2⟩

theorem SoundState.recording {result : Option TelemetryState} (h : SoundState tel)
    (hrecording : Recording tel result) : ∃ tel', result = some tel' ∧ SoundState tel' := by
  induction hrecording with
  | done tel => exact ⟨tel, rfl, h⟩
  | statistics statistics _ ih => exact ih h
  | undefined draw data hadd =>
      obtain ⟨tel', hsome, -⟩ := h.addEvent draw data
      rw [hadd] at hsome
      cases hsome
  | event draw data hadd _ ih =>
      obtain ⟨tel', hsome, hsound⟩ := h.addEvent draw data
      rw [hadd] at hsome
      cases hsome
      exact ih hsound

/-- A call whose size fits keeps the ring in order. -/
theorem SoundState.step (h : SoundState tel) (hcall : FitsCall calls call) :
    ∃ tel', step tel call = some tel' ∧ SoundState tel' := by
  cases call with
  | enable userConsent => exact ⟨_, rfl, h⟩
  | configure config => exact ⟨_, rfl, h.1, hcall config rfl⟩
  | _ => exact h.recording (step_recording (fun _ => Call.noConfusion) fun _ => Call.noConfusion)

theorem soundState_of_run (h : Run FitsCall calls tel) : SoundState tel := by
  induction h with
  | init => exact ⟨⟨List.length_replicate, by decide⟩, le_refl _, by decide⟩
  | step h hcall hstep ih =>
      obtain ⟨tel', hsome, hsound⟩ := ih.step hcall
      rw [hstep] at hsome
      cases hsome
      exact hsound

/-- As long as all sizes fit, every call is without undefined behaviour. -/
theorem exists_step_of_run (h : Run FitsCall calls tel) (hcall : FitsCall calls call) :
    ∃ tel', step tel call = some tel' := by
  obtain ⟨tel', hstep, -⟩ := (soundState_of_run h).step hcall
  exact ⟨tel', hstep⟩

end

/-! ## Sizes that do not fit -/

section

variable {config : Config} {tel : TelemetryState}

/-- Only this configuration, or another call. -/
def OnlyConfig (config : Config) (_ : List Call) (call : Call) : Prop :=
  ∀ other, call = .configure other → other = config

/-- Without sampling, a size that is larger than the ring lets the head run up to the end of it. -/
theorem exists_run_head (henabled : config.enabled = true) (hsampling : config.adaptiveSampling = false)
    (hsize : telemetryRingBufferSize < config.ringBufferSize) {k : ℕ} (hk : k ≤ telemetryRingBufferSize) :
    ∃ calls tel, Run (OnlyConfig config) calls tel ∧ tel.enabled = true ∧ tel.adaptiveSampling = false ∧
      tel.ringBufferSize = config.ringBufferSize ∧ tel.ring.buffer.length = telemetryRingBufferSize ∧
        tel.ring.head = k ∧ tel.ring.count = k := by
  induction k with
  | zero =>
      refine ⟨_, _, Run.init.step ?_ (rfl : step telemetryInit (.configure config) = _), henabled, hsampling, rfl,
        List.length_replicate, rfl, rfl⟩
      rintro other ⟨⟩
      rfl
  | succ k ih =>
      obtain ⟨calls, tel, hrun, henabled, hsampling, hring, hlength, hhead, hcount⟩ := ih (by omega)
      have hpush : tel.ring.push tel.ringBufferSize ⟨0, .allocationFailure 0⟩ = some _ :=
        if_pos ⟨by omega, by omega⟩
      have hstep := step_failure henabled hsampling (by omega)
      rw [hpush, Option.map_some] at hstep
      refine ⟨_, _, hrun.step (by rintro other ⟨⟩) hstep, henabled, hsampling, hring, ?_, ?_, ?_⟩
      · exact List.length_set.trans hlength
      · dsimp only
        rw [hhead, hring, Nat.mod_eq_of_lt (by omega)]
      · dsimp only
        rw [hcount]

/-- Every configuration that does not fit leads to undefined behaviour. -/
theorem exists_undefined (henabled : config.enabled = true) (hsampling : config.adaptiveSampling = false)
    (hfits : ¬ Fits config.ringBufferSize config.overflowPolicy) :
    ∃ calls tel, Run (OnlyConfig config) calls tel ∧ step tel failure = none := by
  by_cases hsize : telemetryRingBufferSize < config.ringBufferSize
  · obtain ⟨calls, tel, hrun, htel, hoff, hring, hlength, hhead, hcount⟩ :=
      exists_run_head henabled hsampling hsize (le_refl _)
    have hout : tel.ring.push tel.ringBufferSize ⟨0, .allocationFailure 0⟩ = none :=
      if_neg fun h => by omega
    refine ⟨calls, tel, hrun, ?_⟩
    rw [step_failure htel hoff (by omega), hout]
    rfl
  · -- the size is 0, and the oldest event is dropped
    unfold Fits at hfits
    push Not at hfits
    obtain ⟨hzero, hpolicy⟩ := hfits (not_lt.mp hsize)
    have hasked : shouldSampleEvent (telemetryConfigure telemetryInit config) 0 =
        (true, telemetryConfigure telemetryInit config) := if_pos (by rw [telemetryConfigure, hsampling]; rfl)
    have hon : (telemetryConfigure telemetryInit config).enabled = true := henabled
    refine ⟨_, _, Run.init.step ?_ (rfl : step telemetryInit (.configure config) = _), ?_⟩
    · rintro other ⟨⟩
      rfl
    · rw [failure, step, recordAllocationFailure, if_pos hon, addEvent, addTelemetryEvent, hasked]
      dsimp only [telemetryConfigure]
      rw [hzero, hpolicy]
      rfl

end

/-- An event after a size of 9000. -/
theorem exists_step_of_run_smaller : ∃ calls tel,
    Run FitsCall calls tel ∧ tel.ringBufferSize = 9000 ∧ ∃ tel', step tel failure = some tel' := by
  have hfits : FitsCall [] (.configure ⟨true, 9000, .dropOldest, false, 0, ⟨true, true⟩⟩) := by
    rintro config ⟨⟩
    exact ⟨by decide, fun h => absurd h (by decide)⟩
  have hrun := Run.init.step hfits rfl
  exact ⟨_, _, hrun, rfl, exists_step_of_run hrun (by rintro config ⟨⟩)⟩

/-- A larger ring of 50000 events is written behind its end. -/
theorem not_exists_step_larger :
    ¬ ∀ (calls : List Call) (tel : TelemetryState) (call : Call), Run (fun _ _ => True) calls tel →
      ∃ tel', step tel call = some tel' := by
  intro hall
  obtain ⟨calls, tel, hrun, hnone⟩ := @exists_undefined ⟨true, 50000, .dropOldest, false, 0, ⟨true, true⟩⟩ rfl rfl
    fun h => absurd h.1 (by decide)
  obtain ⟨tel', hsome⟩ := hall calls tel failure (hrun.mono fun _ _ _ => trivial)
  rw [hnone] at hsome
  cases hsome

end LgxRuntime.Telemetry.RingSafety
