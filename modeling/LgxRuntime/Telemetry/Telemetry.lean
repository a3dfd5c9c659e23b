import LgxRuntime.Machine

/-!
# Telemetry

The recorders update statistics and add events to a ring of slots that is allocated once, as telemetry is
initialised.  `lgx_telemetry_configure` sets the size that the indices of the ring are reduced by.  Behaviour
that is undefined in C, a reduction modulo zero or a store outside the ring, is `none`.
-/

namespace LgxRuntime.Telemetry

/-- `TELEMETRY_RING_BUFFER_SIZE`. -/
def telemetryRingBufferSize : ℕ := 10000

/-- The types of events with their data. -/
inductive EventData
  | frameTime (frameTimeMs : Float32)
  | memoryUsage (memoryMb : ℕ)
  | allocation (size : ℕ)
  | frameSpike (spikeMs : Float32) (cause : String)
  | allocationFailure (requestedSize : ℕ)
  | arenaOverflow (frameNumber requestedSize arenaCapacity arenaUsage : ℕ) (file : Option String) (line : ℤ)

/-- `telemetry_event_t`. -/
structure Event where
  timestampNs : ℕ
  data : EventData

/-- What `calloc` leaves in a slot. -/
def Event.zero : Event := ⟨0, .frameTime 0⟩

/-- `lgx_telemetry_overflow_t`. -/
inductive OverflowPolicy
  | dropOldest
  | dropNewest
  | sample
  deriving DecidableEq

/-- The fields of `lgx_privacy_policy_t` that the recorders read. -/
structure PrivacyPolicy where
  collectFrameTimes : Bool
  collectAllocationSizes : Bool

/-- `lgx_telemetry_config_t`. -/
structure Config where
  enabled : Bool
  ringBufferSize : ℕ
  overflowPolicy : OverflowPolicy
  adaptiveSampling : Bool
  minSampleRate : Float
  privacyPolicy : PrivacyPolicy

/-- The ring, and the events that were dropped. -/
structure EventRing where
  buffer : List Event
  head : ℕ
  tail : ℕ
  count : ℕ
  droppedEvents : ℕ

/-- The statistics. -/
structure Statistics where
  frameCount : ℕ
  totalFrameTime : Float
  maxFrameTime : Float
  minFrameTime : Float
  memoryUsageSamples : ℕ
  totalMemoryUsage : ℕ
  peakMemoryUsage : ℕ
  allocationCount : ℕ
  frameSpikeCount : ℕ

/-- `struct lgx_telemetry`. -/
structure TelemetryState where
  enabled : Bool
  userConsent : Bool
  privacyPolicy : PrivacyPolicy
  adaptiveSampling : Bool
  currentSampleRate : Float
  minSampleRate : Float
  ringBufferSize : ℕ
  overflowPolicy : OverflowPolicy
  ring : EventRing
  statistics : Statistics

/-- A ring of empty slots. -/
def EventRing.empty (size : ℕ) : EventRing where
  buffer := List.replicate size Event.zero
  head := 0
  tail := 0
  count := 0
  droppedEvents := 0

/-- `lgx_telemetry_init`. -/
def telemetryInit : TelemetryState where
  enabled := false
  userConsent := false
  privacyPolicy := { collectFrameTimes := true, collectAllocationSizes := true }
  adaptiveSampling := true
  currentSampleRate := 1.0
  minSampleRate := 0.01
  ringBufferSize := telemetryRingBufferSize
  overflowPolicy := .sample
  ring := .empty telemetryRingBufferSize
  statistics :=
    { frameCount := 0
      totalFrameTime := 0.0
      maxFrameTime := 0.0
      minFrameTime := 1000000.0
      memoryUsageSamples := 0
      totalMemoryUsage := 0
      peakMemoryUsage := 0
      allocationCount := 0
      frameSpikeCount := 0 }

/-- `lgx_telemetry_enable`. -/
def telemetryEnable (tel : TelemetryState) (userConsent : Bool) : TelemetryState :=
  { tel with userConsent := userConsent, enabled := userConsent }

/-- `lgx_telemetry_configure`. -/
def telemetryConfigure (tel : TelemetryState) (config : Config) : TelemetryState :=
  { tel with
    enabled := config.enabled
    ringBufferSize := config.ringBufferSize
    overflowPolicy := config.overflowPolicy
    adaptiveSampling := config.adaptiveSampling
    minSampleRate := config.minSampleRate
    privacyPolicy := config.privacyPolicy }

/-! ## Events -/

/-- `should_sample_event`, with the random number between 0 and 1. -/
def shouldSampleEvent (tel : TelemetryState) (random : Float) : Bool × TelemetryState :=
  if !tel.adaptiveSampling then (true, tel)
  else
    let fullness := Float.ofNat tel.ring.count / Float.ofNat tel.ringBufferSize
    let rate :=
      if fullness > 0.90 then tel.minSampleRate
      else if fullness > 0.75 then 0.10
      else if fullness > 0.50 then 0.50
      else 1.0
    (decide (random < rate), { tel with currentSampleRate := rate })

namespace EventRing

/-- An event is counted as dropped. -/
def drop (ring : EventRing) : EventRing :=
  { ring with droppedEvents := wrap64 (ring.droppedEvents + 1) }

/-- The oldest event is dropped. -/
def dropOldest (ring : EventRing) (size : ℕ) : Option EventRing :=
  if size = 0 then none
  else some { ring.drop with tail := (ring.tail + 1) % size, count := ring.count - 1 }

/-- The event is stored at the head. -/
def push (ring : EventRing) (size : ℕ) (event : Event) : Option EventRing :=
  if ring.head < ring.buffer.length ∧ size ≠ 0 then
    some { ring with
      buffer := ring.buffer.set ring.head event
      head := (ring.head + 1) % size
      count := ring.count + 1 }
  else none

/-- `add_telemetry_event`, once it is known whether the event is sampled. -/
def offer (ring : EventRing) (size : ℕ) (policy : OverflowPolicy) (sampled : Bool) (event : Event) :
    Option EventRing :=
  if !sampled then some ring.drop
  else if ring.count ≥ size then
    match policy with
    | .dropOldest => (ring.dropOldest size).bind fun dropped => dropped.push size event
    | .dropNewest => some ring.drop
    | .sample => some ring.drop
  else ring.push size event

end EventRing

/-- `add_telemetry_event`. -/
def addTelemetryEvent (tel : TelemetryState) (random : Float) (event : Event) : Option TelemetryState :=
  let (sampled, asked) := shouldSampleEvent tel random
  (asked.ring.offer asked.ringBufferSize asked.overflowPolicy sampled event).map fun ring =>
    { asked with ring := ring }

/-! ## Recorders -/

/-- A reading of the clock and a random number, for each event. -/
structure Draw where
  timestampNs : ℕ
  random : Float

/-- An event is recorded. -/
def addEvent (tel : TelemetryState) (draw : Draw) (data : EventData) : Option TelemetryState :=
  addTelemetryEvent tel draw.random ⟨draw.timestampNs, data⟩

/-- `lgx_telemetry_record_frame_time`, with what it draws for a spike and for the event itself. -/
def recordFrameTime (tel : TelemetryState) (spikeDraw draw : Draw) (frameTimeMs : Float32) : Option TelemetryState :=
  if tel.enabled && tel.privacyPolicy.collectFrameTimes then
    let stats := tel.statistics
    let time := frameTimeMs.toFloat
    let frameCount := wrap64 (stats.frameCount + 1)
    let totalFrameTime := stats.totalFrameTime + time
    let counted := { tel with
      statistics := { stats with
        frameCount := frameCount
        totalFrameTime := totalFrameTime
        maxFrameTime := if time > stats.maxFrameTime then time else stats.maxFrameTime
        minFrameTime := if time < stats.minFrameTime then time else stats.minFrameTime } }
    let isSpike := frameCount > 100 ∧ time > totalFrameTime / Float.ofNat frameCount * 2.0
    let checked :=
      if isSpike then
        addEvent { counted with
          statistics := { counted.statistics with
            frameSpikeCount := wrap64 (counted.statistics.frameSpikeCount + 1) } }
          spikeDraw (.frameSpike frameTimeMs "unknown")
      else some counted
    checked.bind fun tel => addEvent tel draw (.frameTime frameTimeMs)
  else some tel

/-- `lgx_telemetry_record_memory_usage`. -/
def recordMemoryUsage (tel : TelemetryState) (draw : Draw) (memoryUsageMb : ℕ) : Option TelemetryState :=
  if tel.enabled then
    let stats := tel.statistics
    addEvent { tel with
      statistics := { stats with
        memoryUsageSamples := wrap64 (stats.memoryUsageSamples + 1)
        totalMemoryUsage := wrap64 (stats.totalMemoryUsage + memoryUsageMb)
        peakMemoryUsage := if memoryUsageMb > stats.peakMemoryUsage then memoryUsageMb
          else stats.peakMemoryUsage } }
      draw (.memoryUsage memoryUsageMb)
  else some tel

/-- `lgx_telemetry_record_allocation`. -/
def recordAllocation (tel : TelemetryState) (draw : Draw) (size : ℕ) : Option TelemetryState :=
  if tel.enabled && tel.privacyPolicy.collectAllocationSizes then
    addEvent { tel with
      statistics := { tel.statistics with
        allocationCount := wrap64 (tel.statistics.allocationCount + 1) } }
      draw (.allocation size)
  else some tel

/-- `lgx_telemetry_record_allocation_failure`. -/
def recordAllocationFailure (tel : TelemetryState) (draw : Draw) (requestedSize : ℕ) : Option TelemetryState :=
  if tel.enabled then addEvent tel draw (.allocationFailure requestedSize) else some tel

/-- `lgx_telemetry_record_arena_overflow`. -/
def recordArenaOverflow (tel : TelemetryState) (draw : Draw)
    (frameNumber requestedSize arenaCapacity arenaUsage : ℕ) (file : Option String) (line : ℤ) :
    Option TelemetryState :=
  if tel.enabled then
    addEvent tel draw (.arenaOverflow frameNumber requestedSize arenaCapacity arenaUsage file line)
  else some tel

/-! ## Calls -/

/-- The calls of the interface. -/
inductive Call
  | enable (userConsent : Bool)
  | configure (config : Config)
  | recordFrameTime (spikeDraw draw : Draw) (frameTimeMs : Float32)
  | recordMemoryUsage (draw : Draw) (memoryUsageMb : ℕ)
  | recordAllocation (draw : Draw) (size : ℕ)
  | recordAllocationFailure (draw : Draw) (requestedSize : ℕ)
  | recordArenaOverflow (draw : Draw) (frameNumber requestedSize arenaCapacity arenaUsage : ℕ)
      (file : Option String) (line : ℤ)

/-- A call, under the mutex. -/
def step (tel : TelemetryState) : Call → Option TelemetryState
  | .enable userConsent => some (telemetryEnable tel userConsent)
  | .configure config => some (telemetryConfigure tel config)
  | .recordFrameTime spikeDraw draw frameTimeMs => recordFrameTime tel spikeDraw draw frameTimeMs
  | .recordMemoryUsage draw memoryUsageMb => recordMemoryUsage tel draw memoryUsageMb
  | .recordAllocation draw size => recordAllocation tel draw size
  | .recordAllocationFailure draw requestedSize => recordAllocationFailure tel draw requestedSize
  | .recordArenaOverflow draw frameNumber requestedSize arenaCapacity arenaUsage file line =>
      recordArenaOverflow tel draw frameNumber requestedSize arenaCapacity arenaUsage file line

/-- Runs whose steps meet a condition on the calls before them. -/
inductive Run (P : List Call → Call → Prop) : List Call → TelemetryState → Prop
  | init : Run P [] telemetryInit
  | step {calls : List Call} {tel tel' : TelemetryState} {call : Call} (h : Run P calls tel)
      (hcall : P calls call) (hstep : step tel call = some tel') : Run P (calls ++ [call]) tel'

theorem Run.mono {P Q : List Call → Call → Prop} {calls : List Call} {tel : TelemetryState}
    (h : Run P calls tel) (hPQ : ∀ calls call, P calls call → Q calls call) : Run Q calls tel := by
  induction h with
  | init => exact .init
  | step h hcall hstep ih => exact ih.step (hPQ _ _ hcall) hstep

/-! ## What an event changes -/

/-- The question whether an event is sampled changes neither the ring nor its size. -/
theorem shouldSampleEvent_eq (tel : TelemetryState) (random : Float) :
    ∃ rate, (shouldSampleEvent tel random).2 = { tel with currentSampleRate := rate } := by
  unfold shouldSampleEvent
  split
  · exact ⟨tel.currentSampleRate, rfl⟩
  · exact ⟨_, rfl⟩

theorem addTelemetryEvent_eq (tel : TelemetryState) (random : Float) (event : Event) :
    ∃ rate sampled, addTelemetryEvent tel random event =
      (tel.ring.offer tel.ringBufferSize tel.overflowPolicy sampled event).map fun ring =>
        { tel with currentSampleRate := rate, ring := ring } := by
  obtain ⟨rate, hasked⟩ := shouldSampleEvent_eq tel random
  cases hask : shouldSampleEvent tel random with
  | mk sampled asked =>
      rw [hask] at hasked
      refine ⟨rate, sampled, ?_⟩
      rw [addTelemetryEvent, hask]
      dsimp only at hasked ⊢
      rw [hasked]

/-- What a recorder does: it changes the statistics and adds events. -/
inductive Recording : TelemetryState → Option TelemetryState → Prop
  | done (tel : TelemetryState) : Recording tel (some tel)
  | statistics {tel : TelemetryState} {result : Option TelemetryState} (statistics : Statistics)
      (h : Recording { tel with statistics := statistics } result) : Recording tel result
  | undefined {tel : TelemetryState} (draw : Draw) (data : EventData) (hadd : addEvent tel draw data = none) :
      Recording tel none
  | event {tel tel' : TelemetryState} {result : Option TelemetryState} (draw : Draw) (data : EventData)
      (hadd : addEvent tel draw data = some tel') (h : Recording tel' result) : Recording tel result

theorem Recording.addEvent_bind {tel : TelemetryState} {draw : Draw} {data : EventData}
    {f : TelemetryState → Option TelemetryState} (hf : ∀ tel', Recording tel' (f tel')) :
    Recording tel ((addEvent tel draw data).bind f) := by
  cases hadd : addEvent tel draw data with
  | none => exact .undefined draw data hadd
  | some tel' => exact .event draw data hadd (hf tel')

theorem Recording.addEvent {tel : TelemetryState} {draw : Draw} {data : EventData} :
    Recording tel (addEvent tel draw data) := by
  have h := @Recording.addEvent_bind tel draw data some .done
  rwa [Option.bind_fun_some] at h

theorem step_recording {tel : TelemetryState} {call : Call}
    (henable : ∀ userConsent, call ≠ .enable userConsent) (hconfigure : ∀ config, call ≠ .configure config) :
    Recording tel (step tel call) := by
  cases call with
  | enable userConsent => exact absurd rfl (henable userConsent)
  | configure config => exact absurd rfl (hconfigure config)
  | recordFrameTime spikeDraw draw frameTimeMs =>
      rw [step, recordFrameTime]
      split
      · dsimp only
        split
        · exact .statistics _ (.addEvent_bind fun _ => .addEvent)
        · exact .statistics _ .addEvent
      · exact .done tel
  | recordMemoryUsage draw memoryUsageMb =>
      rw [step, recordMemoryUsage]
      split
      · exact .statistics _ .addEvent
      · exact .done tel
  | recordAllocation draw size =>
      rw [step, recordAllocation]
      split
      · exact .statistics _ .addEvent
      · exact .done tel
  | recordAllocationFailure draw requestedSize =>
      rw [step, recordAllocationFailure]
      split
      · exact .addEvent
      · exact .done tel
  | recordArenaOverflow draw frameNumber requestedSize arenaCapacity arenaUsage file line =>
      rw [step, recordArenaOverflow]
      split
      · exact .addEvent
      · exact .done tel

/-- An allocation that fails. -/
def failure : Call :=
  .recordAllocationFailure ⟨0, 0⟩ 0

/-- An event that is neither dropped nor sampled is stored at the head. -/
theorem step_failure {tel : TelemetryState} (henabled : tel.enabled = true) (hsampling : tel.adaptiveSampling = false)
    (hroom : tel.ring.count < tel.ringBufferSize) :
    step tel failure = (tel.ring.push tel.ringBufferSize ⟨0, .allocationFailure 0⟩).map fun ring =>
      { tel with ring := ring } := by
  have hasked : shouldSampleEvent tel 0 = (true, tel) := if_pos (by rw [hsampling]; rfl)
  have hoffer : tel.ring.offer tel.ringBufferSize tel.overflowPolicy true ⟨0, .allocationFailure 0⟩ =
      tel.ring.push tel.ringBufferSize ⟨0, .allocationFailure 0⟩ := by
    unfold EventRing.offer
    rw [if_neg (by decide), if_neg (not_le.mpr hroom)]
  rw [failure, step, recordAllocationFailure, if_pos henabled, addEvent, addTelemetryEvent, hasked]
  dsimp only
  rw [hoffer]

end LgxRuntime.Telemetry
