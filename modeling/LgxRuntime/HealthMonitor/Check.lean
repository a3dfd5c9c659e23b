import LgxRuntime.Runtime.Core

/-!
# The health check

`lgx_health_monitor_check` assesses the runtime from the hardware status and the counters.  The caller says
in `struct_size` which version of the status it knows; the check refuses a size that it cannot serve, and
otherwise fills in as many bytes as the caller has.

The monitoring thread runs the check in a loop, counts what it finds, and calls the registered alert
callback.  The status of the loop is a local variable.
-/

namespace LgxRuntime.HealthMonitor

open LgxRuntime.Runtime (LgxResult)

/-- `lgx_hardware_tier_t`. -/
inductive HardwareTier
  | optimal
  | compatible
  | degraded
  deriving DecidableEq

/-- `lgx_health_level_t`. -/
inductive HealthLevel
  | good
  | warning
  | critical
  | failed
  deriving DecidableEq

/-- The basic fields of a status, which every version of `lgx_health_status_t` has. -/
structure BasicStatus where
  structSize : ℕ
  overallHealth : HealthLevel
  hardwareTier : HardwareTier
  hugePagesActive : Bool
  gpuResponsive : Bool
  numaAwarenessActive : Bool
  memoryUsageMb : ℕ
  memoryLimitMb : ℕ

/-- `lgx_health_status_t`. -/
structure HealthStatus extends BasicStatus where
  allocationFailures : UInt32
  degradedFeatures : UInt32
  cpuOverheadPercent : Float
  degradationSummary : Option String
  frameArenaUsageMb : ℕ
  gpuPoolUsageMb : ℕ
  persistentHeapUsageMb : ℕ
  avgAllocLatencyNs : ℕ
  p99AllocLatencyNs : ℕ
  cacheHitRatePercent : UInt32
  approachingMemoryLimit : Bool
  highAllocationFailureRate : Bool
  highCpuOverhead : Bool

/-- `sizeof(lgx_health_status_t)`. -/
def sizeofHealthStatus : ℕ := 112

/-- `offsetof(lgx_health_status_t, memory_limit_mb) + sizeof(size_t)`. -/
def minStatusSize : ℕ := 32 + 8

/-- What `lgx_health_monitor_check` reads of an `lgx_hardware_status_t`. -/
structure HardwareStatus where
  achievedTier : HardwareTier
  hugePagesAvailable : Bool
  numaTopologyDetected : Bool
  gpuAccelerationAvailable : Bool

/-- The counters that `lgx_health_monitor_check` reads. -/
structure Counters where
  allocations : UInt64
  poolExhaustions : UInt64
  cacheHits : UInt64
  cacheMisses : UInt64

/-- What a check finds: the hardware adapter and the memory manager, if there are any, and the time. -/
structure Conditions where
  hardware : Option HardwareStatus
  memory : Option Counters
  now : ℕ

namespace HealthStatus

/-- The status after `memset`, with its size and `LGX_HEALTH_GOOD`. -/
def zero : HealthStatus where
  structSize := sizeofHealthStatus
  overallHealth := .good
  hardwareTier := .optimal
  hugePagesActive := false
  gpuResponsive := false
  numaAwarenessActive := false
  memoryUsageMb := 0
  memoryLimitMb := 0
  allocationFailures := 0
  degradedFeatures := 0
  cpuOverheadPercent := 0
  degradationSummary := none
  frameArenaUsageMb := 0
  gpuPoolUsageMb := 0
  persistentHeapUsageMb := 0
  avgAllocLatencyNs := 0
  p99AllocLatencyNs := 0
  cacheHitRatePercent := 0
  approachingMemoryLimit := false
  highAllocationFailureRate := false
  highCpuOverhead := false

/-- A feature is degraded, and the health is good no longer. -/
def warn (s : HealthStatus) (feature : UInt32) : HealthStatus :=
  { s with
    overallHealth := if s.overallHealth = .good then .warning else s.overallHealth
    degradedFeatures := s.degradedFeatures ||| (1 <<< feature) }

/-- A feature is degraded, and the health is critical. -/
def fail (s : HealthStatus) (feature : UInt32) (summary : String) : HealthStatus :=
  { s with
    overallHealth := .critical
    degradedFeatures := s.degradedFeatures ||| (1 <<< feature)
    degradationSummary := some summary }

/-- The hardware adapter. -/
def checkHardware (s : HealthStatus) (hw : HardwareStatus) : HealthStatus :=
  let s := { s with
    hardwareTier := hw.achievedTier
    hugePagesActive := hw.hugePagesAvailable
    numaAwarenessActive := hw.numaTopologyDetected
    gpuResponsive := hw.gpuAccelerationAvailable }
  match hw.achievedTier with
  | .degraded => s.fail 0 "Hardware tier degraded"
  | .compatible =>
      { s.warn 1 with degradationSummary := some "Hardware tier compatible (some features emulated)" }
  | .optimal => s

/-- The rate of allocation failures. -/
def checkFailureRate (s : HealthStatus) (allocations failures : UInt64) : HealthStatus :=
  let s := { s with allocationFailures := failures.toUInt32 }
  if 0 < allocations then
    let failureRate := failures.toFloat / allocations.toFloat
    let s := { s with highAllocationFailureRate := decide (0.01 < failureRate) }
    if 0.05 < failureRate then s.fail 2 "High allocation failure rate"
    else if 0.01 < failureRate then s.warn 3
    else s
  else s

/-- The memory usage, of which the source has an estimate only. -/
def checkUsage (s : HealthStatus) : HealthStatus :=
  let usage := s.memoryUsageMb.toFloat / s.memoryLimitMb.toFloat
  let s := { s with approachingMemoryLimit := decide (0.8 < usage) }
  if 0.95 < usage then s.fail 4 "Memory usage critical (>95%)"
  else if 0.8 < usage then s.warn 5
  else s

/-- The rate of cache hits, in 64 bits. -/
def checkCacheHits (s : HealthStatus) (hits misses : UInt64) : HealthStatus :=
  if 0 < hits + misses then { s with cacheHitRatePercent := (hits * 100 / (hits + misses)).toUInt32 }
  else s

/-- The memory manager. -/
def checkMemory (s : HealthStatus) (c : Counters) : HealthStatus :=
  let s := { s with memoryUsageMb := 150, memoryLimitMb := 16384 }
  ((s.checkFailureRate c.allocations c.poolExhaustions).checkUsage).checkCacheHits c.cacheHits c.cacheMisses

/-- The CPU overhead, of which the source has an estimate only. -/
def checkCpu (s : HealthStatus) : HealthStatus :=
  let s := { s with cpuOverheadPercent := 2.5, highCpuOverhead := decide ((5.0 : Float) < 2.5) }
  if 10.0 < s.cpuOverheadPercent then s.fail 6 "High CPU overhead (>10%)"
  else if 5.0 < s.cpuOverheadPercent then s.warn 7
  else s

/-- The default summary. -/
def summarise (s : HealthStatus) : HealthStatus :=
  match s.degradationSummary, s.overallHealth with
  | none, .good => { s with degradationSummary := some "All systems operating normally" }
  | none, .warning => { s with degradationSummary := some "Some degradation detected" }
  | _, _ => s

end HealthStatus

/-- The health assessment. -/
def Conditions.assess (c : Conditions) : HealthStatus :=
  let s := match c.hardware with
    | some hw => HealthStatus.zero.checkHardware hw
    | none => HealthStatus.zero
  let s := match c.memory with
    | some counters => s.checkMemory counters
    | none => s
  s.checkCpu.summarise

/-- What the monitor keeps: the last status, the alert callback and the statistics. -/
structure Monitor (Callback UserData : Type) where
  lastStatus : HealthStatus
  lastCheckTime : ℕ
  alertCallback : Option Callback
  alertCallbackUserData : UserData
  totalChecks : UInt64
  warningsTriggered : UInt64
  criticalsTriggered : UInt64

/-- A call of an alert callback. -/
structure Alert (Callback UserData : Type) where
  callback : Callback
  status : BasicStatus
  userData : UserData

variable {Callback UserData : Type}

/-- `lgx_health_monitor_check`.  Of the status of the caller, the basic fields are followed, which are among
those that are filled in. -/
def healthMonitorCheck (m : Monitor Callback UserData) (status : BasicStatus) (c : Conditions) :
    LgxResult × Monitor Callback UserData × BasicStatus :=
  if sizeofHealthStatus < status.structSize then (.invalidParam, m, status)
  else if status.structSize < minStatusSize then (.invalidParam, m, status)
  else
    (.success, { m with lastStatus := c.assess, lastCheckTime := c.now },
      { c.assess.toBasicStatus with structSize := status.structSize })

namespace Monitor

/-- The registered callback is called with the status of the loop. -/
def alert (m : Monitor Callback UserData) (status : BasicStatus) : List (Alert Callback UserData) :=
  match m.alertCallback with
  | some callback => [⟨callback, status, m.alertCallbackUserData⟩]
  | none => []

/-- An iteration of the loop in `health_monitoring_thread`, from what its local variable holds. -/
def iterate (m : Monitor Callback UserData) (status : BasicStatus) (c : Conditions) :
    Monitor Callback UserData × List (Alert Callback UserData) :=
  match healthMonitorCheck m status c with
  | (.success, m, status) =>
      let m := { m with totalChecks := m.totalChecks + 1 }
      match status.overallHealth with
      | .warning => ({ m with warningsTriggered := m.warningsTriggered + 1 }, m.alert status)
      | .critical => ({ m with criticalsTriggered := m.criticalsTriggered + 1 }, m.alert status)
      | _ => (m, [])
  | (_, m, _) => (m, [])

end Monitor

/-- An iteration of the loop, a check by the game, or `lgx_health_monitor_set_alert_callback`.  A callback
that is registered during an iteration counts as registered before it if the iteration finds it. -/
inductive Event (Callback UserData : Type)
  | iteration (status : BasicStatus) (c : Conditions)
  | check (status : BasicStatus) (c : Conditions)
  | setAlertCallback (callback : Option Callback) (userData : UserData)

/-- One event, with the callbacks that it calls. -/
def Monitor.step (m : Monitor Callback UserData) :
    Event Callback UserData → Monitor Callback UserData × List (Alert Callback UserData)
  | .iteration status c => m.iterate status c
  | .check status c => ((healthMonitorCheck m status c).2.1, [])
  | .setAlertCallback callback userData =>
      ({ m with alertCallback := callback, alertCallbackUserData := userData }, [])

/-- A run, with the callbacks that it calls, in order. -/
def Monitor.run (m : Monitor Callback UserData) :
    List (Event Callback UserData) → Monitor Callback UserData × List (Alert Callback UserData)
  | [] => (m, [])
  | e :: events =>
      let rest := Monitor.run (m.step e).1 events
      (rest.1, (m.step e).2 ++ rest.2)

/-! ## What is to be counted -/

/-- The size is one that the check serves. -/
def Served (status : BasicStatus) : Prop :=
  minStatusSize ≤ status.structSize ∧ status.structSize ≤ sizeofHealthStatus

instance (status : BasicStatus) : Decidable (Served status) :=
  inferInstanceAs (Decidable (_ ∧ _))

/-- The event is an iteration of the loop. -/
def Event.isIteration : Event Callback UserData → Bool
  | .iteration _ _ => true
  | _ => false

/-- The event is an iteration of the loop that finds conditions of this level. -/
def Event.isAssessed (level : HealthLevel) : Event Callback UserData → Bool
  | .iteration _ c => c.assess.overallHealth = level
  | _ => false

/-- The calls that are due: one in every iteration that finds a warning or worse, of the callback that was
registered last, with the user data registered along with it. -/
def alertsDue : Option Callback → UserData → List (Event Callback UserData) → List (Alert Callback UserData)
  | _, _, [] => []
  | callback, userData, .iteration status c :: events =>
      (match callback, c.assess.overallHealth with
        | some callback, .warning | some callback, .critical =>
            [⟨callback, { c.assess.toBasicStatus with structSize := status.structSize }, userData⟩]
        | _, _ => []) ++ alertsDue callback userData events
  | callback, userData, .check _ _ :: events => alertsDue callback userData events
  | _, _, .setAlertCallback callback userData :: events => alertsDue callback userData events

/-- Nothing is missed: every iteration is counted, those with warnings and with critical assessments are
counted as such, and exactly the calls that are due are made. -/
structure Counted (m : Monitor Callback UserData) (events : List (Event Callback UserData)) : Prop where
  totalChecks : (m.run events).1.totalChecks = m.totalChecks + .ofNat (events.countP Event.isIteration)
  warnings : (m.run events).1.warningsTriggered =
    m.warningsTriggered + .ofNat (events.countP (Event.isAssessed .warning))
  criticals : (m.run events).1.criticalsTriggered =
    m.criticalsTriggered + .ofNat (events.countP (Event.isAssessed .critical))
  alerts : (m.run events).2 = alertsDue m.alertCallback m.alertCallbackUserData events

end LgxRuntime.HealthMonitor
