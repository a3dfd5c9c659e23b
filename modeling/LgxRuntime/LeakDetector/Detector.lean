import LgxRuntime.Machine
import LgxRuntime.Runtime.Core
import Mathlib.Data.Rat.Init

/-!
# The leak detector

The detector compares each memory sample with the one before it.  If the total has grown by the threshold
factor ten times in a row, it reports a leak, once, and names the allocator that has grown most.  The last 60
samples are kept in a ring.

The growth factor is a `float` in the source.  Here it is an element of a type `Rate`: `rate total prev` is
`(float)total / (float)prev`, and `suspicious` says that a factor is at least
`LGX_LEAK_DETECTOR_GROWTH_THRESHOLD`.
-/

namespace LgxRuntime.LeakDetection

open LgxRuntime.Runtime (LgxResult)

/-- `LGX_LEAK_DETECTOR_WINDOW_SIZE`. -/
def windowSize : ℕ := 60

/-- `LGX_LEAK_DETECTOR_SUSTAINED_GROWTH_COUNT`. -/
def sustainedGrowthCount : ℕ := 10

/-- The allocators, in the order in which they are compared. -/
inductive Allocator
  | frameArena
  | gpuPool
  | persistentHeap
  deriving DecidableEq

/-- The name of an allocator. -/
def Allocator.name : Allocator → String
  | .frameArena => "frame_arena"
  | .gpuPool => "gpu_pool"
  | .persistentHeap => "persistent_heap"

/-- `lgx_memory_sample_t`. -/
structure MemorySample where
  timestampNs : UInt64
  totalBytes : UInt64
  frameArenaBytes : UInt64
  gpuPoolBytes : UInt64
  persistentHeapBytes : UInt64

/-- The bytes of one allocator. -/
def MemorySample.bytes (sample : MemorySample) : Allocator → UInt64
  | .frameArena => sample.frameArenaBytes
  | .gpuPool => sample.gpuPoolBytes
  | .persistentHeap => sample.persistentHeapBytes

/-- `lgx_leak_alert_t`. -/
structure LeakAlert (Rate : Type) where
  growthRate : Rate
  suspectedAllocator : Allocator
  currentBytes : UInt64
  consecutiveGrowthCount : ℤ

/-- `g_leak_detector`.  A callback is registered with its user data; `suspectedAllocator` is `NULL` at first. -/
structure LeakDetector (Rate Callback : Type) where
  initialized : Bool
  samples : List MemorySample
  sampleCount : ℕ
  sampleIndex : ℕ
  leakDetected : Bool
  consecutiveGrowthCount : ℤ
  growthRate : Rate
  suspectedAllocator : Option Allocator
  totalSamples : UInt64
  leakAlerts : UInt64
  alertCallback : Option Callback

variable {Rate Callback : Type}

/-- The zero bytes of a sample that was not taken. -/
def noSample : MemorySample :=
  ⟨0, 0, 0, 0, 0⟩

/-- `lgx_leak_detector_init`, when the mutex can be initialised; `zero` is the rate 0. -/
def leakDetectorInit (zero : Rate) : LeakDetector Rate Callback where
  initialized := true
  samples := List.replicate windowSize noSample
  sampleCount := 0
  sampleIndex := 0
  leakDetected := false
  consecutiveGrowthCount := 0
  growthRate := zero
  suspectedAllocator := none
  totalSamples := 0
  leakAlerts := 0
  alertCallback := none

/-- The difference `sample - prev` of the bytes of an allocator, in `size_t`. -/
def growth (prev sample : MemorySample) (a : Allocator) : UInt64 :=
  sample.bytes a - prev.bytes a

/-- Which allocator is growing. -/
def suspect (prev sample : MemorySample) : Allocator :=
  let frameGrowth := growth prev sample .frameArena
  let gpuGrowth := growth prev sample .gpuPool
  let heapGrowth := growth prev sample .persistentHeap
  if gpuGrowth < frameGrowth ∧ heapGrowth < frameGrowth then .frameArena
  else if heapGrowth < gpuGrowth then .gpuPool
  else .persistentHeap

/-- The total has grown by the threshold factor. -/
def grows (rate : UInt64 → UInt64 → Rate) (suspicious : Rate → Bool) (prev sample : MemorySample) : Bool :=
  decide (prev.totalBytes < sample.totalBytes) && suspicious (rate sample.totalBytes prev.totalBytes)

namespace LeakDetector

/-- The total has grown by the threshold factor once more. -/
def grown (d : LeakDetector Rate Callback) (rate : UInt64 → UInt64 → Rate) (prev sample : MemorySample) :
    LeakDetector Rate Callback × Option (Callback × LeakAlert Rate) :=
  let d := { d with
    consecutiveGrowthCount := wrapInt32 (d.consecutiveGrowthCount + 1)
    growthRate := rate sample.totalBytes prev.totalBytes
    suspectedAllocator := some (suspect prev sample) }
  if (sustainedGrowthCount : ℤ) ≤ d.consecutiveGrowthCount ∧ d.leakDetected = false then
    ({ d with leakDetected := true, leakAlerts := d.leakAlerts + 1 },
      d.alertCallback.map fun callback =>
        (callback, ⟨d.growthRate, suspect prev sample, sample.totalBytes, d.consecutiveGrowthCount⟩))
  else (d, none)

/-- The growth is normal, or the memory has decreased or stayed the same. -/
def reset (d : LeakDetector Rate Callback) : LeakDetector Rate Callback :=
  { d with consecutiveGrowthCount := 0, leakDetected := false }

/-- `lgx_leak_detector_set_alert_callback`. -/
def setAlertCallback (d : LeakDetector Rate Callback) (callback : Option Callback) : LeakDetector Rate Callback :=
  if !d.initialized then d else { d with alertCallback := callback }

/-- The sample is put into the ring. -/
def push (d : LeakDetector Rate Callback) (sample : MemorySample) : LeakDetector Rate Callback :=
  { d with
    samples := d.samples.set d.sampleIndex sample
    sampleIndex := (d.sampleIndex + 1) % windowSize
    sampleCount := if d.sampleCount < windowSize then d.sampleCount + 1 else d.sampleCount
    totalSamples := d.totalSamples + 1 }

/-- `lgx_leak_detector_add_sample`, with the callback that is called, if any, and its alert. -/
def addSample (d : LeakDetector Rate Callback) (rate : UInt64 → UInt64 → Rate) (suspicious : Rate → Bool)
    (sample : MemorySample) : LgxResult × LeakDetector Rate Callback × Option (Callback × LeakAlert Rate) :=
  if !d.initialized then (.notInitialized, d, none)
  else
    let d := d.push sample
    if 2 ≤ d.sampleCount then
      let prev := d.samples.getD ((d.sampleIndex + windowSize - 2) % windowSize) noSample
      if grows rate suspicious prev sample then (.success, d.grown rate prev sample)
      else (.success, d.reset, none)
    else (.success, d, none)

/-- The detector after some samples. -/
def addSamples (d : LeakDetector Rate Callback) (rate : UInt64 → UInt64 → Rate) (suspicious : Rate → Bool)
    (samples : List MemorySample) : LeakDetector Rate Callback :=
  samples.foldl (fun d sample => (d.addSample rate suspicious sample).2.1) d

end LeakDetector

/-- The transitions between consecutive samples: whether the total has grown by the threshold factor. -/
def transitions (rate : UInt64 → UInt64 → Rate) (suspicious : Rate → Bool) : List MemorySample → List Bool
  | prev :: sample :: samples =>
      grows rate suspicious prev sample :: transitions rate suspicious (sample :: samples)
  | _ => []

/-- A growth factor without rounding. -/
def quotient (total prev : UInt64) : ℚ :=
  total.toNat / prev.toNat

/-- A growth by 5 % or more. -/
def atLeastThreshold (growth : ℚ) : Bool :=
  decide (21 / 20 ≤ growth)

end LgxRuntime.LeakDetection
