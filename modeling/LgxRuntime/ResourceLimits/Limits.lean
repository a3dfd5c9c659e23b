import LgxRuntime.Machine

/-!
# Resource limits

The runtime keeps one record of its limits and of what is counted against them: the bytes that were
tracked, the calls in the current window of the rate limit, and the rotated logs.  The counters are atomic
words of 64 bits.  `lgx_resource_limits_init` sets the limits, by default or from a configuration, and
clears the counters.

`setrlimit`, whose errors are ignored, and the mutex are left out.  The characters of a path stand for
bytes.
-/

namespace LgxRuntime.ResourceLimits

/-- `DEFAULT_MAX_MEMORY_BYTES`. -/
def defaultMaxMemoryBytes : ℕ := 16 * 1024 * 1024 * 1024

/-- `DEFAULT_MAX_FILE_HANDLES`. -/
def defaultMaxFileHandles : ℕ := 1024

/-- `DEFAULT_MAX_LOG_SIZE_BYTES`. -/
def defaultMaxLogSizeBytes : ℕ := 100 * 1024 * 1024

/-- `DEFAULT_MAX_ALLOCATIONS_PER_SEC`. -/
def defaultMaxAllocationsPerSec : ℕ := 1000000

/-- `RATE_LIMIT_WINDOW_NS`. -/
def rateLimitWindowNs : ℕ := 1000000000

/-- `sizeof(log_file_path) - 1`. -/
def maxLogPathLength : ℕ := 255

/-- `lgx_resource_limits_config_t`. -/
structure Config where
  maxMemoryBytes : ℕ
  maxFileHandles : ℕ
  maxLogSizeBytes : ℕ
  maxAllocationsPerSec : ℕ
  logFilePath : Option String

/-- `lgx_resource_limits_t`. -/
structure Limits where
  initialized : Bool
  maxMemoryBytes : ℕ
  currentMemoryBytes : ℕ
  peakMemoryBytes : ℕ
  maxFileHandles : ℕ
  currentFileHandles : ℕ
  maxLogSizeBytes : ℕ
  currentLogSizeBytes : ℕ
  logFilePath : String
  logRotationCount : ℕ
  maxAllocationsPerSec : ℕ
  allocationCount : ℕ
  lastResetTimeNs : ℕ
  rateLimitViolations : ℕ
  memoryLimitHits : ℕ
  fileHandleLimitHits : ℕ
  logRotationCountTotal : ℕ

/-- `lgx_result_t`, as far as it is returned here. -/
inductive Result
  | success
  | alreadyInitialized
  | notInitialized
  | ioError
  deriving DecidableEq

/-- A limit of the configuration, where there is one that is not zero, and otherwise the default. -/
def limitOr (config : Option Config) (limit : Config → ℕ) (default : ℕ) : ℕ :=
  (config.map limit).elim default fun n => if n > 0 then n else default

/-- The path of the log, cut to the length of its buffer. -/
def logPath (config : Option Config) : String :=
  (config.bind fun c => c.logFilePath).elim "/tmp/lgx_runtime.log" fun path =>
    String.ofList (path.toList.take maxLogPathLength)

/-- `lgx_resource_limits_init` at a time. -/
def Limits.init (limits : Limits) (config : Option Config) (now : ℕ) : Result × Limits :=
  if limits.initialized then (.alreadyInitialized, limits)
  else
    (.success,
      { initialized := true
        maxMemoryBytes := limitOr config Config.maxMemoryBytes defaultMaxMemoryBytes
        currentMemoryBytes := 0
        peakMemoryBytes := 0
        maxFileHandles := limitOr config Config.maxFileHandles defaultMaxFileHandles
        currentFileHandles := 0
        maxLogSizeBytes := limitOr config Config.maxLogSizeBytes defaultMaxLogSizeBytes
        currentLogSizeBytes := 0
        logFilePath := logPath config
        logRotationCount := 0
        maxAllocationsPerSec := limitOr config Config.maxAllocationsPerSec defaultMaxAllocationsPerSec
        allocationCount := 0
        lastResetTimeNs := now
        rateLimitViolations := 0
        memoryLimitHits := 0
        fileHandleLimitHits := 0
        logRotationCountTotal := 0 })

/-- The record before the first call. -/
def blank : Limits :=
  ⟨false, 0, 0, 0, 0, 0, 0, 0, "", 0, 0, 0, 0, 0, 0, 0, 0⟩

/-- The limits of a configuration, as they stand after `lgx_resource_limits_init`. -/
def started (config : Option Config) (now : ℕ) : Limits :=
  (blank.init config now).2

end LgxRuntime.ResourceLimits
