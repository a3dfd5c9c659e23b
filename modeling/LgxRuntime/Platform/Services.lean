import LgxRuntime.Lib.FileMap
import LgxRuntime.Machine

/-!
# Platform services

The state of the log: its file, the size at which the file is rotated, and the token bucket that limits the
rate of messages.  `lgx_log_impl` takes a token, rotates the file if it is full, and appends the entry.
-/

namespace LgxRuntime.Platform

/-- The bytes of a path. -/
abbrev Path : Type := List Char

/-- The bytes of a file. -/
abbrev Content : Type := List Char

/-- `lgx_log_level_t`. -/
inductive LogLevel
  | debug
  | info
  | warn
  | error
  deriving DecidableEq, Repr

/-- The order of the enumeration. -/
def LogLevel.toNat : LogLevel → ℕ
  | .debug => 0
  | .info => 1
  | .warn => 2
  | .error => 3

/-- `LGX_LOG_MAX_SIZE`. -/
def logMaxSizeDefault : ℕ := 100 * 1024 * 1024

/-- `LGX_LOG_MAX_ROTATIONS`. -/
def logMaxRotations : ℕ := 5

/-- `LGX_LOG_RATE_LIMIT_DEFAULT`. -/
def logRateLimitDefault : ℕ := 1000

/-- `LGX_LOG_RATE_WINDOW_NS`. -/
def logRateWindowNs : ℕ := 1000000000

/-- `struct lgx_platform_services`.  The log file is open or `NULL`. -/
structure Services where
  logFile : Bool
  minLogLevel : LogLevel
  logPath : Option Path
  logMaxSize : ℕ
  logCurrentSize : ℕ
  logRotationEnabled : Bool
  rateLimitingEnabled : Bool
  rateLimitTokens : ℕ
  rateLimitMaxTokens : ℕ
  rateLimitRefillRate : ℕ
  rateLimitLastRefill : ℕ
  rateLimitDropped : ℕ

/-! ## Rotation -/

/-- `snprintf(buffer, 512, "%s.%d", path, i)`: what does not fit the buffer is cut off. -/
def rotatedPath (path : Path) (i : ℕ) : Path :=
  (path ++ '.' :: Nat.toDigits 10 i).take 511

/-- The renames of the loop, from `i` down to 1. -/
def shiftRotated (path : Path) : ℕ → (Path → Option Content) → Path → Option Content
  | 0, files => files
  | i + 1, files =>
      shiftRotated path i (FileMap.move files (rotatedPath path (i + 1)) (rotatedPath path (i + 2)))

/-- `rotate_log_file`. -/
def rotateLogFile (services : Services) (files : Path → Option Content) :
    Services × (Path → Option Content) :=
  match services.logPath with
  | none => (services, files)
  | some path =>
      if !services.logRotationEnabled then (services, files)
      else
        let unlinked := FileMap.unlink files (rotatedPath path (logMaxRotations - 1))
        let shifted := shiftRotated path (logMaxRotations - 2) unlinked
        let renamed := FileMap.move shifted path (rotatedPath path 1)
        ({ services with logFile := true, logCurrentSize := 0 }, FileMap.truncate renamed path)

/-! ## The rate limit -/

/-- The tokens that are due at a time. -/
def tokensToAdd (services : Services) (now : ℕ) : ℕ :=
  wrap64 (sub64 now services.rateLimitLastRefill * services.rateLimitRefillRate) / logRateWindowNs

/-- The refill of `check_rate_limit`. -/
def refill (services : Services) (now : ℕ) : Services :=
  if sub64 now services.rateLimitLastRefill > 0 ∧ tokensToAdd services now > 0 then
    let tokens := wrap64 (services.rateLimitTokens + tokensToAdd services now)
    { services with
      rateLimitTokens :=
        if tokens > services.rateLimitMaxTokens then services.rateLimitMaxTokens else tokens
      rateLimitLastRefill := now }
  else services

/-- `check_rate_limit`, at a time that the clock shows. -/
def checkRateLimit (services : Services) (now : ℕ) : Bool × Services :=
  if !services.rateLimitingEnabled then (true, services)
  else
    let refilled := refill services now
    if refilled.rateLimitTokens > 0 then
      (true, { refilled with rateLimitTokens := refilled.rateLimitTokens - 1 })
    else (false, { refilled with rateLimitDropped := wrap64 (refilled.rateLimitDropped + 1) })

/-! ## Messages -/

/-- An entry is appended to the log, or goes to `stderr`. -/
def writeEntry (services : Services) (files : Path → Option Content) (entry : Content) :
    Services × (Path → Option Content) :=
  match services.logFile, services.logPath with
  | true, some path =>
      ({ services with logCurrentSize := wrap64 (services.logCurrentSize + entry.length) },
        FileMap.append files path entry)
  | _, _ => (services, files)

/-- The log is full. -/
def rotationNeeded (services : Services) : Bool :=
  services.logFile && services.logRotationEnabled && decide (services.logCurrentSize ≥ services.logMaxSize)

/-- `lgx_log_impl`, for an entry with its timestamp. -/
def logImpl (services : Services) (files : Path → Option Content) (level : LogLevel) (now : ℕ)
    (entry : Content) : Services × (Path → Option Content) :=
  if level.toNat < services.minLogLevel.toNat then (services, files)
  else
    match checkRateLimit services now with
    | (false, limited) => (limited, files)
    | (true, limited) =>
        let rotated := if rotationNeeded limited then rotateLogFile limited files else (limited, files)
        writeEntry rotated.1 rotated.2 entry

/-! ## Configuration -/

/-- `lgx_platform_services_init`, with a log that can be opened. -/
def servicesInit (path : Path) (now : ℕ) (files : Path → Option Content) :
    Services × (Path → Option Content) :=
  let opened := FileMap.append files path []
  ({ logFile := true
     minLogLevel := .info
     logPath := some path
     logMaxSize := logMaxSizeDefault
     logCurrentSize := ((opened path).getD []).length
     logRotationEnabled := true
     rateLimitingEnabled := true
     rateLimitTokens := logRateLimitDefault
     rateLimitMaxTokens := logRateLimitDefault
     rateLimitRefillRate := logRateLimitDefault
     rateLimitLastRefill := now
     rateLimitDropped := 0 }, opened)

/-- `lgx_set_log_filter`. -/
def setLogFilter (services : Services) (level : LogLevel) : Services :=
  { services with minLogLevel := level }

/-- `lgx_set_log_max_size`. -/
def setLogMaxSize (services : Services) (size : ℕ) : Services :=
  { services with logMaxSize := size }

/-- `lgx_set_log_rotation_enabled`. -/
def setLogRotationEnabled (services : Services) (enabled : Bool) : Services :=
  { services with logRotationEnabled := enabled }

/-- `lgx_set_log_rate_limiting_enabled`. -/
def setLogRateLimitingEnabled (services : Services) (enabled : Bool) : Services :=
  { services with rateLimitingEnabled := enabled }

/-- `lgx_set_log_rate_limit`. -/
def setLogRateLimit (services : Services) (logsPerSecond : ℕ) : Services :=
  if logsPerSecond > 0 then
    { services with
      rateLimitRefillRate := logsPerSecond
      rateLimitMaxTokens := logsPerSecond
      rateLimitTokens :=
        if services.rateLimitTokens > logsPerSecond then logsPerSecond else services.rateLimitTokens }
  else services

end LgxRuntime.Platform
