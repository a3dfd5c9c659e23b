import LgxRuntime.Lib.History
import LgxRuntime.Runtime.Core
import Mathlib.Logic.Function.Basic

/-!
# The error handler

`lgx_error_handler_set_error` records the last error of the calling thread and calls back.  There are two
places where a callback is registered: a process-wide variable, and the handler of the runtime, which
`lgx_runtime_init` creates and `lgx_runtime_shutdown` destroys.  `lgx_set_error_handler` registers with both.
-/

namespace LgxRuntime.ErrorHandler

open Function (update)
open LgxRuntime.Runtime (LgxResult)

/-- What is reported as an error: an `lgx_result_t`, or a number that is none. -/
inductive ErrorCode
  | result (result : LgxResult)
  | other (n : ℤ)
  deriving DecidableEq

/-- `lgx_error_severity_t`. -/
inductive Severity
  | warning
  | error
  | fatal
  deriving DecidableEq

/-- `lgx_recovery_action_t`. -/
inductive RecoveryAction
  | retry
  | degrade
  | abort
  | shutdown
  deriving DecidableEq

/-- `lgx_error_metadata_t`. -/
structure ErrorMetadata where
  code : LgxResult
  severity : Severity
  recovery : RecoveryAction
  recoverySteps : String
  recoverable : Bool

/-- `g_error_metadata`. -/
def errorMetadata : List ErrorMetadata :=
  [⟨.success, .warning, .retry, "No error occurred", true⟩,
    ⟨.invalidParam, .error, .abort,
      "Check function parameters and ensure they are valid. Verify pointers are non-NULL and values are in " ++
        "valid ranges.", true⟩,
    ⟨.notInitialized, .error, .retry,
      "Call lgx_runtime_init() before using any other runtime functions.", true⟩,
    ⟨.alreadyInitialized, .warning, .retry,
      "Runtime is already initialized. Call lgx_runtime_shutdown() first if you need to reinitialize.", true⟩,
    ⟨.incompatibleVersion, .fatal, .shutdown,
      "Runtime version is incompatible with application. Update runtime library or rebuild application with " ++
        "matching headers.", false⟩,
    ⟨.outOfMemory, .error, .degrade,
      "System is out of memory. Free unused allocations, reduce memory pool sizes, or enable graceful " ++
        "degradation mode.", true⟩,
    ⟨.ioError, .error, .retry,
      "I/O operation failed. Check file permissions, disk space, and filesystem health. Retry operation after " ++
        "resolving issues.", true⟩,
    ⟨.notSupported, .warning, .degrade,
      "Feature not supported on this hardware/platform. Runtime will use software fallback if available.",
      true⟩,
    ⟨.libraryVersionMismatch, .fatal, .shutdown,
      "Dependent library version mismatch detected. Update system libraries or use pinned library versions.",
      false⟩,
    ⟨.gpuUnavailable, .warning, .degrade,
      "GPU acceleration unavailable. Runtime will use CPU fallback. Check GPU drivers and Vulkan " ++
        "installation.", true⟩,
    ⟨.resourceLimitExceeded, .error, .degrade,
      "Resource limit exceeded. Reduce allocation rate, increase pool sizes, or enable resource throttling.",
      true⟩,
    ⟨.hardwareDegraded, .warning, .degrade,
      "Hardware features degraded. Enable huge pages, configure NUMA, or update GPU drivers for optimal " ++
        "performance.", true⟩,
    ⟨.intentValidationFailed, .warning, .retry,
      "Allocation intent validation failed. Review allocation patterns and adjust intent hints for better " ++
        "performance.", true⟩,
    ⟨.systemError, .error, .retry,
      "System error occurred. Check system logs (dmesg, journalctl) for details. May require system " ++
        "administrator intervention.", true⟩,
    ⟨.invalidState, .error, .abort,
      "Runtime is in invalid state for this operation. Ensure proper initialization and operation " ++
        "sequencing.", true⟩,
    ⟨.timeout, .error, .retry,
      "Operation timed out. Retry with longer timeout, reduce system load, or check for deadlocks.", true⟩,
    ⟨.notFound, .error, .abort, "Requested resource not found. Verify resource exists and is accessible.",
      true⟩]

/-- `default_metadata`. -/
def defaultMetadata : ErrorMetadata :=
  ⟨.systemError, .error, .abort, "Unknown error occurred. Check logs for details.", true⟩

/-- `get_error_metadata`. -/
def getErrorMetadata (error : ErrorCode) : ErrorMetadata :=
  (errorMetadata.find? fun metadata => .result metadata.code = error).getD defaultMetadata

/-- `lgx_result_to_string`. -/
def lgxResultToString : ErrorCode → String
  | .result .success => "Success"
  | .result .invalidParam => "Invalid parameter"
  | .result .notInitialized => "Runtime not initialized"
  | .result .alreadyInitialized => "Runtime already initialized"
  | .result .incompatibleVersion => "Incompatible version"
  | .result .outOfMemory => "Out of memory"
  | .result .ioError => "I/O error"
  | .result .notSupported => "Operation not supported"
  | .result .libraryVersionMismatch => "Library version mismatch"
  | .result .gpuUnavailable => "GPU unavailable"
  | .result .resourceLimitExceeded => "Resource limit exceeded"
  | .result .hardwareDegraded => "Hardware degraded"
  | .result .intentValidationFailed => "Intent validation failed"
  | .result .systemError => "System error"
  | .result .invalidState => "Invalid state"
  | .result .timeout => "Timeout"
  | .result .notFound => "Not found"
  | .other _ => "Unknown error"

/-- Every result has its own entry, and no other result. -/
theorem getErrorMetadata_code (result : LgxResult) : (getErrorMetadata (.result result)).code = result := by
  cases result <;> rfl

/-- Only what is fatal cannot be recovered from. -/
theorem getErrorMetadata_recoverable (error : ErrorCode) :
    (getErrorMetadata error).recoverable = false ↔ (getErrorMetadata error).severity = .fatal := by
  have htable : ∀ metadata ∈ errorMetadata, metadata.recoverable = false ↔ metadata.severity = .fatal := by
    decide
  unfold getErrorMetadata
  cases hfind : errorMetadata.find? fun metadata => .result metadata.code = error with
  | none => decide
  | some metadata => exact htable metadata (List.mem_of_find?_eq_some hfind)

/-- What a caller of `lgx_error_handler_set_error` passes, and the time. -/
structure Report where
  error : ErrorCode
  function : String
  file : String
  line : ℤ
  now : ℕ

/-- `lgx_error_context_ex_t`. -/
structure ErrorContext where
  errorCode : ErrorCode
  errorMessage : String
  functionName : String
  fileName : String
  lineNumber : ℤ
  timestampNs : ℕ
  severity : Severity
  suggestedAction : RecoveryAction
  recoverySteps : String
  recoverable : Bool

/-- The context that a report leaves. -/
def Report.context (report : Report) : ErrorContext where
  errorCode := report.error
  errorMessage := lgxResultToString report.error
  functionName := report.function
  fileName := report.file
  lineNumber := report.line
  timestampNs := report.now
  severity := (getErrorMetadata report.error).severity
  suggestedAction := (getErrorMetadata report.error).recovery
  recoverySteps := (getErrorMetadata report.error).recoverySteps
  recoverable := (getErrorMetadata report.error).recoverable

/-- A registered callback, which may be `NULL`, with its user data, which may be `NULL` as well. -/
structure Registration (Callback UserData : Type) where
  callback : Option Callback
  userData : Option UserData

/-- A call of a callback. -/
structure Invocation (Callback UserData : Type) where
  callback : Callback
  context : ErrorContext
  userData : Option UserData

/-- The variables of the error handler, the handler of the runtime, and whether the runtime is initialised.
The handler of a runtime is nothing but its registration. -/
structure State (Thread Callback UserData : Type) where
  lastError : Thread → Option ErrorContext
  globalCallback : Registration Callback UserData
  errorHandler : Option (Registration Callback UserData)
  initialized : Bool

variable {Thread Callback UserData : Type} [DecidableEq Thread]

/-- The registered callback is called with its user data, unless it is `NULL`. -/
def Registration.invoke (r : Registration Callback UserData) (context : ErrorContext) :
    List (Invocation Callback UserData) :=
  match r.callback with
  | some callback => [⟨callback, context, r.userData⟩]
  | none => []

/-- `lgx_error_handler_init`, which leaves the callback `NULL`. -/
def lgxErrorHandlerInit : Registration Callback UserData :=
  ⟨none, none⟩

namespace State

/-- `lgx_error_handler_set_error`, called by a thread, with the callbacks that it calls, in order. -/
def lgxErrorHandlerSetError (s : State Thread Callback UserData)
    (handler : Option (Registration Callback UserData)) (t : Thread) (report : Report) :
    State Thread Callback UserData × List (Invocation Callback UserData) :=
  let called := match handler with
    | some handler => handler.invoke report.context
    | none => []
  ({ s with lastError := update s.lastError t (some report.context) },
    called ++ s.globalCallback.invoke report.context)

/-- `lgx_set_error_handler`. -/
def lgxSetErrorHandler (s : State Thread Callback UserData) (r : Registration Callback UserData) :
    State Thread Callback UserData :=
  { s with
    globalCallback := r
    errorHandler := s.errorHandler.map fun _ => r }

end State

/-- A call.  Initialisations and shutdowns are those that succeed. -/
inductive Event (Thread Callback UserData : Type)
  | setErrorHandler (r : Registration Callback UserData)
  | init
  | shutdown
  | report (t : Thread) (report : Report)

/-- The state after a call; `lgx_runtime_init` succeeds only if the runtime is not initialised, and
`lgx_runtime_shutdown` only if it is. -/
def step (s : State Thread Callback UserData) :
    Event Thread Callback UserData → Option (State Thread Callback UserData)
  | .setErrorHandler r => some (s.lgxSetErrorHandler r)
  | .init =>
      if s.initialized then none
      else some { s with errorHandler := some lgxErrorHandlerInit, initialized := true }
  | .shutdown =>
      if s.initialized then some { s with errorHandler := none, initialized := false }
      else none
  | .report t report => some (s.lgxErrorHandlerSetError s.errorHandler t report).1

/-- The state of a process that has just been started. -/
def start : State Thread Callback UserData where
  lastError := fun _ => none
  globalCallback := ⟨none, none⟩
  errorHandler := none
  initialized := false

/-- The state after some calls, all of which succeed. -/
def after (events : List (Event Thread Callback UserData)) : Option (State Thread Callback UserData) :=
  events.foldlM step start

/-- The callback passed to `lgx_set_error_handler` most recently. -/
def registered (events : List (Event Thread Callback UserData)) : Registration Callback UserData :=
  events.foldl
    (fun last e =>
      match e with
      | .setErrorHandler r => r
      | _ => last)
    ⟨none, none⟩

/-- A report was made. -/
def Event.IsReport : Event Thread Callback UserData → Prop
  | .report _ _ => True
  | _ => False

/-- The runtime is initialised, and has not been shut down since. -/
def Initialised : List (Event Thread Callback UserData) → Prop :=
  History.Since (fun _ e => e = .init) (· ≠ .shutdown)

/-- A callback other than `NULL` was registered while the runtime was initialised, and nothing but reports
came after. -/
def RegisteredTwice : List (Event Thread Callback UserData) → Prop :=
  History.Since (fun before e => Initialised before ∧ ∃ r, e = .setErrorHandler r ∧ r.callback ≠ none)
    Event.IsReport

end LgxRuntime.ErrorHandler
