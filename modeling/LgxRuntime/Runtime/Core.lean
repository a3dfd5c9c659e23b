import LgxRuntime.FrameArena.Arena

/-!
# The runtime core

`lgx_runtime_init` initialises the subsystems in the order of their dependencies and shuts all of them down
when one fails.  The frame arenas are configured on the way: the sizes live in `g_frame_arena_state`, which
outlives the runtime.  The other subsystems are modelled by what they answer.  Subsystems whose failure is
only logged (the namespaces, telemetry and the trace events) are left out.
-/

namespace LgxRuntime.Runtime

open FrameArena (FrameState lgxFrameArenaInit lgxFrameAllocInternal lgxFrameReset)

/-- `lgx_result_t`. -/
inductive LgxResult
  | success
  | invalidParam
  | notInitialized
  | alreadyInitialized
  | incompatibleVersion
  | outOfMemory
  | ioError
  | notSupported
  | libraryVersionMismatch
  | gpuUnavailable
  | resourceLimitExceeded
  | hardwareDegraded
  | intentValidationFailed
  | systemError
  | invalidState
  | timeout
  | notFound
  deriving DecidableEq

/-- `struct lgx_runtime_config`, as far as it matters here. -/
structure Config where
  memoryPoolSize : ℕ
  frameArenaSize : ℕ
  frameArenaMaxSize : ℕ

/-- What the subsystems and the system answer during an initialization. -/
structure Answers where
  errorHandler : LgxResult
  memoryMonitor : LgxResult
  counters : LgxResult
  hardwareAdapter : LgxResult
  capabilityDetector : LgxResult
  memoryManager : LgxResult
  resetMutex : Bool
  mappings : ℕ → Option ℕ
  persistentHeap : LgxResult
  platformServices : LgxResult
  lifecycleManager : LgxResult
  healthMonitor : LgxResult

/-- `g_runtime` and `g_frame_arena_state`; the arenas are `none` as long as they are not initialised.  The
state records the configurations that have got as far as the arenas. -/
structure State where
  initialized : Bool
  configuredArenaSize : ℕ
  configuredMaxSize : ℕ
  arenas : Option FrameState
  configurations : List Config

/-- `validate_config`. -/
def validateConfig : Option Config → Except LgxResult Config
  | none => .error .invalidParam
  | some config =>
      if config.memoryPoolSize < 1024 * 1024 then .error .invalidParam
      else if config.memoryPoolSize > 16 * 1024 * 1024 * 1024 then .error .invalidParam
      else .ok config

/-- The first result that is not `LGX_SUCCESS`. -/
def firstFailure (results : List LgxResult) : Option LgxResult :=
  results.find? fun result => result ≠ .success

namespace State

/-- `lgx_frame_arena_init`. -/
def frameArenaInit (s : State) (answers : Answers) : LgxResult × State :=
  match s.arenas with
  | some _ => (.success, s)
  | none =>
      if !answers.resetMutex then (.invalidParam, s)
      else
        match lgxFrameArenaInit s.configuredArenaSize s.configuredMaxSize answers.mappings with
        | some arenas => (.success, { s with arenas := some arenas })
        | none => (.outOfMemory, s)

/-- `lgx_frame_arena_shutdown`. -/
def frameArenaShutdown (s : State) : State :=
  { s with arenas := none }

/-- `lgx_intent_allocator_init`. -/
def intentAllocatorInit (s : State) (answers : Answers) : LgxResult × State :=
  let (result, s) := s.frameArenaInit answers
  if result ≠ .success then (result, s)
  else if answers.persistentHeap ≠ .success then (answers.persistentHeap, s.frameArenaShutdown)
  else (.success, s)

/-- The configuration of the arenas in `initialize_subsystems`. -/
def configureArenas (s : State) (config : Config) : State :=
  { s with
    configuredArenaSize := if config.frameArenaSize > 0 then config.frameArenaSize else s.configuredArenaSize
    configuredMaxSize := if config.frameArenaMaxSize > 0 then config.frameArenaMaxSize else s.configuredMaxSize
    configurations := s.configurations ++ [config] }

/-- `initialize_subsystems`. -/
def initializeSubsystems (s : State) (config : Config) (answers : Answers) : LgxResult × State :=
  match firstFailure [answers.memoryMonitor, answers.counters, answers.hardwareAdapter,
      answers.capabilityDetector, answers.memoryManager] with
  | some result => (result, s)
  | none =>
      let (result, s) := (s.configureArenas config).intentAllocatorInit answers
      if result ≠ .success then (result, s)
      else
        ((firstFailure [answers.platformServices, answers.lifecycleManager, answers.healthMonitor]).getD .success, s)

/-- `shutdown_subsystems`, which shuts the intent allocator down. -/
def shutdownSubsystems (s : State) : State :=
  s.frameArenaShutdown

/-- `lgx_runtime_init`. -/
def runtimeInit (s : State) (config : Option Config) (answers : Answers) : LgxResult × State :=
  if s.initialized then (.alreadyInitialized, s)
  else if answers.errorHandler ≠ .success then (answers.errorHandler, s)
  else
    match validateConfig config with
    | .error result => (result, s)
    | .ok config =>
        let (result, s) := s.initializeSubsystems config answers
        if result ≠ .success then (result, s.shutdownSubsystems)
        else (.success, { s with initialized := true })

/-- `lgx_runtime_shutdown`. -/
def runtimeShutdown (s : State) : LgxResult × State :=
  if !s.initialized then (.notInitialized, s)
  else (.success, { s.shutdownSubsystems with initialized := false })

end State

/-! ## Cycles -/

/-- A call: an initialization or a shutdown, or what is done with the arenas in between. -/
inductive Call
  | init (config : Option Config) (answers : Answers)
  | shutdown
  | alloc (mapping : Option ℕ) (nodeOk : Bool) (size : ℕ)
  | reset

/-- The state after a call. -/
def step (s : State) : Call → State
  | .init config answers => (s.runtimeInit config answers).2
  | .shutdown => s.runtimeShutdown.2
  | .alloc mapping nodeOk size =>
      { s with arenas := s.arenas.map fun frames => (lgxFrameAllocInternal frames mapping nodeOk size).2 }
  | .reset => { s with arenas := s.arenas.map lgxFrameReset }

/-- The state of a process that has just been started. -/
def start : State where
  initialized := false
  configuredArenaSize := 0
  configuredMaxSize := 0
  arenas := none
  configurations := []

/-- The state after some calls. -/
def after (calls : List Call) : State :=
  calls.foldl step start

end LgxRuntime.Runtime
