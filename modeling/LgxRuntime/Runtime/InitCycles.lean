import LgxRuntime.FrameArena.ArenaInvariant
import LgxRuntime.Runtime.Core

/-!
# Cycles of initialization and shutdown

An initialization configures the sizes of the frame arenas that are not zero and leaves the others as they
are, and no shutdown resets them.  So a size of zero stands for the last size that was configured, and only
if there is none for the default.
-/

namespace LgxRuntime.Runtime

open FrameArena (FrameState arenaSize maxSize frameArenaCount frameArenaDefaultSize frameArenaMinSize
  frameArenaMaxSize arenaSize_bounds lgxFrameArenaInit lgxFrameArenaInit_eq_some)

/-- The last size that is not zero, or zero. -/
def lastConfigured (sizes : List ℕ) : ℕ :=
  sizes.foldl (fun last size => if size > 0 then size else last) 0

theorem lastConfigured_append (sizes : List ℕ) (size : ℕ) :
    lastConfigured (sizes ++ [size]) = if size > 0 then size else lastConfigured sizes :=
  List.foldl_append

/-- The capacities that the configuration asks for. -/
def AsConfigured (s : State) (config : Config) : Prop :=
  ∃ frames, s.arenas = some frames ∧ ∀ i < frameArenaCount,
    (frames.arenas i).capacity = arenaSize config.frameArenaSize ∧
      (frames.arenas i).maxCapacity = maxSize config.frameArenaSize config.frameArenaMaxSize

/-- No earlier size takes the place of a default: the configuration has a size of its own, or the last one
happens to be as good as the default. -/
structure Independent (earlier : List Config) (config : Config) : Prop where
  size : config.frameArenaSize ≠ 0 ∨ lastConfigured (earlier.map Config.frameArenaSize) = 0 ∨
    lastConfigured (earlier.map Config.frameArenaSize) = frameArenaDefaultSize
  maxSize : config.frameArenaMaxSize ≠ 0 ∨ lastConfigured (earlier.map Config.frameArenaMaxSize) = 0 ∨
    frameArenaMaxSize ≤ lastConfigured (earlier.map Config.frameArenaMaxSize) ∨
    frameArenaMaxSize ≤ config.frameArenaSize

/-! ## One call -/

/-- An initialization of arenas that are not there yet leaves none, if it fails, or all of them. -/
inductive ArenasInit (s : State) (answers : Answers) : LgxResult × State → Prop
  | failed {result : LgxResult} (hfail : result ≠ .success) : ArenasInit s answers (result, s)
  | mapped {frames : FrameState}
      (hframes : lgxFrameArenaInit s.configuredArenaSize s.configuredMaxSize answers.mappings = some frames) :
      ArenasInit s answers (.success, { s with arenas := some frames })

/-- The subsystems fail before or after the arenas are configured, or all of them are initialised. -/
inductive SubsystemsInit (s : State) (config : Config) (answers : Answers) : LgxResult × State → Prop
  | early {result : LgxResult} (hfail : result ≠ .success) : SubsystemsInit s config answers (result, s)
  | late {result : LgxResult} (hfail : result ≠ .success) (arenas : Option FrameState) :
      SubsystemsInit s config answers (result, { s.configureArenas config with arenas := arenas })
  | mapped {frames : FrameState}
      (hframes : lgxFrameArenaInit (s.configureArenas config).configuredArenaSize
        (s.configureArenas config).configuredMaxSize answers.mappings = some frames) :
      SubsystemsInit s config answers (.success, { s.configureArenas config with arenas := some frames })

/-- An initialization of a runtime that has no arenas is refused, fails once the arenas are configured, or
maps the arenas. -/
inductive RuntimeInit (s : State) (answers : Answers) : Option Config → LgxResult × State → Prop
  | refused {config : Option Config} {result : LgxResult} (hfail : result ≠ .success) :
      RuntimeInit s answers config (result, s)
  | failed {config : Config} {result : LgxResult} (hfail : result ≠ .success) :
      RuntimeInit s answers (some config) (result, s.configureArenas config)
  | mapped {config : Config} {frames : FrameState}
      (hframes : lgxFrameArenaInit (s.configureArenas config).configuredArenaSize
        (s.configureArenas config).configuredMaxSize answers.mappings = some frames) :
      RuntimeInit s answers (some config)
        (.success, { s.configureArenas config with arenas := some frames, initialized := true })

section

variable {s : State}

/-- There is nothing to shut down. -/
theorem frameArenaShutdown_of_none (hnone : s.arenas = none) : s.frameArenaShutdown = s := by
  rw [State.frameArenaShutdown, ← hnone]

theorem frameArenaInit_cases (hnone : s.arenas = none) (answers : Answers) :
    ArenasInit s answers (s.frameArenaInit answers) := by
  simp only [State.frameArenaInit, hnone]
  split
  · exact .failed (by decide)
  · split
    · rename_i frames hframes
      exact .mapped hframes
    · exact .failed (by decide)

theorem intentAllocatorInit_cases (hnone : s.arenas = none) (answers : Answers) :
    ArenasInit s answers (s.intentAllocatorInit answers) := by
  unfold State.intentAllocatorInit
  have harenas := frameArenaInit_cases hnone answers
  generalize s.frameArenaInit answers = init at harenas
  cases harenas with
  | failed hfail =>
      simp only [if_pos hfail]
      exact .failed hfail
  | mapped hframes =>
      simp only [ne_eq, not_true_eq_false, if_false]
      split
      · rename_i hheap
        rw [State.frameArenaShutdown, ← hnone]
        exact .failed hheap
      · exact .mapped hframes

theorem ne_success_of_firstFailure {results : List LgxResult} {result : LgxResult}
    (h : firstFailure results = some result) : result ≠ .success := by
  unfold firstFailure at h
  have hfound := List.find?_some h
  exact of_decide_eq_true hfound

theorem initializeSubsystems_cases (hnone : s.arenas = none) (config : Config) (answers : Answers) :
    SubsystemsInit s config answers (s.initializeSubsystems config answers) := by
  unfold State.initializeSubsystems
  split
  · rename_i result hresult
    exact .early (ne_success_of_firstFailure hresult)
  · have harenas := intentAllocatorInit_cases (s := s.configureArenas config) hnone answers
    generalize (s.configureArenas config).intentAllocatorInit answers = init at harenas
    cases harenas with
    | failed hfail =>
        simp only [if_pos hfail]
        exact .late hfail s.arenas
    | mapped hframes =>
        simp only [ne_eq, not_true_eq_false, if_false]
        cases hrest : firstFailure [answers.platformServices, answers.lifecycleManager, answers.healthMonitor] with
        | none => exact .mapped hframes
        | some result => exact .late (ne_success_of_firstFailure hrest) _

theorem validateConfig_cases (config : Option Config) :
    (∃ result, result ≠ .success ∧ validateConfig config = .error result) ∨
      ∃ valid, config = some valid ∧ validateConfig config = .ok valid := by
  cases config with
  | none => exact Or.inl ⟨.invalidParam, by decide, rfl⟩
  | some config =>
      simp only [validateConfig]
      split
      · exact Or.inl ⟨.invalidParam, by decide, rfl⟩
      · split
        · exact Or.inl ⟨.invalidParam, by decide, rfl⟩
        · exact Or.inr ⟨config, rfl, rfl⟩

theorem runtimeInit_cases (hnone : s.arenas = none) (hdown : s.initialized = false) (config : Option Config)
    (answers : Answers) : RuntimeInit s answers config (s.runtimeInit config answers) := by
  unfold State.runtimeInit
  rw [hdown, if_neg Bool.false_ne_true]
  split
  · rename_i hhandler
    exact .refused hhandler
  · obtain ⟨result, hfail, hinvalid⟩ | ⟨config, rfl, hvalid⟩ := validateConfig_cases config
    · simp only [hinvalid]
      exact .refused hfail
    · simp only [hvalid]
      have hsubsystems := initializeSubsystems_cases hnone config answers
      generalize s.initializeSubsystems config answers = init at hsubsystems
      cases hsubsystems with
      | early hfail =>
          simp only [if_pos hfail, State.shutdownSubsystems, frameArenaShutdown_of_none hnone]
          exact .refused hfail
      | late hfail arenas =>
          simp only [if_pos hfail, State.shutdownSubsystems, State.frameArenaShutdown, ← hnone]
          exact .failed hfail
      | mapped hframes =>
          simp only [ne_eq, not_true_eq_false, if_false]
          exact .mapped hframes

end

/-! ## Every run -/

/-- The runtime has arenas as long as it runs, and the sizes are those that were configured last. -/
structure Cycling (s : State) : Prop where
  arenas : s.arenas.isSome = s.initialized
  configuredArenaSize : s.configuredArenaSize = lastConfigured (s.configurations.map Config.frameArenaSize)
  configuredMaxSize : s.configuredMaxSize = lastConfigured (s.configurations.map Config.frameArenaMaxSize)

section

variable {s : State}

theorem Cycling.start : Cycling start :=
  ⟨rfl, rfl, rfl⟩

/-- The arenas of a runtime that does not run have been shut down. -/
theorem Cycling.arenas_eq_none (h : Cycling s) (hdown : s.initialized = false) : s.arenas = none :=
  Option.isSome_eq_false_iff.mp (h.arenas.trans hdown) |> Option.isNone_iff_eq_none.mp

/-- The configuration counts as the last one. -/
theorem Cycling.configureArenas (h : Cycling s) (config : Config) {initialized : Bool}
    {arenas : Option FrameState} (harenas : arenas.isSome = initialized) :
    Cycling { s.configureArenas config with arenas := arenas, initialized := initialized } := by
  refine ⟨harenas, ?_, ?_⟩
  · show (if config.frameArenaSize > 0 then _ else _) = lastConfigured ((s.configurations ++ [config]).map _)
    rw [List.map_append, List.map_singleton, lastConfigured_append, h.configuredArenaSize]
  · show (if config.frameArenaMaxSize > 0 then _ else _) = lastConfigured ((s.configurations ++ [config]).map _)
    rw [List.map_append, List.map_singleton, lastConfigured_append, h.configuredMaxSize]

theorem Cycling.step (h : Cycling s) (call : Call) : Cycling (step s call) := by
  cases call with
  | init config answers =>
      show Cycling (s.runtimeInit config answers).2
      cases hup : s.initialized with
      | true =>
          rw [State.runtimeInit, if_pos hup]
          exact h
      | false =>
          have hcases := runtimeInit_cases (h.arenas_eq_none hup) hup config answers
          generalize s.runtimeInit config answers = init at hcases
          cases hcases with
          | refused hfail => exact h
          | failed hfail => exact h.configureArenas _ h.arenas
          | mapped hframes => exact h.configureArenas _ rfl
  | shutdown =>
      show Cycling s.runtimeShutdown.2
      unfold State.runtimeShutdown
      split
      · exact h
      · exact ⟨rfl, h.configuredArenaSize, h.configuredMaxSize⟩
  | alloc mapping nodeOk size =>
      exact ⟨(Option.isSome_map ..).trans h.arenas, h.configuredArenaSize, h.configuredMaxSize⟩
  | reset => exact ⟨(Option.isSome_map ..).trans h.arenas, h.configuredArenaSize, h.configuredMaxSize⟩

theorem cycling_after (calls : List Call) : Cycling (after calls) :=
  List.foldlRecOn calls step Cycling.start fun _ h call _ => h.step call

end

/-! ## The sizes -/

theorem arenaSize_eq_default_iff (size : ℕ) :
    arenaSize size = frameArenaDefaultSize ↔ size = 0 ∨ size = frameArenaDefaultSize := by
  unfold arenaSize frameArenaDefaultSize frameArenaMinSize frameArenaMaxSize
  simp only
  split_ifs <;> omega

theorem arenaSize_eq_max_iff (size : ℕ) : arenaSize size = frameArenaMaxSize ↔ frameArenaMaxSize ≤ size := by
  unfold arenaSize frameArenaDefaultSize frameArenaMinSize frameArenaMaxSize
  simp only
  split_ifs <;> omega

theorem maxSize_eq_max_iff (size max : ℕ) :
    maxSize size max = frameArenaMaxSize ↔ max = 0 ∨ frameArenaMaxSize ≤ max ∨ frameArenaMaxSize ≤ size := by
  have hle := (arenaSize_bounds size).2
  rw [← arenaSize_eq_max_iff size]
  unfold maxSize
  simp only
  split_ifs <;> omega

/-- A size that stands in for the default does not show if it is as good as the default. -/
theorem arenaSize_configured_iff (last size : ℕ) :
    arenaSize (if size > 0 then size else last) = arenaSize size ↔
      size ≠ 0 ∨ last = 0 ∨ last = frameArenaDefaultSize := by
  rcases Nat.eq_zero_or_pos size with rfl | hpos
  · rw [if_neg (Nat.lt_irrefl 0), (arenaSize_eq_default_iff 0).mpr (Or.inl rfl), arenaSize_eq_default_iff]
    exact (or_iff_right fun hne => hne rfl).symm
  · rw [if_pos hpos]
    exact iff_of_true rfl (Or.inl hpos.ne')

theorem maxSize_configured_iff (last size max : ℕ) :
    maxSize size (if max > 0 then max else last) = maxSize size max ↔
      max ≠ 0 ∨ last = 0 ∨ frameArenaMaxSize ≤ last ∨ frameArenaMaxSize ≤ size := by
  rcases Nat.eq_zero_or_pos max with rfl | hpos
  · rw [if_neg (Nat.lt_irrefl 0), (maxSize_eq_max_iff size 0).mpr (Or.inl rfl), maxSize_eq_max_iff]
    exact (or_iff_right fun hne => hne rfl).symm
  · rw [if_pos hpos]
    exact iff_of_true rfl (Or.inl hpos.ne')

/-- The size matters for the limit only as far as it is used. -/
theorem maxSize_congr {size size' : ℕ} (h : arenaSize size = arenaSize size') (max : ℕ) :
    maxSize size max = maxSize size' max := by
  simp only [maxSize, h]

/-! ## The capacities -/

section

variable {s : State} {config : Config} {answers : Answers}

/-- An initialization that succeeds maps the arenas with the sizes that are configured. -/
theorem Cycling.exists_frames (h : Cycling s)
    (hsuccess : (s.runtimeInit (some config) answers).1 = .success) :
    ∃ frames, (s.runtimeInit (some config) answers).2.arenas = some frames ∧
      lgxFrameArenaInit (s.configureArenas config).configuredArenaSize
        (s.configureArenas config).configuredMaxSize answers.mappings = some frames := by
  cases hup : s.initialized with
  | true =>
      rw [State.runtimeInit, if_pos hup] at hsuccess
      cases hsuccess
  | false =>
      have hcases := runtimeInit_cases (h.arenas_eq_none hup) hup (some config) answers
      generalize s.runtimeInit (some config) answers = init at hcases hsuccess
      cases hcases with
      | refused hfail => exact absurd hsuccess hfail
      | failed hfail => exact absurd hsuccess hfail
      | mapped hframes => exact ⟨_, rfl, hframes⟩

/-- Whether the capacities are those of the configuration depends on the configured sizes. -/
theorem Cycling.asConfigured_iff_sizes (h : Cycling s)
    (hsuccess : (s.runtimeInit (some config) answers).1 = .success) :
    AsConfigured (s.runtimeInit (some config) answers).2 config ↔
      arenaSize (s.configureArenas config).configuredArenaSize = arenaSize config.frameArenaSize ∧
        maxSize (s.configureArenas config).configuredArenaSize (s.configureArenas config).configuredMaxSize
          = maxSize config.frameArenaSize config.frameArenaMaxSize := by
  obtain ⟨frames, harenas, hframes⟩ := h.exists_frames hsuccess
  obtain ⟨-, rfl⟩ := lgxFrameArenaInit_eq_some hframes
  refine ⟨fun hasked => ?_, fun hsizes => ⟨_, harenas, fun _ _ => hsizes⟩⟩
  obtain ⟨frames, hsome, hcapacities⟩ := hasked
  obtain rfl := Option.some.inj (harenas.symm.trans hsome)
  exact hcapacities 0 (by decide)

theorem Cycling.asConfigured_iff_independent (h : Cycling s)
    (hsuccess : (s.runtimeInit (some config) answers).1 = .success) :
    AsConfigured (s.runtimeInit (some config) answers).2 config ↔ Independent s.configurations config := by
  have hsize : arenaSize (s.configureArenas config).configuredArenaSize = arenaSize config.frameArenaSize ↔ _ :=
    arenaSize_configured_iff s.configuredArenaSize config.frameArenaSize
  have hmax : maxSize config.frameArenaSize (s.configureArenas config).configuredMaxSize
      = maxSize config.frameArenaSize config.frameArenaMaxSize ↔ _ :=
    maxSize_configured_iff s.configuredMaxSize config.frameArenaSize config.frameArenaMaxSize
  rw [h.configuredArenaSize] at hsize
  rw [h.configuredMaxSize] at hmax
  rw [h.asConfigured_iff_sizes hsuccess]
  constructor
  · rintro ⟨hsizes, hlimits⟩
    rw [maxSize_congr hsizes] at hlimits
    exact ⟨hsize.mp hsizes, hmax.mp hlimits⟩
  · rintro ⟨hsizes, hlimits⟩
    have hsame := hsize.mpr hsizes
    rw [maxSize_congr hsame]
    exact ⟨hsame, hmax.mpr hlimits⟩

/-- The first initialization gets what its configuration asks for. -/
theorem asConfigured_first (hsuccess : (start.runtimeInit (some config) answers).1 = .success) :
    AsConfigured (start.runtimeInit (some config) answers).2 config :=
  (Cycling.start.asConfigured_iff_independent hsuccess).mpr
    ⟨Or.inr (Or.inl rfl), Or.inr (Or.inl rfl)⟩

end

/-- The capacities after an initialization are those that its configuration asks for, whatever came before,
exactly if no earlier size takes the place of a default. -/
theorem asConfigured_iff {calls : List Call} {config : Config} {answers : Answers}
    (hsuccess : ((after calls).runtimeInit (some config) answers).1 = .success) :
    AsConfigured ((after calls).runtimeInit (some config) answers).2 config ↔
      Independent (after calls).configurations config :=
  (cycling_after calls).asConfigured_iff_independent hsuccess

/-- Everything answers well, and the arenas lie apart. -/
def goodAnswers : Answers where
  errorHandler := .success
  memoryMonitor := .success
  counters := .success
  hardwareAdapter := .success
  capabilityDetector := .success
  memoryManager := .success
  resetMutex := true
  mappings := fun i => some ((i + 1) * 2 ^ 32)
  persistentHeap := .success
  platformServices := .success
  lifecycleManager := .success
  healthMonitor := .success

/-- A configuration without sizes of its own. -/
def defaultConfig : Config := ⟨256 * 1024 * 1024, 0, 0⟩

/-- A configuration with arenas of 32 MB. -/
def smallConfig : Config := ⟨256 * 1024 * 1024, 32 * 1024 * 1024, 0⟩

/-- A cycle without sizes does not change what the next one gets. -/
theorem asConfigured_iff_defaults :
    AsConfigured
        ((after [.init (some defaultConfig) goodAnswers, .shutdown]).runtimeInit (some smallConfig) goodAnswers).2
        smallConfig ↔
      Independent (after [.init (some defaultConfig) goodAnswers, .shutdown]).configurations smallConfig :=
  asConfigured_iff rfl

/-- After a cycle with arenas of 32 MB, a configuration without a size does not get the default. -/
theorem not_asConfigured :
    ¬ ∀ (calls : List Call) (config : Config) (answers : Answers),
      ((after calls).runtimeInit (some config) answers).1 = .success →
        AsConfigured ((after calls).runtimeInit (some config) answers).2 config := by
  intro hall
  have hsizes := (Cycling.asConfigured_iff_sizes (cycling_after _) rfl).mp
    (hall [.init (some smallConfig) goodAnswers, .shutdown] defaultConfig goodAnswers rfl)
  exact absurd hsizes.1 (by decide)

end LgxRuntime.Runtime
