import LgxRuntime.Lib.History
import LgxRuntime.Runtime.SubsystemStarts

/-!
# The life of a process with the runtime

However often the runtime is started and stopped: nothing is released that is not held, unless huge pages are to be
had and the pools of the memory manager do not go back where they came from.  What is held is then what the runtime
owns, and what is known to have been lost.  While the runtime is stopped it owns at most the file of the huge pages,
and the signals are handled as the client wants.
-/

namespace LgxRuntime.Runtime.Subsystems

open HugePages (HugepageState hugepageSize)
open ResourceLogic
open Function (update)

variable {s : RuntimeState} {rest gone : Multiset (Resource × ℕ)} {answers : StartAnswers} {state : HugepageState}
  {config : RuntimeConfig} {size : ℕ} {life : Life}

/-! ## What is lost -/

/-- No memory of the heap and no plain mapping is lost in a start. -/
theorem StartAnswers.not_mem_lost (answers : StartAnswers) (state : HugepageState) (size : ℕ) :
    .heap ∉ answers.lost state size ∧ .mapping ∉ answers.lost state size := by
  have hleft : ∀ (size : ℕ) (is : List ℕ), .heap ∉ Subsystems.leftOfArenas size answers.arenas is ∧
      .mapping ∉ Subsystems.leftOfArenas size answers.arenas is := by
    intro size is
    induction is with
    | nil => exact ⟨Multiset.notMem_zero _, Multiset.notMem_zero _⟩
    | cons i is ih =>
        rw [Subsystems.leftOfArenas]
        split_ifs
        · have harena : .heap ∉ (answers.arenas i).left size ∧ .mapping ∉ (answers.arenas i).left size := by
            unfold ArenaAnswers.left
            split_ifs <;> exact ⟨by decide, by decide⟩
          simp only [Multiset.mem_add, not_or]
          exact ⟨⟨harena.1, ih.1⟩, harena.2, ih.2⟩
        · exact ⟨Multiset.notMem_zero _, Multiset.notMem_zero _⟩
  unfold StartAnswers.lost StartAnswers.leftOfArenas ManagerAnswers.lost
  split_ifs
  all_goals first
    | exact hleft _ _
    | exact ⟨by decide, by decide⟩

theorem stray_of_kinds {resources : Multiset Resource} (hkinds : kinds gone ≤ resources)
    (hstray : .heap ∉ resources ∧ .mapping ∉ resources) : Stray gone :=
  ⟨without_iff.mpr fun hmem => hstray.1 (Multiset.mem_of_le hkinds hmem),
    without_iff.mpr fun hmem => hstray.2 (Multiset.mem_of_le hkinds hmem)⟩

theorem Stray.add {resources resources' : Multiset (Resource × ℕ)} (h : Stray resources) (h' : Stray resources') :
    Stray (resources + resources') :=
  ⟨h.1.add h'.1, h.2.add h'.2⟩

/-! ## One step -/

/-- The configuration with which a start comes to the subsystems. -/
def RuntimeState.begins (s : RuntimeState) (config : Option RuntimeConfig) (answers : StartAnswers) :
    Option RuntimeConfig :=
  if s.initialized || !answers.errorHandler.ok then none else (validate config).toOption

/-- What is known of the huge pages once a start has come to the memory manager. -/
def RuntimeState.pagesState (s : RuntimeState) (answers : StartAnswers) : HugepageState :=
  detectHugePages s.pools.pages.toHugepageState answers.manager.pages

/-- The step releases something that is not held. -/
def Op.Breaks (s : RuntimeState) : Op → Prop
  | .init config answers => (s.begins config answers).isSome = true ∧ answers.Breaks (s.pagesState answers)
  | .shutdown => s.initialized = true ∧ ¬s.PoolsMatch
  | .sigaction _ _ => False

/-- What is lost in the step. -/
def Op.lost (s : RuntimeState) : Op → Multiset Resource
  | .init config answers =>
      (s.begins config answers).elim 0 fun config => answers.lost (s.pagesState answers) (s.askedSize config)
  | .shutdown => if s.initialized then kinds s.left else 0
  | .sigaction _ _ => 0

/-- What holds of a runtime between the calls. -/
structure Sound (life : Life) : Prop where
  fits : life.runtime.PoolsFit
  stopped : life.runtime.initialized = false → Unstarted life.runtime ∧ life.runtime.errorHandler = none ∧
    life.runtime.handlers = life.wanted
  running : life.runtime.initialized = true → ∃ manager, life.runtime.lifecycleManager = some manager ∧
    ∀ handlers, uninstallSignalHandlers manager.signalState handlers = life.wanted

/-- What a step comes to. -/
def Steps (life : Life) (op : Op) (rest : Multiset (Resource × ℕ)) (life' : Life)
    (left : Option (Multiset (Resource × ℕ))) : Prop :=
  (op.Breaks life.runtime ∧ left = none) ∨
    (¬op.Breaks life.runtime ∧ Sound life' ∧ ∃ lost, left = some (life'.runtime.objects + (lost + rest)) ∧
      kinds lost = op.lost life.runtime)

/-- A runtime that has been stopped is sound. -/
theorem sound_shut {wanted : Signal → Handler} (hinitialized : s.initialized = false)
    (hhandlers : s.shut.handlers = wanted) : Sound ⟨s.shut, wanted⟩ := by
  refine ⟨fun manager _ _ h => (by cases h), fun _ => ⟨?_, rfl, hhandlers⟩, fun h => ?_⟩
  · exact ⟨hinitialized, rfl, rfl, rfl, rfl, rfl, rfl, rfl, rfl, rfl, rfl⟩
  · cases hinitialized.symm.trans h

theorem shut_handlers {handlers : Signal → Handler} (h : Handles handlers s.lifecycleManager s.handlers) :
    s.shut.handlers = handlers := by
  unfold RuntimeState.shut
  cases hmanager : s.lifecycleManager with
  | none =>
      rw [hmanager] at h
      exact h
  | some manager =>
      rw [hmanager] at h
      exact h.2 s.handlers

/-- A start of the runtime. -/
theorem runtimeInit_outcome (config : Option RuntimeConfig) (answers : StartAnswers) (h : Sound life)
    (hrest : Stray rest) :
    Outcome (life.runtime.objects + rest) (runtimeInit config answers life.runtime) fun r left =>
      Steps life (.init config answers) rest { life with runtime := r.2 } left := by
  have hunchanged : life.runtime.begins config answers = none →
      Steps life (.init config answers) rest life (some (life.runtime.objects + rest)) := by
    intro hbegins
    refine .inr ⟨fun hbreaks => ?_, h, 0, by rw [zero_add], ?_⟩
    · rw [Op.Breaks, hbegins] at hbreaks
      cases hbreaks.1
    · rw [Op.lost, hbegins]
      rfl
  unfold runtimeInit
  refine .ite (fun hinitialized => .pure (hunchanged ?_)) fun hstopped => ?_
  · rw [RuntimeState.begins, hinitialized]
    rfl
  rw [Bool.not_eq_true] at hstopped
  obtain ⟨hunstarted, herrorHandler, hhandlers⟩ := h.stopped hstopped
  refine (Guarded.create_starts _).call (fun hfails result _ => hunchanged ?_) fun hok errorHandler => ?_
  · rw [RuntimeState.begins, hfails, Bool.not_false, Bool.or_true]
    rfl
  have hbegins : life.runtime.begins config answers = (validate config).toOption := by
    rw [RuntimeState.begins, hstopped, hok]
    rfl
  cases hvalid : validate config with
  | error result =>
      refine .spend errorHandler.destroy_triple errorHandler.destroy_tame.names fun _ => .pure (hunchanged ?_)
      rw [hbegins, hvalid]
      rfl
  | ok config' =>
      rw [hvalid] at hbegins
      rw [← add_assoc, ← objects_withErrorHandler life.runtime herrorHandler]
      have hunstarted' : Unstarted (life.runtime.withErrorHandler errorHandler) :=
        ⟨hunstarted.initialized, hunstarted.counters, hunstarted.hardwareAdapter, hunstarted.capabilityDetector,
          hunstarted.memoryManager, hunstarted.allocators, hunstarted.platformServices, hunstarted.lifecycleManager,
          hunstarted.healthMonitor, hunstarted.telemetry, hunstarted.trace⟩
      have hbreaks_iff : Op.Breaks life.runtime (.init config answers) ↔
          answers.Breaks (life.runtime.pagesState answers) := by
        rw [Op.Breaks, hbegins]
        exact and_iff_right rfl
      have hlost : Op.lost life.runtime (.init config answers) =
          answers.lost (life.runtime.pagesState answers) (life.runtime.askedSize config') := by
        rw [Op.lost, hbegins]
        rfl
      have hstart : Outcome ((life.runtime.withErrorHandler errorHandler).objects + rest)
          (initializeSubsystems config' answers (life.runtime.withErrorHandler errorHandler))
          (SubsystemsStarted answers (life.runtime.pagesState answers) (life.runtime.askedSize config')
            life.runtime.handlers rest) := initializeSubsystems_outcome hunstarted' rfl
      refine hstart.bind (fun r left hr => ?_) fun r hr => ?_
      · have hgood : ¬(answers.family (life.runtime.pagesState answers) = some .mapping ∧
            answers.manager.completes = false) := fun hbad => by cases hr.broken hbad.1 hbad.2
        obtain ⟨gone, hleft, hkinds⟩ := hr.held hgood
        obtain rfl := Option.some.inj hleft
        refine .ite (fun hfailed => ?_) fun hsuccess => ?_
        · have hstray : Stray (gone + rest) := by
            have hlosses := answers.not_mem_lost (life.runtime.pagesState answers) (life.runtime.askedSize config')
            refine (stray_of_kinds ?_ hlosses).add hrest
            rw [← hkinds]
            exact Multiset.le_add_right ..
          rw [if_neg hfailed] at hkinds
          refine (shutdownSubsystems_outcome hr.fits hstray).bind (fun s' left hs' => .pure ?_) fun s' hs' => ?_
          · obtain ⟨rfl, ⟨-, hnone⟩ | ⟨hmatch, hleft⟩⟩ := hs'
            · cases hnone
            · refine .inr ⟨hbreaks_iff.not.mpr ((hr.matching hfailed (Option.some_ne_none _)).mp hmatch), ?_,
                r.2.left + gone, ?_, ?_⟩
              · exact sound_shut hr.initialized ((shut_handlers hr.handles).trans hhandlers)
              · rw [hleft, add_assoc]
              · rw [hlost, ← hkinds, kinds_add, add_comm]
          · obtain ⟨-, ⟨hmismatch, -⟩ | ⟨-, hnone⟩⟩ := hs'
            · have hbreaks := not_not.mp ((hr.matching hfailed (Option.some_ne_none _)).not.mp hmismatch)
              exact ⟨.pure _, .pure (.inl ⟨hbreaks_iff.mpr hbreaks, rfl⟩)⟩
            · cases hnone
        · rw [not_not] at hsuccess
          rw [if_pos hsuccess, add_zero] at hkinds
          have hall := hr.success.mp hsuccess
          simp only [StartAnswers.succeeds, Bool.and_eq_true] at hall
          refine .pure (.inr ⟨hbreaks_iff.not.mpr ?_, ?_, gone, rfl, ?_⟩)
          · rintro (⟨-, hfails⟩ | ⟨-, -, -, hfails⟩)
            · cases hall.1.2.symm.trans hfails
            · cases hall.2.symm.trans hfails
          · refine ⟨hr.fits, fun h => (by cases h), fun _ => ?_⟩
            obtain ⟨manager, hmanager⟩ := Option.isSome_iff_exists.mp (hr.running hsuccess)
            have hhandles := hr.handles
            rw [hmanager, hhandlers] at hhandles
            exact ⟨manager, hmanager, hhandles.2⟩
          · rw [hlost, hkinds]
      · have hbad : answers.Breaks (life.runtime.pagesState answers) := by
          by_contra hnot
          obtain ⟨gone, hnone, -⟩ := hr.held fun hbad => hnot (.inl hbad)
          cases hnone
        refine ⟨?_, fun _ => .inl ⟨hbreaks_iff.mpr hbad, rfl⟩⟩
        exact Extends.ite (.bind (shutdownSubsystems_tame _).extending fun _ => .pure _) (.pure _)

/-- One step in the life of a process. -/
theorem Life.step_outcome (op : Op) (h : Sound life) (hrest : Stray rest) :
    Outcome (life.runtime.objects + rest) (life.step op) (Steps life op rest) := by
  cases op with
  | init config answers =>
      exact (runtimeInit_outcome config answers h hrest).bind (fun r left hr => .pure hr) fun r hr =>
        ⟨.pure _, .pure hr⟩
  | shutdown =>
      have hstop : Outcome (life.runtime.objects + rest) (runtimeShutdown life.runtime) fun r left =>
          Steps life .shutdown rest { life with runtime := r.2 } left := by
        unfold runtimeShutdown
        refine .ite (fun hstopped => .pure (.inr ⟨fun hbreaks => ?_, h, 0, by rw [zero_add], ?_⟩)) fun hrunning => ?_
        · rw [Bool.not_eq_true'] at hstopped
          cases hstopped.symm.trans hbreaks.1
        · rw [Bool.not_eq_true'] at hstopped
          rw [Op.lost, hstopped]
          rfl
        · have hrunning : life.runtime.initialized = true := by simpa using hrunning
          refine (shutdownSubsystems_outcome h.fits hrest).bind (fun s' left hs' => .pure ?_) fun s' hs' => ?_
          · obtain ⟨rfl, ⟨-, hnone⟩ | ⟨hmatch, hleft⟩⟩ := hs'
            · cases hnone
            · refine .inr ⟨fun hbreaks => hbreaks.2 hmatch, ?_, life.runtime.left, hleft, ?_⟩
              · obtain ⟨manager, hmanager, hhandlers⟩ := h.running hrunning
                have hsound : Sound ⟨(life.runtime.setInitialized false).shut, life.wanted⟩ := by
                  refine sound_shut rfl ?_
                  change (life.runtime.lifecycleManager.elim _ _) = _
                  rw [hmanager]
                  exact hhandlers _
                exact hsound
              · rw [Op.lost, if_pos hrunning]
          · obtain ⟨-, ⟨hmismatch, -⟩ | ⟨-, hnone⟩⟩ := hs'
            · exact ⟨.pure _, .pure (.inl ⟨⟨hrunning, hmismatch⟩, rfl⟩)⟩
            · cases hnone
      exact hstop.bind (fun r left hr => .pure hr) fun r hr => ⟨.pure _, .pure hr⟩
  | sigaction signal handler =>
      refine .pure (.inr ⟨id, ?_, 0, by rw [zero_add]; rfl, rfl⟩)
      refine ⟨h.fits, fun hstopped => ?_, fun hrunning => ?_⟩
      · obtain ⟨hunstarted, herrorHandler, hhandlers⟩ := h.stopped hstopped
        refine ⟨⟨hunstarted.initialized, hunstarted.counters, hunstarted.hardwareAdapter,
          hunstarted.capabilityDetector, hunstarted.memoryManager, hunstarted.allocators,
          hunstarted.platformServices, hunstarted.lifecycleManager, hunstarted.healthMonitor, hunstarted.telemetry,
          hunstarted.trace⟩, herrorHandler, ?_⟩
        change update life.runtime.handlers _ _ = if life.runtime.initialized then _ else _
        rw [hunstarted.initialized, hhandlers]
        rfl
      · obtain ⟨manager, hmanager, hhandlers⟩ := h.running hrunning
        refine ⟨manager, hmanager, fun handlers => ?_⟩
        rw [hhandlers handlers]
        exact (if_pos hrunning).symm

/-! ## Whole lives -/

/-- No step releases something that is not held. -/
def NeverBreaks (ops : List Op) : Prop :=
  History.Always (fun before op => ¬op.Breaks (live before).1.runtime) ops

/-- What is lost in all steps. -/
def lostIn (ops : List Op) : Multiset Resource :=
  History.total (fun before op => op.lost (live before).1.runtime) ops

variable {ops : List Op} {op : Op}

theorem live_concat (ops : List Op) (op : Op) :
    live (ops ++ [op]) = ((live ops).1.step op).run (live ops).2 := by
  rw [live, List.foldlM_append]
  rfl

theorem sound_new : Sound ⟨.new, fun _ => .client 0⟩ :=
  ⟨fun _ _ _ h => (by cases h), fun _ => ⟨⟨rfl, rfl, rfl, rfl, rfl, rfl, rfl, rfl, rfl, rfl, rfl⟩, rfl, rfl⟩,
    fun h => (by cases h)⟩

/-- No memory of the heap and no plain mapping is lost. -/
theorem Op.not_mem_lost (s : RuntimeState) (op : Op) : .heap ∉ op.lost s ∧ .mapping ∉ op.lost s := by
  cases op with
  | init config answers =>
      rw [Op.lost]
      cases s.begins config answers with
      | none => exact ⟨Multiset.notMem_zero _, Multiset.notMem_zero _⟩
      | some config => exact answers.not_mem_lost _ _
  | shutdown =>
      rw [Op.lost]
      split_ifs
      · exact ⟨without_iff.mp (left_stray s).1, without_iff.mp (left_stray s).2⟩
      · exact ⟨Multiset.notMem_zero _, Multiset.notMem_zero _⟩
  | sigaction signal handler => exact ⟨Multiset.notMem_zero _, Multiset.notMem_zero _⟩

/-- What a life comes to. -/
theorem live_cases (ops : List Op) :
    (¬NeverBreaks ops ∧ Broken (live ops).2) ∨
      (NeverBreaks ops ∧ Sound (live ops).1 ∧ Named (live ops).2 ∧ ∃ gone, Stray gone ∧ kinds gone = lostIn ops ∧
        Holds (live ops).2 ((live ops).1.runtime.objects + gone)) := by
  induction ops using List.reverseRecOn with
  | nil => exact .inr ⟨History.always_nil, sound_new, Named.new, 0, ⟨.zero, .zero⟩, rfl, Holds.new⟩
  | append_singleton ops op ih =>
      rw [NeverBreaks, History.always_concat, live_concat, lostIn, History.total_concat]
      rcases ih with ⟨hbreaks, hbroken⟩ | ⟨hnever, hsound, hnamed, gone, hstray, hkinds, hholds⟩
      · exact .inl ⟨fun h => hbreaks h.1, hbroken.run (Life.step_tame _ op).extending⟩
      · rcases Life.step_outcome op hsound hstray _ hholds hnamed with ⟨hsteps, hbroken⟩ | ⟨left, hsteps, hleft, hnamed'⟩
        · rcases hsteps with ⟨hbreaks, -⟩ | ⟨-, -, more, hnone, -⟩
          · exact .inl ⟨fun h => h.2 hbreaks, hbroken⟩
          · cases hnone
        · rcases hsteps with ⟨-, hnone⟩ | ⟨hsafe, hsound', more, hsome, hmore⟩
          · cases hnone
          · obtain rfl := Option.some.inj hsome
            refine .inr ⟨⟨hnever, hsafe⟩, hsound', hnamed', more + gone, ?_, ?_, hleft⟩
            · exact (stray_of_kinds hmore.le (op.not_mem_lost _)).add hstray
            · rw [kinds_add, hmore, hkinds, add_comm]
              rfl

/-- A runtime that is stopped owns at most the file of the huge pages. -/
theorem Unstarted.objects_eq (h : Unstarted s) (herrorHandler : s.errorHandler = none) :
    s.objects = owned .file s.pools.pages.hugetlbfsFd := by
  have hupper : s.upper = 0 := by
    rw [RuntimeState.upper, h.trace, h.telemetry, h.healthMonitor, h.lifecycleManager, h.platformServices,
      h.allocators]
    rfl
  have hlower : s.lower = 0 := by
    rw [RuntimeState.lower, h.capabilityDetector, h.hardwareAdapter, herrorHandler, h.counters]
    rfl
  rw [RuntimeState.objects, hupper, hlower, h.memoryManager, add_zero, zero_add]
  exact zero_add _

end LgxRuntime.Runtime.Subsystems
