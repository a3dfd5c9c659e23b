import LgxRuntime.Runtime.SubsystemCycles

/-!
# Starting the subsystems, again and again

What a start loses, and whether it releases something that is not held, can be told from what the system answers.
From this follows what is held after any number of starts and stops.
-/

namespace LgxRuntime.Runtime.Subsystems

open HugePages (HugepageState hugepageSize)
open ResourceLogic
open Function (update)

variable {s : RuntimeState} {before rest : Multiset (Resource × ℕ)} {Object : Type}

/-! ## Subsystems that lose nothing -/

@[simp] theorem objectsOf_error (objects : Object → Multiset (Resource × ℕ)) (result : LgxResult) :
    objectsOf objects (.error result : Except LgxResult Object).toOption = 0 := rfl

@[simp] theorem objectsOf_ok (objects : Object → Multiset (Resource × ℕ)) (object : Object) :
    objectsOf objects (.ok object : Except LgxResult Object).toOption = objects object := rfl

/-- The result says whether everything was to be had. -/
def Tells (ok : Bool) : Except LgxResult Object → Prop
  | .error result => ok = false ∧ result ≠ .success
  | .ok _ => ok = true

/-- A subsystem starts if and only if everything is to be had, and owns what it has acquired. -/
structure Starts (objects : Object → Multiset (Resource × ℕ)) (ok : Bool)
    (init : Program Resource (Except LgxResult Object)) : Prop where
  triple : Triple 0 init fun r => objectsOf objects r.toOption
  tame : Tame init
  returns : Returns init (Tells ok)

/-- A start that goes on with a subsystem, or ends. -/
theorem Starts.call {objects : Object → Multiset (Resource × ℕ)} {ok : Bool}
    {init : Program Resource (Except LgxResult Object)} (h : Starts objects ok init)
    {next : Object → Program Resource (LgxResult × RuntimeState)}
    {post : LgxResult × RuntimeState → Option (Multiset (Resource × ℕ)) → Prop}
    (hfailed : ok = false → ∀ result, result ≠ .success → post (result, s) (some before))
    (hnext : ok = true → ∀ object, Outcome (objects object + before) (next object) post) :
    Outcome before (init >>= fun r => orReturn s r next) post := by
  refine .call_returns h.triple h.tame.names h.returns (zero_add before).symm fun r hr => ?_
  cases r with
  | error result => exact .of_eq (zero_add before) (.pure (hfailed hr.1 result hr.2))
  | ok object => exact hnext hr object

/-- Everything is to be had. -/
def GuardedAnswers.ok (answers : GuardedAnswers) : Bool :=
  answers.calloc && answers.mutexInit

theorem Guarded.create_starts (answers : GuardedAnswers) :
    Starts Guarded.objects answers.ok (Guarded.create answers) := by
  refine ⟨?_, Guarded.create_tame answers, ?_⟩
  · unfold Guarded.create
    refine .acquire_checked (.pure rfl) fun block _ => .acquire_checked (.release_bind rfl (.pure rfl)) fun mutex _ => ?_
    exact .pure (by rw [add_zero]; rfl)
  · unfold Guarded.create GuardedAnswers.ok
    refine (Returns.acquire _ _).bind fun block hblock => .ite (fun hzero => .pure ?_) fun hne => ?_
    · exact ⟨by simp [hblock.mp hzero], by decide⟩
    refine (Returns.acquire _ _).bind fun mutex hmutex => .ite (fun hzero => .after fun _ => .pure ?_) fun hne' => ?_
    · exact ⟨by simp [hmutex.mp hzero], by decide⟩
    · rw [hblock] at hne
      rw [hmutex] at hne'
      exact .pure (show _ = true by simp [hne, hne'])

theorem plainInit_starts (calloc : Bool) : Starts (owned .heap) calloc (plainInit calloc) := by
  refine ⟨?_, plainInit_tame calloc, ?_⟩
  · unfold plainInit
    exact .acquire_checked (.pure rfl) fun block _ => .pure (add_zero _)
  · unfold plainInit
    refine (Returns.acquire _ _).bind fun block hblock => .ite (fun hzero => .pure ?_) fun hne => ?_
    · exact ⟨hblock.mp hzero, by decide⟩
    · rw [hblock] at hne
      exact .pure (show _ = true by simpa using hne)

theorem countersInit_starts (mutexInit : Bool) : Starts (owned .mutex) mutexInit (countersInit mutexInit none) := by
  refine ⟨?_, countersInit_tame mutexInit none, ?_⟩
  · unfold countersInit
    exact .acquire_checked (.pure rfl) fun mutex _ => .pure (add_zero _)
  · unfold countersInit
    refine (Returns.acquire _ _).bind fun mutex hmutex => .ite (fun hzero => .pure ?_) fun hne => ?_
    · exact ⟨hmutex.mp hzero, by decide⟩
    · rw [hmutex] at hne
      exact .pure (show _ = true by simpa using hne)

theorem platformServicesInit_starts (answers : GuardedAnswers) (logPath fopen : Bool) :
    Starts PlatformServices.objects answers.ok (platformServicesInit answers logPath fopen) := by
  have hcreate := Guarded.create_starts answers
  refine ⟨?_, platformServicesInit_tame answers logPath fopen, ?_⟩
  · refine hcreate.triple.bind fun r => ?_
    cases r with
    | error result => exact .pure rfl
    | ok g => exact .acquire_bind fun logFile _ => .pure rfl
  · refine hcreate.returns.bind fun r hr => ?_
    cases r with
    | error result => exact .pure hr
    | ok g => exact .after fun logFile => .pure hr

/-- Huge pages or memory of the heap are to be had for the buddy allocator. -/
def HeapAnswers.ok (answers : HeapAnswers) (state : HugepageState) : Bool :=
  answers.mutexInit && (triesHugePages state && answers.mmap || answers.malloc)

theorem persistentHeapInit_starts (answers : HeapAnswers) (state : HugepageState) :
    Starts PersistentHeap.objects (answers.ok state) (persistentHeapInit answers state) := by
  refine ⟨?_, persistentHeapInit_tame answers state, ?_⟩
  · unfold persistentHeapInit
    refine .acquire_checked (.pure rfl) fun mutex _ => .acquire_checked ?_ fun mapped _ => ?_
    · refine .acquire_checked (.release_bind rfl (.pure rfl)) fun memory _ => .pure ?_
      rw [add_zero]
      rfl
    · exact .pure (by rw [add_zero]; rfl)
  · unfold persistentHeapInit HeapAnswers.ok
    refine (Returns.acquire _ _).bind fun mutex hmutex => .ite (fun hzero => .pure ?_) fun hne => ?_
    · exact ⟨by simp [hmutex.mp hzero], by decide⟩
    rw [hmutex, Bool.not_eq_false] at hne
    refine (Returns.acquire _ _).bind fun mapped hmapped => .ite (fun hzero => ?_) fun hne' => ?_
    · refine (Returns.acquire _ _).bind fun memory hmemory => .ite (fun hzero' => .after fun _ => .pure ?_) fun hne' => ?_
      · exact ⟨by simp [hmapped.mp hzero, hmemory.mp hzero'], by decide⟩
      · rw [hmemory] at hne'
        exact .pure (show _ = true by simp [hne, hne'])
    · rw [hmapped, Bool.not_eq_false] at hne'
      exact .pure (show _ = true by simp [hne, hne'])

/-- All signals can be handled. -/
def allHandled (sigaction : Signal → Bool) : Bool :=
  sigaction .sigterm && sigaction .sigsegv && sigaction .sigabrt

/-- What is done when a signal comes, after the lifecycle manager has been started or not: what was done before, or
what the runtime does, and then the manager knows what was done before. -/
def Handles (handlers : Signal → Handler) : Option LifecycleManager → (Signal → Handler) → Prop
  | none, handlers' => handlers' = handlers
  | some manager, handlers' => (∀ signal, handlers' signal = .lgx) ∧
      ∀ handlers'', uninstallSignalHandlers manager.signalState handlers'' = handlers

theorem installSignalHandlers_spec (sigaction : Signal → Bool) (handlers : Signal → Handler) :
    match installSignalHandlers sigaction handlers with
    | (.error result, handlers') => allHandled sigaction = false ∧ result ≠ .success ∧ handlers' = handlers
    | (.ok old, handlers') => allHandled sigaction = true ∧ (∀ signal, handlers' signal = .lgx) ∧
        ∀ handlers'', uninstallSignalHandlers old handlers'' = handlers := by
  unfold installSignalHandlers
  split_ifs with hterm hsegv habrt
  · exact ⟨by simp_all [allHandled], by decide, rfl⟩
  · refine ⟨by simp_all [allHandled], by decide, ?_⟩
    funext signal
    cases signal <;> rfl
  · refine ⟨by simp_all [allHandled], by decide, ?_⟩
    funext signal
    cases signal <;> rfl
  · refine ⟨by simp_all [allHandled], ?_, ?_⟩
    · intro signal
      cases signal <;> rfl
    · intro handlers''
      funext signal
      cases signal <;> rfl

/-- The lifecycle manager starts if everything is to be had, and otherwise leaves the signals alone. -/
theorem lifecycleManagerInit_outcome (answers : GuardedAnswers) (sigaction : Signal → Bool)
    (handlers : Signal → Handler) :
    Outcome before (lifecycleManagerInit answers sigaction handlers) fun r left =>
      Tells (answers.ok && allHandled sigaction) r.1 ∧ Handles handlers r.1.toOption r.2 ∧
        left = some (objectsOf (·.toGuarded.objects) r.1.toOption + before) := by
  have hcreate := Guarded.create_starts answers
  refine .call_returns hcreate.triple hcreate.tame.names hcreate.returns (zero_add before).symm fun r hr => ?_
  cases r with
  | error result => exact .pure ⟨⟨by simp [hr.1], hr.2⟩, rfl, rfl⟩
  | ok g =>
      have hok : answers.ok = true := hr
      have hspec := installSignalHandlers_spec sigaction handlers
      dsimp only
      generalize installSignalHandlers sigaction handlers = installed at hspec ⊢
      obtain ⟨result, handlers'⟩ := installed
      cases result with
      | error result =>
          obtain ⟨hnot, hresult, hsame⟩ := hspec
          refine .spend g.destroy_triple g.destroy_tame.names fun _ => .pure ⟨⟨by simp [hnot], hresult⟩, hsame, ?_⟩
          exact congrArg some (zero_add before).symm
      | ok signalState =>
          obtain ⟨hall, hhandles⟩ := hspec
          exact .pure ⟨show _ = true by rw [hok, hall]; rfl, hhandles, rfl⟩

/-! ## Arenas -/

/-- An arena is mapped, with huge pages or without. -/
def ArenaAnswers.mapped (answers : ArenaAnswers) : Bool :=
  answers.huge || answers.plain

/-- What is left of an arena of this size when it is given back. -/
def ArenaAnswers.left (size : ℕ) (answers : ArenaAnswers) : Multiset Resource :=
  if answers.huge then if size % hugepageSize = 0 then 0 else {.hugeMapping}
  else if hasTail size then {.tail} else 0

/-- What is left of the arenas up to the first that is not mapped. -/
def leftOfArenas (size : ℕ) (answers : ℕ → ArenaAnswers) : List ℕ → Multiset Resource
  | [] => 0
  | i :: is => if (answers i).mapped then (answers i).left size + leftOfArenas size answers is else 0

/-- The families of resources. -/
def kinds (resources : Multiset (Resource × ℕ)) : Multiset Resource :=
  resources.map Prod.fst

@[simp] theorem kinds_zero : kinds 0 = 0 := rfl

@[simp] theorem kinds_add (resources resources' : Multiset (Resource × ℕ)) :
    kinds (resources + resources') = kinds resources + kinds resources' :=
  Multiset.map_add ..

theorem kinds_owned (kind : Resource) {name : ℕ} (hname : name ≠ 0) : kinds (owned kind name) = {kind} := by
  rw [owned_of_ne_zero kind hname]
  rfl

theorem without_iff {kind : Resource} {resources : Multiset (Resource × ℕ)} :
    Without kind resources ↔ kind ∉ kinds resources := by
  unfold Without kinds
  simp

theorem allocateHugePageArena_outcome (size : ℕ) (answers : ArenaAnswers) :
    Outcome before (allocateHugePageArena size answers) fun arena left =>
      arena.isSome = answers.mapped ∧ (∀ m, arena = some m → kinds (m.left size) = answers.left size) ∧
        left = some (objectsOf ArenaMapping.objects arena + before) := by
  unfold allocateHugePageArena ArenaAnswers.mapped ArenaAnswers.left
  refine .acquire_or (fun hhuge => .acquire_or (fun hplain => .pure ?_) fun hplain plain _ _ => ?_)
    fun hhuge huge hname _ => .pure ?_
  · exact ⟨by simp [hhuge, hplain], fun _ h => (by cases h), by simp [objectsOf]⟩
  · refine .acquire_bind fun tail htail => .pure ⟨by simp [hplain], ?_, ?_⟩
    · rintro m ⟨rfl⟩
      rw [if_neg (by simp [hhuge])]
      by_cases hhas : hasTail size = true
      · rw [if_pos hhas]
        exact (congrArg kinds (zero_add _)).trans (kinds_owned .tail fun hzero => by simp [htail.mp hzero] at hhas)
      · rw [if_neg hhas, htail.mpr (by simpa using hhas)]
        rfl
    · change some (owned .tail tail + (owned .mapping plain + before)) =
        some (owned .mapping plain + owned .tail tail + before)
      rw [add_left_comm, add_assoc]
  · refine ⟨by simp [hhuge], ?_, ?_⟩
    · rintro m ⟨rfl⟩
      rw [if_pos hhuge]
      by_cases hsize : size % hugepageSize = 0
      · simp [ArenaMapping.left, hsize]
      · simp [ArenaMapping.left, hsize, kinds_owned _ hname]
    · simp [objectsOf, ArenaMapping.objects]

theorem mapArenas_outcome (size : ℕ) (answers : ℕ → ArenaAnswers) (is : List ℕ) (arenas : List ArenaMapping) :
    Outcome ((arenas.map ArenaMapping.objects).sum + rest) (mapArenas size answers is arenas) fun r left =>
      r.isSome = is.all (fun i => (answers i).mapped) ∧ ∃ lost, (r.isSome = true → lost = 0) ∧
        kinds (lost + ((r.getD []).map (ArenaMapping.left size)).sum) =
          kinds (arenas.map (ArenaMapping.left size)).sum + leftOfArenas size answers is ∧
        left = some (((r.getD []).map ArenaMapping.objects).sum + (lost + rest)) := by
  induction is generalizing arenas with
  | nil => exact .pure ⟨rfl, 0, fun _ => rfl, by simp [leftOfArenas], by simp⟩
  | cons i is ih =>
      refine (allocateHugePageArena_outcome size (answers i)).bind (fun arena left harena => ?_) fun _ h => by cases h.2.2
      obtain ⟨hmapped, hleft, hsome⟩ := harena
      obtain rfl := Option.some.inj hsome
      cases arena with
      | none =>
          have hnot : (answers i).mapped = false := hmapped.symm
          refine .call (Triple.forM_leaving (freeHugePageArena_triple size) arenas)
            (Tame.forM (freeHugePageArena_tame size) arenas).names (zero_add _) fun _ => .pure ⟨?_, ?_⟩
          · simp [hnot]
          · refine ⟨(arenas.map (ArenaMapping.left size)).sum, (fun h => by cases h), ?_, ?_⟩
            · simp [leftOfArenas, hnot]
            · simp
      | some m =>
          have hyes : (answers i).mapped = true := hmapped.symm
          have hbefore : objectsOf ArenaMapping.objects (some m) + ((arenas.map ArenaMapping.objects).sum + rest) =
              ((arenas ++ [m]).map ArenaMapping.objects).sum + rest := by
            rw [List.map_append, List.sum_append, List.map_singleton, List.sum_singleton, ← add_assoc]
            exact congrArg (· + rest) (add_comm _ _)
          refine .of_eq hbefore ((ih (arenas ++ [m])).mono fun r left hr => ?_)
          obtain ⟨hall, lost, hlost, hkinds, hheld⟩ := hr
          refine ⟨by simp [hall, hyes], lost, hlost, ?_, hheld⟩
          rw [hkinds, leftOfArenas, if_pos hyes, List.map_append, List.sum_append, kinds_add, List.map_singleton,
            List.sum_singleton, hleft m rfl, add_assoc]

/-- The numbers of the arenas. -/
def arenaNumbers : List ℕ :=
  List.range FrameArena.frameArenaCount

/-- The mutex and the arenas are to be had. -/
def StartAnswers.arenasOk (answers : StartAnswers) : Bool :=
  answers.resetMutex && arenaNumbers.all fun i => (answers.arenas i).mapped

/-- What is left of the arenas that are mapped, if it comes to that. -/
def StartAnswers.leftOfArenas (answers : StartAnswers) (configuredArenaSize : ℕ) : Multiset Resource :=
  if answers.resetMutex then
    Subsystems.leftOfArenas (FrameArena.arenaSize configuredArenaSize) answers.arenas arenaNumbers
  else 0

theorem frameArenaInit_outcome (configuredArenaSize : ℕ) (answers : StartAnswers) :
    Outcome before (frameArenaInit configuredArenaSize answers.resetMutex answers.arenas) fun r left =>
      Tells answers.arenasOk r ∧ ∃ lost, (answers.arenasOk = true → lost = 0) ∧
        kinds (lost + objectsOf FrameArenas.left r.toOption) = answers.leftOfArenas configuredArenaSize ∧
        left = some (objectsOf FrameArenas.objects r.toOption + (lost + before)) := by
  unfold frameArenaInit StartAnswers.arenasOk StartAnswers.leftOfArenas
  refine .acquire_or (fun hmutex => .pure ⟨⟨by simp [hmutex], by decide⟩, 0, fun _ => rfl, by simp [hmutex], by simp⟩)
    fun hmutex mutex _ _ => ?_
  have hmap := @mapArenas_outcome (owned .mutex mutex + before) (FrameArena.arenaSize configuredArenaSize)
    answers.arenas arenaNumbers []
  rw [List.map_nil, List.sum_nil, zero_add] at hmap
  refine hmap.bind (fun r left hr => ?_) fun _ h => ?_
  · obtain ⟨hall, lost, hlost, hkinds, hsome⟩ := hr
    obtain rfl := Option.some.inj hsome
    rw [if_pos hmutex]
    cases r with
    | none =>
        have hnot : (arenaNumbers.all fun i => (answers.arenas i).mapped) = false := hall.symm
        refine .of_eq ((zero_add _).trans (add_left_comm ..)) (.release_bind rfl (.pure ⟨⟨by simp [hnot], by decide⟩, lost, ?_, ?_, ?_⟩))
        · simp [hnot]
        · simpa using hkinds
        · simp
    | some arenas =>
        have hyes : (arenaNumbers.all fun i => (answers.arenas i).mapped) = true := hall.symm
        refine .pure ⟨show _ = true by rw [hmutex, hyes]; rfl, lost, fun _ => hlost rfl, ?_, ?_⟩
        · simpa [FrameArenas.left] using hkinds
        · rw [objectsOf_ok, FrameArenas.objects, Option.getD_some]
          congr 1
          abel
  · obtain ⟨-, lost, -, -, hnone⟩ := h
    cases hnone

/-- The arenas and the heap start if everything is to be had.  What is lost otherwise is left of the arenas. -/
theorem intentAllocatorInit_outcome (configuredArenaSize : ℕ) (answers : StartAnswers) (state : HugepageState) :
    Outcome before (intentAllocatorInit configuredArenaSize answers.resetMutex answers.arenas answers.heap state)
      fun r left => Tells (answers.arenasOk && answers.heap.ok state) r ∧ ∃ lost,
        ((answers.arenasOk && answers.heap.ok state) = true → lost = 0) ∧ kinds (lost + objectsOf (fun allocators => allocators.1.left) r.toOption) =
          answers.leftOfArenas configuredArenaSize ∧
        left = some (objectsOf allocatorObjects r.toOption + (lost + before)) := by
  unfold intentAllocatorInit
  refine (frameArenaInit_outcome configuredArenaSize answers).bind (fun r left hr => ?_) fun _ h => ?_
  · obtain ⟨htells, lost, hlost, hkinds, hsome⟩ := hr
    obtain rfl := Option.some.inj hsome
    cases r with
    | error result => exact .pure ⟨⟨by simp [htells.1], htells.2⟩, lost, by simp [htells.1], hkinds, rfl⟩
    | ok frames =>
        have harenas : answers.arenasOk = true := htells
        have hheap := persistentHeapInit_starts answers.heap state
        refine .call_returns hheap.triple hheap.tame.names hheap.returns (zero_add _).symm fun r hr => ?_
        cases r with
        | error result =>
            refine .call (frameArenaShutdown_triple frames) (frameArenaShutdown_tame frames).names (zero_add _)
              fun _ => .pure ⟨⟨by simp [hr.1], hr.2⟩, lost + frames.left, by simp [hr.1], ?_, ?_⟩
            · simpa using hkinds
            · rw [objectsOf_error, zero_add]
              congr 1
              abel
        | ok heap =>
            have hok : answers.heap.ok state = true := hr
            refine .pure ⟨show _ = true by rw [harenas, hok]; rfl, lost, fun _ => hlost harenas, hkinds, ?_⟩
            rw [objectsOf_ok, objectsOf_ok, objectsOf_ok, allocatorObjects, add_assoc]
  · obtain ⟨-, lost, -, -, hnone⟩ := h
    cases hnone

/-! ## The memory manager -/

namespace ManagerAnswers

/-- All mutexes of the size classes are to be had, the key, and the mutexes of the caches and the intents. -/
def guards (answers : ManagerAnswers) : Bool :=
  (List.range 16).all answers.poolMutex && answers.cacheKey && answers.cacheListMutex && answers.intentMutex

/-- Nothing is missing once the pools have memory. -/
def completes (answers : ManagerAnswers) : Bool :=
  answers.guards && answers.tracked

/-- What is lost with the memory manager: the key and the mutex of the caches, if just the table is missing. -/
def lost (answers : ManagerAnswers) : Multiset Resource :=
  if answers.guards && !answers.tracked then {.key, .mutex} else 0

/-- Where the memory of the pools comes from, if it comes to that. -/
def family (answers : ManagerAnswers) (state : HugepageState) : Option Resource :=
  if !answers.calloc then none
  else if triesHugePages state && answers.mmap then some .mapping
  else if answers.malloc then some .heap
  else none

end ManagerAnswers

theorem initPoolMutexes_triple (answers : ℕ → Bool) (is mutexes : List ℕ) :
    Triple (mutexes.map (owned Resource.mutex)).sum (initPoolMutexes answers is mutexes) fun r =>
      (r.2.map (owned .mutex)).sum := by
  induction is generalizing mutexes with
  | nil => exact .pure rfl
  | cons i is ih =>
      refine .acquire_checked (.pure rfl) fun mutex _ => .of_eq ?_ (ih (mutexes ++ [mutex]))
      rw [List.map_append, List.sum_append, List.map_singleton, List.sum_singleton, add_comm]

theorem initPoolMutexes_returns (answers : ℕ → Bool) (is mutexes : List ℕ) :
    Returns (initPoolMutexes answers is mutexes) fun r => r.1 = is.all answers := by
  induction is generalizing mutexes with
  | nil => exact .pure rfl
  | cons i is ih =>
      refine (Returns.acquire _ _).bind fun mutex hmutex => .ite (fun hzero => .pure ?_) fun hne ledger => ?_
      · simp [hmutex.mp hzero]
      · rw [hmutex, Bool.not_eq_false] at hne
        simp [hne, ih (mutexes ++ [mutex]) ledger]

/-- What becomes of the pools when they are given back to the heap: all is well if they came from there. -/
def Abandoned (kind : Resource) (rest : Multiset (Resource × ℕ)) (left : Option (Multiset (Resource × ℕ))) : Prop :=
  (kind = .mapping ∧ left = none) ∨ (kind = .heap ∧ left = some rest)

variable {kind : Resource} {block base : ℕ} {poolMutexes : List ℕ}

theorem abandonPools_outcome {Result : Type} (result : Result) (hkind : kind = .heap ∨ kind = .mapping)
    (hname : base ≠ 0) (hfresh : kind = .mapping → (.heap, base) ∉ owned .heap block + rest) :
    Outcome ((poolMutexes.map (owned .mutex)).sum + (owned kind base + (owned .heap block + rest)))
      (do
        abandonPools poolMutexes base block
        return result)
      fun r left => r = result ∧ Abandoned kind rest left := by
  unfold abandonPools
  simp only [bind_assoc]
  refine .spend (releaseAll_triple .mutex poolMutexes) (releaseAll_tame _ _).names fun _ => ?_
  rcases hkind with rfl | rfl
  · exact .release_bind rfl (.release_bind rfl (.pure ⟨rfl, .inr ⟨rfl, rfl⟩⟩))
  · refine .breaks hname (fun hmem => ?_) (Extends.bind (.release _ _) fun _ => .pure _)
      (.after fun _ => .pure ⟨rfl, .inl ⟨rfl, rfl⟩⟩)
    rcases Multiset.mem_add.mp hmem with hmem | hmem
    · exact absurd (mem_owned.mp hmem).2.1 (by decide)
    · exact hfresh rfl hmem

/-- What a start of the memory manager comes to whose pools have memory. -/
structure PoolsStarted (answers : ManagerAnswers) (useHugePages : Bool) (kind : Resource) (base : ℕ)
    (rest : Multiset (Resource × ℕ)) (r : Except LgxResult Manager) (left : Option (Multiset (Resource × ℕ))) :
    Prop where
  tells : Tells answers.completes r
  made : ∀ manager, r = .ok manager → manager.useHugePages = useHugePages ∧
    left = some (owned .key manager.cacheKey + (owned kind base + manager.parts) + rest)
  abandoned : answers.completes = false → ∃ lost, kinds lost = answers.lost ∧ Abandoned kind (lost + rest) left

/-- The exits of `lgx_memory_manager_init`. -/
theorem abandonPools_started {answers : ManagerAnswers} {useHugePages : Bool} {lost : Multiset (Resource × ℕ)}
    (hkind : kind = .heap ∨ kind = .mapping) (hname : base ≠ 0)
    (hfresh : kind = .mapping → (.heap, base) ∉ owned .heap block + (lost + rest))
    (hfails : answers.completes = false) (hlost : kinds lost = answers.lost) :
    Outcome ((poolMutexes.map (owned .mutex)).sum + (owned kind base + (owned .heap block + (lost + rest))))
      (do
        abandonPools poolMutexes base block
        return .error .outOfMemory)
      (PoolsStarted answers useHugePages kind base rest) := by
  refine (abandonPools_outcome _ hkind hname hfresh).mono fun r left h => ?_
  obtain ⟨rfl, habandoned⟩ := h
  exact ⟨⟨hfails, by decide⟩, (fun _ h => by cases h), fun _ => ⟨lost, hlost, habandoned⟩⟩

/-- The pools have memory: the manager is made, or the pools are given back to the heap. -/
theorem initPools_outcome (answers : ManagerAnswers) (useHugePages : Bool) (hkind : kind = .heap ∨ kind = .mapping)
    (hname : base ≠ 0) (hfresh : kind = .mapping → (.heap, base) ∉ owned .heap block + rest) :
    Outcome (owned kind base + (owned .heap block + rest)) (initPools answers block base useHugePages)
      (PoolsStarted answers useHugePages kind base rest) := by
  unfold initPools
  refine .call_returns (initPoolMutexes_triple answers.poolMutex (List.range 16) [])
    (initPoolMutexes_tame _ _ _).names (initPoolMutexes_returns _ _ _) (zero_add _).symm fun r hr => ?_
  obtain ⟨complete, poolMutexes⟩ := r
  have hcomplete : complete = (List.range 16).all answers.poolMutex := hr
  -- the exits on which nothing is lost
  have habandon : answers.guards = false →
      Outcome ((poolMutexes.map (owned .mutex)).sum + (owned kind base + (owned .heap block + rest))) (do
        abandonPools poolMutexes base block
        return .error .outOfMemory) (PoolsStarted answers useHugePages kind base rest) := by
    intro hguards
    refine .of_eq (by rw [zero_add]) (abandonPools_started hkind hname (by rwa [zero_add]) ?_ ?_)
    · simp [ManagerAnswers.completes, hguards]
    · simp [ManagerAnswers.lost, hguards]
  refine .ite (fun hnot => habandon ?_) fun hall => ?_
  · rw [Bool.not_eq_true'] at hnot
    rw [ManagerAnswers.guards, ← hcomplete, hnot]
    rfl
  rw [Bool.not_eq_true, Bool.not_eq_false'] at hall
  rw [hall] at hcomplete
  refine .acquire_or (fun hkey => habandon ?_) fun hkey cacheKey hkeyName _ => ?_
  · simp [ManagerAnswers.guards, hkey]
  refine .acquire_or (fun hlist => .release_bind rfl (habandon ?_)) fun hlist cacheListMutex hlistName _ => ?_
  · simp [ManagerAnswers.guards, hlist]
  refine .acquire_or (fun hintent => .release_bind rfl (.release_bind rfl (habandon ?_)))
    fun hintent intentMutex _ _ => ?_
  · simp [ManagerAnswers.guards, hintent]
  have hguards : answers.guards = true := by
    rw [ManagerAnswers.guards, ← hcomplete, hkey, hlist, hintent]
    rfl
  refine .acquire_or (fun htracked => .release_bind rfl ?_) fun htracked tracked _ _ => .pure ⟨?_, ?_, ?_⟩
  · have hexit := @abandonPools_started rest kind block base poolMutexes answers useHugePages
      (owned .key cacheKey + owned .mutex cacheListMutex) hkind hname ?_ ?_ ?_
    · exact .of_eq (by abel) hexit
    · intro hmapping hmem
      simp only [Multiset.mem_add, mem_owned] at hmem
      have hnot := hfresh hmapping
      simp only [Multiset.mem_add, mem_owned] at hnot
      tauto
    · simp [ManagerAnswers.completes, htracked]
    · rw [kinds_add, kinds_owned _ hkeyName, kinds_owned _ hlistName, ManagerAnswers.lost, hguards, htracked]
      rfl
  · change _ = true
    rw [ManagerAnswers.completes, hguards, htracked]
    rfl
  · rintro manager ⟨rfl⟩
    refine ⟨rfl, congrArg some ?_⟩
    unfold Manager.parts
    abel
  · intro hfails
    rw [ManagerAnswers.completes, hguards, htracked] at hfails
    cases hfails

theorem hugepagesInit_triple (answers : HugePageAnswers) (pages : HugePageFile) :
    Triple pages.objects (hugepagesInit answers pages) HugePageFile.objects := by
  unfold hugepagesInit
  refine .ite (fun _ => .pure rfl) fun hclosed => ?_
  have hnone : pages.objects = 0 := by
    rw [HugePageFile.objects, pages.closed (by simpa using hclosed)]
    rfl
  rw [hnone]
  exact (Triple.acquire _ _).bind fun hugetlbfsFd => .pure rfl

theorem hugepagesInit_returns (answers : HugePageAnswers) (pages : HugePageFile) :
    Returns (hugepagesInit answers pages) fun pages' =>
      pages'.toHugepageState = detectHugePages pages.toHugepageState answers := by
  unfold hugepagesInit
  refine .ite (fun hopen => .pure ?_) fun _ => .after fun _ => .pure rfl
  exact (if_pos hopen).symm

/-- What a start of the memory manager comes to. -/
structure ManagerStarted (answers : ManagerAnswers) (state : HugepageState) (rest : Multiset (Resource × ℕ))
    (r : Except LgxResult Manager × Pools) (left : Option (Multiset (Resource × ℕ))) : Prop where
  tells : Tells ((answers.family state).isSome && answers.completes) r.1
  made : ∀ manager, r.1 = .ok manager → r.2.pages.toHugepageState = state ∧ manager.useHugePages = state.available ∧
    (∃ kind base, r.2.base = some (kind, base) ∧ base ≠ 0 ∧ answers.family state = some kind) ∧
      left = some (manager.objects r.2 + (r.2.pages.objects + rest))
  refused : answers.family state = none → left = some (r.2.pages.objects + rest)
  abandoned : ∀ kind, answers.family state = some kind → answers.completes = false →
    ∃ lost, kinds lost = answers.lost ∧ Abandoned kind (r.2.pages.objects + (lost + rest)) left

/-- The pools have memory. -/
theorem PoolsStarted.manager {answers : ManagerAnswers} {state : HugepageState} {pages : HugePageFile}
    {r : Except LgxResult Manager} {left : Option (Multiset (Resource × ℕ))}
    (h : PoolsStarted answers state.available kind base (pages.objects + rest) r left)
    (hpages : pages.toHugepageState = state) (hname : base ≠ 0) (hfamily : answers.family state = some kind) :
    ManagerStarted answers state rest (r, { pages, base := some (kind, base) }) left := by
  refine ⟨?_, fun manager hr => ?_, fun hnone => ?_, fun kind' hkind' hfails => ?_⟩
  · rw [hfamily, Option.isSome_some, Bool.true_and]
    exact h.tells
  · obtain ⟨huses, hleft⟩ := h.made manager hr
    refine ⟨hpages, huses, ⟨kind, base, rfl, hname, hfamily⟩, ?_⟩
    rw [hleft, Manager.objects, Pools.memory, Option.elim_some]
  · rw [hfamily] at hnone
    cases hnone
  · obtain rfl := Option.some.inj (hfamily.symm.trans hkind')
    obtain ⟨lost, hlost, habandoned⟩ := h.abandoned hfails
    refine ⟨lost, hlost, ?_⟩
    rwa [add_left_comm]

theorem memoryManagerInit_outcome (answers : ManagerAnswers) (pools : Pools) :
    Outcome (pools.pages.objects + rest) (memoryManagerInit answers pools)
      (ManagerStarted answers (detectHugePages pools.pages.toHugepageState answers.pages) rest) := by
  have hrefused : ∀ {state pools' left}, answers.family state = none → left = pools'.pages.objects + rest →
      ManagerStarted answers state rest (.error .outOfMemory, pools') (some left) := by
    intro state pools' left hfamily hleft
    refine ⟨⟨by rw [hfamily]; rfl, by decide⟩, (fun _ h => by cases h), fun _ => congrArg some hleft, fun kind h => ?_⟩
    rw [hfamily] at h
    cases h
  unfold memoryManagerInit
  refine .acquire_or (fun hcalloc => .pure (hrefused ?_ rfl)) fun hcalloc block _ _ => ?_
  · simp [ManagerAnswers.family, hcalloc]
  refine .call_returns (hugepagesInit_triple answers.pages pools.pages) (hugepagesInit_tame _ _).names
    (hugepagesInit_returns _ _) (add_left_comm ..) fun pages hpages => ?_
  have huses : (pages.initialized && pages.available) =
      (detectHugePages pools.pages.toHugepageState answers.pages).available := by
    rw [← hpages]
    have hopen := detectHugePages_initialized pools.pages.toHugepageState answers.pages
    rw [← hpages] at hopen
    rw [hopen, Bool.true_and]
  dsimp only
  rw [huses, hpages]
  generalize detectHugePages pools.pages.toHugepageState answers.pages = state at hpages
  refine .acquire_or (fun hmapped => .acquire_or (fun hmalloc => ?_) fun hmalloc base hname _ => ?_)
    fun hmapped base hname hfresh => ?_
  · have hfamily : answers.family state = none := by simp [ManagerAnswers.family, hmapped, hmalloc]
    refine .call (hugepagesShutdown_triple pages) (hugepagesShutdown_tame pages).names rfl fun _ => ?_
    exact .release_bind (add_left_comm ..) (.pure (hrefused hfamily rfl))
  · have hfamily : answers.family state = some .heap := by simp [ManagerAnswers.family, hcalloc, hmapped, hmalloc]
    have hpools := @initPools_outcome (pages.objects + rest) .heap block base answers state.available (.inl rfl) hname
      fun h => by cases h
    rw [add_left_comm pages.objects]
    exact hpools.bind (fun r left hr => .pure (hr.manager hpages hname hfamily)) fun r hr =>
      ⟨.pure _, .pure (hr.manager hpages hname hfamily)⟩
  · have hfamily : answers.family state = some .mapping := by simp [ManagerAnswers.family, hcalloc, hmapped]
    have hfresh' : (Resource.heap, base) ∉ owned .heap block + (pages.objects + rest) := by
      rw [add_left_comm]
      exact hfresh .heap
    have hpools := @initPools_outcome (pages.objects + rest) .mapping block base answers state.available (.inr rfl)
      hname fun _ => hfresh'
    rw [add_left_comm pages.objects]
    exact hpools.bind (fun r left hr => .pure (hr.manager hpages hname hfamily)) fun r hr =>
      ⟨.pure _, .pure (hr.manager hpages hname hfamily)⟩

/-! ## All subsystems -/

namespace StartAnswers

/-- Everything is to be had that is needed before the memory manager. -/
def early (answers : StartAnswers) : Bool :=
  answers.counters && answers.hardwareAdapter && answers.capabilityDetector

/-- Where the memory of the pools comes from, if it comes to that. -/
def family (answers : StartAnswers) (state : HugepageState) : Option Resource :=
  if answers.early then answers.manager.family state else none

/-- Everything is to be had that is needed after the memory manager. -/
def late (answers : StartAnswers) (state : HugepageState) : Bool :=
  answers.arenasOk && answers.heap.ok state && answers.platform.ok &&
    (answers.lifecycle.ok && allHandled answers.sigaction) && answers.health.ok

/-- A mapping is given to the heap, or memory of the heap is taken for a mapping. -/
def Breaks (answers : StartAnswers) (state : HugepageState) : Prop :=
  (answers.family state = some .mapping ∧ answers.manager.completes = false) ∨
    (answers.family state = some .heap ∧ answers.manager.completes = true ∧ state.available = true ∧
      answers.late state = false)

/-- What is lost in the start. -/
def lost (answers : StartAnswers) (state : HugepageState) (configuredArenaSize : ℕ) : Multiset Resource :=
  if (answers.family state).isNone then 0
  else if !answers.manager.completes then answers.manager.lost
  else if answers.late state then 0
  else answers.leftOfArenas configuredArenaSize

/-- All subsystems start. -/
def succeeds (answers : StartAnswers) (state : HugepageState) : Bool :=
  (answers.family state).isSome && answers.manager.completes && answers.late state

end StartAnswers

/-- A runtime without subsystems. -/
def RuntimeState.idle (configuredArenaSize : ℕ) (pools : Pools) (handlers : Signal → Handler) : RuntimeState :=
  { RuntimeState.new with configuredArenaSize, pools, handlers }

variable {config : RuntimeConfig} {answers : StartAnswers} {state : HugepageState} {result : LgxResult}
  {handlers : Signal → Handler} {size : ℕ}

/-- What a start of the subsystems comes to. -/
structure SubsystemsStarted (answers : StartAnswers) (state : HugepageState) (size : ℕ) (handlers : Signal → Handler)
    (rest : Multiset (Resource × ℕ)) (r : LgxResult × RuntimeState) (left : Option (Multiset (Resource × ℕ))) :
    Prop where
  success : r.1 = .success ↔ answers.succeeds state = true
  fits : r.2.PoolsFit
  handles : Handles handlers r.2.lifecycleManager r.2.handlers
  initialized : r.2.initialized = false
  running : r.1 = .success → r.2.lifecycleManager.isSome = true
  broken : answers.family state = some .mapping → answers.manager.completes = false → left = none
  held : ¬(answers.family state = some .mapping ∧ answers.manager.completes = false) →
    ∃ lost, left = some (r.2.objects + (lost + rest)) ∧
      kinds lost + (if r.1 = .success then 0 else kinds r.2.left) = answers.lost state size
  matching : r.1 ≠ .success → left ≠ none → (r.2.PoolsMatch ↔ ¬answers.Breaks state)

/-- A start that does not get memory for the pools. -/
theorem started_of_refused (hresult : result ≠ .success) (hfamily : answers.family state = none)
    (hmanager : s.memoryManager = none) (hlifecycle : s.lifecycleManager = none) (hallocators : s.allocators = none)
    (hinitialized : s.initialized = false) :
    SubsystemsStarted answers state size s.handlers rest (result, s) (some (s.objects + rest)) := by
  refine ⟨iff_of_false hresult ?_, ?_, ?_, hinitialized, fun h => absurd h hresult, fun h => ?_,
    fun _ => ⟨0, ?_, ?_⟩, fun _ _ => ?_⟩
  · simp [StartAnswers.succeeds, hfamily]
  · intro manager kind base h
    rw [hmanager] at h
    cases h
  · dsimp only
    rw [hlifecycle]
    rfl
  · rw [hfamily] at h
    cases h
  · rw [zero_add]
  · simp [hresult, RuntimeState.left, hallocators, StartAnswers.lost, hfamily, objectsOf]
  · refine iff_of_true (fun manager h => ?_) ?_
    · rw [hmanager] at h
      cases h
    · simp [StartAnswers.Breaks, hfamily]

/-- A start whose memory manager gives the pools back. -/
theorem started_of_abandoned {left : Option (Multiset (Resource × ℕ))} {lost : Multiset (Resource × ℕ)}
    (hresult : result ≠ .success) (hfamily : answers.family state = some kind)
    (hfails : answers.manager.completes = false) (hkinds : kinds lost = answers.manager.lost)
    (habandoned : Abandoned kind (s.objects + (lost + rest)) left) (hmanager : s.memoryManager = none)
    (hlifecycle : s.lifecycleManager = none) (hallocators : s.allocators = none)
    (hinitialized : s.initialized = false) :
    SubsystemsStarted answers state size s.handlers rest (result, s) left := by
  refine ⟨iff_of_false hresult ?_, ?_, ?_, hinitialized, fun h => absurd h hresult, fun h _ => ?_,
    fun h => ⟨lost, ?_, ?_⟩, fun _ hsome => ?_⟩
  · simp [StartAnswers.succeeds, hfails]
  · intro manager kind base h
    rw [hmanager] at h
    cases h
  · dsimp only
    rw [hlifecycle]
    rfl
  · obtain rfl := Option.some.inj (hfamily.symm.trans h)
    rcases habandoned with ⟨-, hnone⟩ | ⟨hheap, -⟩
    · exact hnone
    · cases hheap
  · rcases habandoned with ⟨rfl, -⟩ | ⟨-, hleft⟩
    · exact absurd ⟨hfamily, hfails⟩ h
    · exact hleft
  · simp [hresult, RuntimeState.left, hallocators, StartAnswers.lost, hfamily, hfails, hkinds, objectsOf]
  · rcases habandoned with ⟨-, hnone⟩ | ⟨rfl, -⟩
    · exact absurd hnone hsome
    · refine iff_of_true (fun manager h => ?_) ?_
      · rw [hmanager] at h
        cases h
      · simp [StartAnswers.Breaks, hfamily, hfails]

/-- The memory manager has started, with pools from a family. -/
structure HasPools (answers : StartAnswers) (state : HugepageState) (kind : Resource) (s : RuntimeState) : Prop where
  family : answers.family state = some kind
  completes : answers.manager.completes = true
  manager : ∃ manager base, s.memoryManager = some manager ∧ s.pools.base = some (kind, base) ∧ base ≠ 0 ∧
    manager.useHugePages = state.available

/-- The pools are mapped only if huge pages are available. -/
theorem HasPools.kind_cases (h : HasPools answers state kind s) :
    kind = .heap ∨ kind = .mapping ∧ state.available = true := by
  have hfamily := h.family
  unfold StartAnswers.family ManagerAnswers.family triesHugePages at hfamily
  split_ifs at hfamily with hearly hcalloc htries hmalloc
  · simp only [Bool.and_eq_true] at htries
    exact .inr ⟨(Option.some.inj hfamily).symm, htries.1.1.2⟩
  · exact .inl (Option.some.inj hfamily).symm

theorem HasPools.fits (h : HasPools answers state kind s) : s.PoolsFit := by
  intro manager' kind' base' hmanager' hbase'
  obtain ⟨manager, base, hmanager, hbase, hname, huses⟩ := h.manager
  obtain rfl := Option.some.inj (hmanager.symm.trans hmanager')
  obtain ⟨rfl, rfl⟩ := Prod.mk.inj (Option.some.inj (hbase.symm.trans hbase'))
  refine ⟨hname, ?_⟩
  rw [huses]
  exact h.kind_cases

theorem HasPools.match_iff (h : HasPools answers state kind s) :
    s.PoolsMatch ↔ ¬(kind = .heap ∧ state.available = true) := by
  obtain ⟨manager, base, hmanager, hbase, hname, huses⟩ := h.manager
  have hiff : s.PoolsMatch ↔ kind = if state.available then .mapping else .heap := by
    rw [← huses]
    constructor
    · intro hmatch
      exact hmatch manager hmanager kind base hbase
    · intro hkind manager' hmanager' kind' base' hbase'
      obtain rfl := Option.some.inj (hmanager.symm.trans hmanager')
      obtain ⟨rfl, rfl⟩ := Prod.mk.inj (Option.some.inj (hbase.symm.trans hbase'))
      exact hkind
  rw [hiff]
  rcases h.kind_cases with rfl | ⟨rfl, havailable⟩
  · cases state.available <;> simp
  · simp [havailable]

/-- A start that fails after the memory manager has started. -/
theorem started_of_late {lost : Multiset (Resource × ℕ)} (hresult : result ≠ .success)
    (hpools : HasPools answers state kind s) (hlate : answers.late state = false)
    (hhandles : Handles handlers s.lifecycleManager s.handlers)
    (hkinds : kinds lost + kinds s.left = answers.leftOfArenas size) (hinitialized : s.initialized = false) :
    SubsystemsStarted answers state size handlers rest (result, s) (some (s.objects + (lost + rest))) := by
  refine ⟨iff_of_false hresult ?_, hpools.fits, hhandles, hinitialized, fun h => absurd h hresult, fun _ h => ?_,
    fun _ => ⟨lost, rfl, ?_⟩, fun _ _ => ?_⟩
  · simp [StartAnswers.succeeds, hlate]
  · rw [hpools.completes] at h
    cases h
  · simp [hresult, StartAnswers.lost, hpools.family, hpools.completes, hlate, hkinds]
  · refine hpools.match_iff.trans (not_congr ?_)
    simp [StartAnswers.Breaks, hpools.family, hpools.completes, hlate]

/-- A start that succeeds. -/
theorem started_of_success (hpools : HasPools answers state kind s) (hlate : answers.late state = true)
    (hhandles : Handles handlers s.lifecycleManager s.handlers) (hinitialized : s.initialized = false)
    (hrunning : s.lifecycleManager.isSome = true) :
    SubsystemsStarted answers state size handlers rest (.success, s) (some (s.objects + rest)) := by
  refine ⟨iff_of_true rfl ?_, hpools.fits, hhandles, hinitialized, fun _ => hrunning, fun _ h => ?_,
    fun _ => ⟨0, ?_, ?_⟩, fun h => absurd rfl h⟩
  · simp [StartAnswers.succeeds, hpools.family, hpools.completes, hlate]
  · rw [hpools.completes] at h
    cases h
  · rw [zero_add]
  · simp [StartAnswers.lost, hpools.family, hpools.completes, hlate]

section Objects

/-! What the runtime owns once a subsystem is there that was not. -/

variable (s)

theorem objects_withErrorHandler (h : s.errorHandler = none) (g : Guarded) :
    (s.withErrorHandler g).objects = g.objects + s.objects := by
  simp only [RuntimeState.objects, RuntimeState.upper, RuntimeState.lower, RuntimeState.withErrorHandler, h,
    objectsOf, Option.elim]
  abel

theorem objects_withCounters (h : s.counters = none) (mutex : ℕ) :
    (s.withCounters mutex).objects = owned .mutex mutex + s.objects := by
  simp only [RuntimeState.objects, RuntimeState.upper, RuntimeState.lower, RuntimeState.withCounters, h, objectsOf,
    Option.elim]
  abel

theorem objects_withHardwareAdapter (h : s.hardwareAdapter = none) (block : ℕ) :
    (s.withHardwareAdapter block).objects = owned .heap block + s.objects := by
  simp only [RuntimeState.objects, RuntimeState.upper, RuntimeState.lower, RuntimeState.withHardwareAdapter, h,
    objectsOf, Option.elim]
  abel

theorem objects_withCapabilityDetector (h : s.capabilityDetector = none) (block : ℕ) :
    (s.withCapabilityDetector block).objects = owned .heap block + s.objects := by
  simp only [RuntimeState.objects, RuntimeState.upper, RuntimeState.lower, RuntimeState.withCapabilityDetector, h,
    objectsOf, Option.elim]
  abel

/-- What the runtime owns without a memory manager, besides the file of the huge pages. -/
theorem objects_withPools (h : s.memoryManager = none) (pools : Pools) :
    (s.withPools pools).objects = pools.pages.objects + (s.upper + s.lower) := by
  simp only [RuntimeState.objects, RuntimeState.upper, RuntimeState.lower, RuntimeState.withPools, h, objectsOf,
    Option.elim]
  abel

theorem objects_withMemoryManager (h : s.memoryManager = none) (manager : Manager) :
    (s.withMemoryManager manager).objects = manager.objects s.pools + s.objects := by
  simp only [RuntimeState.objects, RuntimeState.upper, RuntimeState.lower, RuntimeState.withMemoryManager, h,
    objectsOf, Option.elim]
  abel

theorem objects_withAllocators (h : s.allocators = none) (allocators : FrameArenas × PersistentHeap) :
    (s.withAllocators allocators).objects = allocatorObjects allocators + s.objects := by
  simp only [RuntimeState.objects, RuntimeState.upper, RuntimeState.lower, RuntimeState.withAllocators, h, objectsOf,
    Option.elim]
  abel

theorem objects_withPlatformServices (h : s.platformServices = none) (services : PlatformServices) :
    (s.withPlatformServices services).objects = services.objects + s.objects := by
  simp only [RuntimeState.objects, RuntimeState.upper, RuntimeState.lower, RuntimeState.withPlatformServices, h,
    objectsOf, Option.elim]
  abel

theorem objects_withLifecycleManager (h : s.lifecycleManager = none) (manager : LifecycleManager) :
    (s.withLifecycleManager manager).objects = manager.toGuarded.objects + s.objects := by
  simp only [RuntimeState.objects, RuntimeState.upper, RuntimeState.lower, RuntimeState.withLifecycleManager, h,
    objectsOf, Option.elim]
  abel

theorem objects_withHealthMonitor (h : s.healthMonitor = none) (g : Guarded) :
    (s.withHealthMonitor g).objects = g.objects + s.objects := by
  simp only [RuntimeState.objects, RuntimeState.upper, RuntimeState.lower, RuntimeState.withHealthMonitor, h,
    objectsOf, Option.elim]
  abel

theorem objects_withTelemetryAndTrace (htelemetry : s.telemetry = none) (htrace : s.trace = none)
    (telemetry : Option Telemetry) (trace : Option Trace) :
    (s.withTelemetryAndTrace telemetry trace).objects =
      objectsOf Trace.objects trace + (objectsOf Telemetry.objects telemetry + s.objects) := by
  simp only [RuntimeState.objects, RuntimeState.upper, RuntimeState.lower, RuntimeState.withTelemetryAndTrace,
    htelemetry, htrace, objectsOf, Option.elim]
  abel

end Objects

theorem telemetryInit_triple (answers : GuardedAnswers) (ring : Bool) :
    Triple 0 (telemetryInit answers ring) fun r => objectsOf Telemetry.objects r.toOption := by
  unfold telemetryInit
  refine (Guarded.create_starts answers).triple.bind fun r => ?_
  cases r with
  | error result => exact .pure rfl
  | ok g =>
      refine .acquire_checked ?_ fun ringBuffer _ => .pure rfl
      exact g.destroy_triple.bind fun _ => .pure rfl

theorem telemetryIfAsked_triple (config : RuntimeConfig) (answers : StartAnswers) :
    Triple 0 (telemetryIfAsked config answers) (objectsOf Telemetry.objects) := by
  unfold telemetryIfAsked
  exact .ite (fun _ => (telemetryInit_triple _ _).bind fun _ => .pure rfl) fun _ => .pure rfl

theorem traceInit_triple (mutexInit calloc : Bool) :
    Triple 0 (traceInit mutexInit calloc none) (objectsOf Trace.objects) := by
  unfold traceInit
  refine .acquire_checked (.pure rfl) fun mutex _ => .acquire_checked (.release_bind rfl (.pure rfl)) fun events _ => ?_
  exact .pure (by rw [add_zero]; rfl)

/-- No subsystem is there but the error handler. -/
structure Unstarted (s : RuntimeState) : Prop where
  initialized : s.initialized = false
  counters : s.counters = none
  hardwareAdapter : s.hardwareAdapter = none
  capabilityDetector : s.capabilityDetector = none
  memoryManager : s.memoryManager = none
  allocators : s.allocators = none
  platformServices : s.platformServices = none
  lifecycleManager : s.lifecycleManager = none
  healthMonitor : s.healthMonitor = none
  telemetry : s.telemetry = none
  trace : s.trace = none

/-- The size of the arenas that a start asks for. -/
def RuntimeState.askedSize (s : RuntimeState) (config : RuntimeConfig) : ℕ :=
  (s.configureArenas config).configuredArenaSize

/-- The subsystems after the memory manager. -/
theorem startAfterManager_outcome (hinitialized : s.initialized = false)
    (hallocators : s.allocators = none) (hplatform : s.platformServices = none)
    (hlifecycle : s.lifecycleManager = none) (hhealth : s.healthMonitor = none) (htelemetry : s.telemetry = none)
    (htrace : s.trace = none) (hpools : HasPools answers state kind s)
    (hstate : s.pools.pages.toHugepageState = state) :
    Outcome (s.objects + rest) (startAfterManager config answers s)
      (SubsystemsStarted answers state s.configuredArenaSize s.handlers rest) := by
  unfold startAfterManager
  rw [hstate]
  refine (intentAllocatorInit_outcome s.configuredArenaSize answers state).bind (fun r left hr => ?_) fun _ h => ?_
  swap
  · obtain ⟨-, lost, -, -, hnone⟩ := h
    cases hnone
  obtain ⟨htells, lost, hlost, hkinds, hsome⟩ := hr
  obtain rfl := Option.some.inj hsome
  have hnone : Handles s.handlers s.lifecycleManager s.handlers := by
    rw [hlifecycle]
    rfl
  cases r with
  | error result =>
      have hlate : answers.late state = false := by simp [StartAnswers.late, htells.1]
      have hleft : kinds lost + kinds s.left = answers.leftOfArenas s.configuredArenaSize := by
        rw [RuntimeState.left, hallocators, ← kinds_add]
        exact hkinds
      rw [objectsOf_error, zero_add, add_left_comm]
      exact .pure (started_of_late htells.2 hpools hlate hnone hleft hinitialized)
  | ok allocators =>
      have hallocatorsOk : (answers.arenasOk && answers.heap.ok state) = true := htells
      obtain rfl := hlost hallocatorsOk
      rw [objectsOf_ok, zero_add, ← add_assoc, ← objects_withAllocators s hallocators]
      set s₁ := s.withAllocators allocators with hs₁
      have hleft : kinds (0 : Multiset (Resource × ℕ)) + kinds s₁.left =
          answers.leftOfArenas s.configuredArenaSize := by
        rw [← kinds_add]
        exact hkinds
      have hpools₁ : HasPools answers state kind s₁ := ⟨hpools.family, hpools.completes, hpools.manager⟩
      have hlater : ∀ {s' : RuntimeState} {result}, result ≠ .success → answers.late state = false →
          HasPools answers state kind s' → Handles s.handlers s'.lifecycleManager s'.handlers →
          s'.left = s₁.left → s'.initialized = false → SubsystemsStarted answers state s.configuredArenaSize
            s.handlers rest (result, s') (some (s'.objects + rest)) := by
        intro s' result hresult hlate hpools' hhandles hleft' hinitialized'
        rw [← hleft'] at hleft
        have hstarted : SubsystemsStarted answers state s.configuredArenaSize s.handlers rest (result, s')
            (some (s'.objects + (0 + rest))) := started_of_late hresult hpools' hlate hhandles hleft hinitialized'
        rwa [zero_add] at hstarted
      refine (platformServicesInit_starts _ _ _).call (fun hfails result hresult => ?_) fun hplatformOk services => ?_
      · exact hlater hresult (by simp [StartAnswers.late, hfails]) hpools₁ hnone rfl hinitialized
      rw [← add_assoc, ← objects_withPlatformServices s₁ hplatform]
      set s₂ := s₁.withPlatformServices services with hs₂
      refine (lifecycleManagerInit_outcome _ _ _).bind (fun r left hr => ?_) fun _ h => by cases h.2.2
      obtain ⟨manager, handlers⟩ := r
      obtain ⟨htells, hhandles, hsome⟩ := hr
      obtain rfl := Option.some.inj hsome
      dsimp only
      cases manager with
      | error result =>
          have hobjects : s₂.objects = (s₂.withHandlers handlers).objects := rfl
          have hhandles' : Handles s.handlers (s₂.withHandlers handlers).lifecycleManager handlers := by
            change Handles s.handlers s.lifecycleManager handlers
            rwa [hlifecycle]
          rw [objectsOf_error, zero_add, hobjects]
          exact .pure (hlater htells.2 (by simp [StartAnswers.late, htells.1]) ⟨hpools.family, hpools.completes,
            hpools.manager⟩ hhandles' rfl hinitialized)
      | ok manager =>
          have hlifecycleOk : (answers.lifecycle.ok && allHandled answers.sigaction) = true := htells
          have hobjects : manager.toGuarded.objects + s₂.objects =
              ((s₂.withHandlers handlers).withLifecycleManager manager).objects := by
            rw [objects_withLifecycleManager (s₂.withHandlers handlers) hlifecycle]
            rfl
          rw [objectsOf_ok, ← add_assoc, hobjects]
          set s₃ := (s₂.withHandlers handlers).withLifecycleManager manager with hs₃
          refine (Guarded.create_starts _).call (fun hfails result hresult => ?_) fun hhealthOk monitor => ?_
          · exact hlater hresult (by simp [StartAnswers.late, hfails]) ⟨hpools.family, hpools.completes,
              hpools.manager⟩ hhandles rfl hinitialized
          rw [← add_assoc, ← objects_withHealthMonitor s₃ hhealth]
          set s₄ := s₃.withHealthMonitor monitor with hs₄
          have htrace₄ : s₄.trace = none := htrace
          refine .call (telemetryIfAsked_triple config answers) (telemetryIfAsked_tame _ _).names (zero_add _).symm
            fun telemetry => ?_
          rw [htrace₄]
          refine .call (traceInit_triple _ _) (traceInit_tame _ _ _).names (zero_add _).symm fun trace => ?_
          rw [← add_assoc, ← add_assoc, add_assoc (objectsOf Trace.objects trace),
            ← objects_withTelemetryAndTrace s₄ htelemetry htrace]
          refine .pure (started_of_success ⟨hpools.family, hpools.completes, hpools.manager⟩ ?_ hhandles hinitialized rfl)
          rw [StartAnswers.late, hallocatorsOk, hplatformOk, hlifecycleOk, hhealthOk]
          rfl

theorem initializeSubsystems_outcome (hs : Unstarted s)
    (hstate : state = detectHugePages s.pools.pages.toHugepageState answers.manager.pages) :
    Outcome (s.objects + rest) (initializeSubsystems config answers s)
      (SubsystemsStarted answers state (s.askedSize config) s.handlers rest) := by
  have hrefused : ∀ {s' : RuntimeState} {result}, s'.memoryManager = none → s'.lifecycleManager = none →
      s'.allocators = none → s'.initialized = false → s'.handlers = s.handlers → answers.family state = none →
      result ≠ .success → SubsystemsStarted answers state (s.askedSize config) s.handlers rest (result, s')
        (some (s'.objects + rest)) := by
    intro s' result hmanager hlifecycle hallocators hinitialized hhandlers hfamily hresult
    rw [← hhandlers]
    exact started_of_refused hresult hfamily hmanager hlifecycle hallocators hinitialized
  unfold initializeSubsystems
  rw [hs.counters]
  refine (countersInit_starts answers.counters).call (fun hfails result => ?_) fun hcounters counters => ?_
  · exact hrefused hs.memoryManager hs.lifecycleManager hs.allocators hs.initialized rfl
      (by simp [StartAnswers.family, StartAnswers.early, hfails])
  rw [← add_assoc, ← objects_withCounters s hs.counters]
  set s₁ := s.withCounters counters with hs₁
  refine (plainInit_starts answers.hardwareAdapter).call (fun hfails result => ?_) fun hadapter adapter => ?_
  · exact hrefused hs.memoryManager hs.lifecycleManager hs.allocators hs.initialized rfl
      (by simp [StartAnswers.family, StartAnswers.early, hfails])
  rw [← add_assoc, ← objects_withHardwareAdapter s₁ hs.hardwareAdapter]
  set s₂ := s₁.withHardwareAdapter adapter with hs₂
  refine (plainInit_starts answers.capabilityDetector).call (fun hfails result => ?_) fun hdetector detector => ?_
  · exact hrefused hs.memoryManager hs.lifecycleManager hs.allocators hs.initialized rfl
      (by simp [StartAnswers.family, StartAnswers.early, hfails])
  rw [← add_assoc, ← objects_withCapabilityDetector s₂ hs.capabilityDetector]
  set s₃ := s₂.withCapabilityDetector detector with hs₃
  have hearly : answers.family state = answers.manager.family state :=
    if_pos (by rw [StartAnswers.early, hcounters, hadapter, hdetector]; rfl)
  have hpools : s₃.objects + rest = s₃.pools.pages.objects + (s₃.upper + s₃.lower + rest) := by
    rw [← add_assoc, ← objects_withPools s₃ hs.memoryManager]
    rfl
  rw [hpools]
  have hfailed : ∀ {result pools left}, ManagerStarted answers.manager state (s₃.upper + s₃.lower + rest)
      (.error result, pools) left → SubsystemsStarted answers state (s.askedSize config) s.handlers rest
        (result, s₃.withPools pools) left := by
    intro result pools left hr
    have hobjects := objects_withPools s₃ hs.memoryManager pools
    cases hfamily : answers.manager.family state with
    | none =>
        have hleft := hr.refused hfamily
        rw [← add_assoc, ← hobjects] at hleft
        rw [hleft]
        exact hrefused hs.memoryManager hs.lifecycleManager hs.allocators hs.initialized rfl
          (hearly.trans hfamily) hr.tells.2
    | some kind =>
        have hfails : answers.manager.completes = false := by
          have htells := hr.tells.1
          rwa [hfamily, Option.isSome_some, Bool.true_and] at htells
        obtain ⟨lost, hlost, habandoned⟩ := hr.abandoned kind hfamily hfails
        have hrest : pools.pages.objects + (lost + (s₃.upper + s₃.lower + rest)) =
            (s₃.withPools pools).objects + (lost + rest) := by
          rw [hobjects]
          abel
        rw [hrest] at habandoned
        exact started_of_abandoned hr.tells.2 (hearly.trans hfamily) hfails hlost habandoned hs.memoryManager
          hs.lifecycleManager hs.allocators hs.initialized
  have hmanager : Outcome (s₃.pools.pages.objects + (s₃.upper + s₃.lower + rest))
      (memoryManagerInit answers.manager s₃.pools)
      (ManagerStarted answers.manager state (s₃.upper + s₃.lower + rest)) := by
    rw [hstate]
    exact memoryManagerInit_outcome answers.manager s.pools
  refine hmanager.bind (fun r left hr => ?_) fun r hr => ?_
  · obtain ⟨manager, pools⟩ := r
    cases manager with
    | error result => exact .pure (hfailed hr)
    | ok manager =>
        have hok : ((answers.manager.family state).isSome && answers.manager.completes) = true := hr.tells
        obtain ⟨hpages, huses, ⟨kind, base, hbase, hname, hfamily⟩, hleft⟩ := hr.made manager rfl
        set s₄ := ((s₃.withPools pools).withMemoryManager manager).configureArenas config with hs₄
        have hpools₄ : HasPools answers state kind s₄ :=
          ⟨hearly.trans hfamily, (Bool.and_eq_true_iff.mp hok).2, manager, base, rfl, hbase, hname, huses⟩
        have hobjects : left = s₄.objects + rest := by
          have hsame : s₄.objects = ((s₃.withPools pools).withMemoryManager manager).objects := rfl
          rw [Option.some.inj hleft, hsame, objects_withMemoryManager (s₃.withPools pools) hs.memoryManager,
            objects_withPools s₃ hs.memoryManager]
          change manager.objects pools + _ = manager.objects pools + _ + _
          abel
        rw [hobjects]
        exact startAfterManager_outcome hs.initialized hs.allocators hs.platformServices hs.lifecycleManager
          hs.healthMonitor hs.telemetry hs.trace hpools₄ hpages
  · obtain ⟨manager, pools⟩ := r
    cases manager with
    | error result => exact ⟨.pure _, .pure (hfailed hr)⟩
    | ok manager =>
        obtain ⟨-, -, -, hnone⟩ := hr.made manager rfl
        cases hnone

end LgxRuntime.Runtime.Subsystems
