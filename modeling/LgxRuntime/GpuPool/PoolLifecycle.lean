import LgxRuntime.GpuPool.Pool
import LgxRuntime.Lib.History
import LgxRuntime.Lib.ResourceLogic

/-!
# Starting and stopping the GPU memory pool

`lgx_gpu_pool_init` clears the allocator of one memory type after the other, each just before it allocates for it,
and calls `lgx_gpu_pool_shutdown` if one of them fails.  `lgx_gpu_pool_shutdown` frees what the allocators of all
types that are available point to, and leaves their pointers to Vulkan's memory as they are.  So the memory of a type
that a failed start has not come to is freed for a second time, if the pool has been started and stopped before.
This is the only way to go wrong.
-/

namespace LgxRuntime.GpuPool

open ResourceLogic
open Function (update)

/-! ## The pool -/

/-- What the pool acquires.  A mapping has the name of the memory that is mapped. -/
inductive PoolResource
  | mutex
  | heap
  | memory
  | mapping
  deriving DecidableEq

/-- What an allocator points to: `memory`, `mapped_ptr` and `all_blocks`. -/
structure Slot where
  memory : ℕ
  mappedPtr : Bool
  allBlocks : ℕ

/-- What `memset` leaves. -/
def Slot.null : Slot :=
  ⟨0, false, 0⟩

/-- `g_gpu_pool`, as far as it says what is to be released. -/
structure PoolState where
  initialized : Bool
  mutex : ℕ
  available : MemoryType → Bool
  slots : MemoryType → Slot

/-- What an allocator points to changes. -/
def PoolState.setSlot (p : PoolState) (type : MemoryType) (slot : Slot) : PoolState :=
  { p with slots := update p.slots type slot }

/-- The static initializer. -/
def PoolState.new : PoolState where
  initialized := false
  mutex := 0
  available := fun _ => false
  slots := fun _ => .null

/-- What a start is given, and what the calls in it answer. -/
structure InitAnswers where
  handles : Bool
  mutexInit : Bool
  props : MemoryProperties
  calloc : MemoryType → Bool
  allocateMemory : MemoryType → Bool
  mapMemory : MemoryType → Bool

/-- The memory types in the order of the loops. -/
def memoryTypes : List MemoryType :=
  [.deviceLocal, .hostVisible, .hostCached]

/-- The loop of `lgx_gpu_pool_shutdown`, over some of the types. -/
def shutdownTypes : List MemoryType → PoolState → Program PoolResource PoolState
  | [], p => return p
  | type :: types, p => do
      if !p.available type then shutdownTypes types p
      else
        let slot := p.slots type
        if slot.mappedPtr then
          release .mapping slot.memory
        release .memory slot.memory
        release .heap slot.allBlocks
        shutdownTypes types (p.setSlot type { slot with allBlocks := 0 })

/-- `lgx_gpu_pool_shutdown`. -/
def gpuPoolShutdown (p : PoolState) : Program PoolResource PoolState := do
  if !p.initialized then return p
  let p ← shutdownTypes memoryTypes p
  release .mutex p.mutex
  return { p with initialized := false, mutex := 0 }

/-- The loop of `lgx_gpu_pool_init`, over some of the types. -/
def initTypes (answers : InitAnswers) : List MemoryType → PoolState → Program PoolResource PoolState
  | [], p => return p
  | type :: types, p => do
      if !p.available type then initTypes answers types p
      else
        let allBlocks ← acquire .heap (answers.calloc type)
        if allBlocks = 0 then
          gpuPoolShutdown (p.setSlot type .null)
        else
          let memory ← acquire .memory (answers.allocateMemory type)
          if memory = 0 then
            gpuPoolShutdown (p.setSlot type { Slot.null with allBlocks })
          else
            let mappedPtr := type ≠ .deviceLocal && answers.mapMemory type
            if mappedPtr then
              attach .mapping memory
            initTypes answers types (p.setSlot type ⟨memory, mappedPtr, allBlocks⟩)

/-- `lgx_gpu_pool_init`. -/
def gpuPoolStart (answers : InitAnswers) (p : PoolState) : Program PoolResource PoolState := do
  if p.initialized then return p
  if !answers.handles then return p
  let mutex ← acquire .mutex answers.mutexInit
  if mutex = 0 then return p
  initTypes answers memoryTypes
    { p with initialized := true, mutex, available := fun type => (detectMemoryTypes answers.props type).isSome }

/-- A start, or a stop. -/
inductive LifecycleOp
  | init (answers : InitAnswers)
  | shutdown

/-- A start, or a stop, of the pool. -/
def lifecycleStep (p : PoolState) : LifecycleOp → Program PoolResource PoolState
  | .init answers => gpuPoolStart answers p
  | .shutdown => gpuPoolShutdown p

/-- The pool and the ledger after some starts and stops. -/
def lifecycle (ops : List LifecycleOp) : PoolState × Ledger PoolResource :=
  (ops.foldlM lifecycleStep PoolState.new).run .new

/-! ## When a start fails over memory that has been freed -/

/-- Everything that a type needs is to be had. -/
def InitAnswers.Succeeds (answers : InitAnswers) (type : MemoryType) : Prop :=
  answers.calloc type = true ∧ answers.allocateMemory type = true

instance (answers : InitAnswers) (type : MemoryType) : Decidable (answers.Succeeds type) :=
  inferInstanceAs (Decidable (_ ∧ _))

/-- An allocator of these types that is available points to memory. -/
def PointsSomewhere (available : MemoryType → Bool) (slots : MemoryType → Slot) (types : List MemoryType) : Prop :=
  ∃ type ∈ types, available type = true ∧ (slots type).memory ≠ 0

/-- The loop fails at a type, and the allocator of a later one points to memory. -/
def FailsEarly (answers : InitAnswers) (available : MemoryType → Bool) (slots : MemoryType → Slot) :
    List MemoryType → Prop
  | [] => False
  | type :: types =>
      if available type = true ∧ ¬answers.Succeeds type then PointsSomewhere available slots types
      else FailsEarly answers available slots types

/-- The start fails at a type, and the allocator of a later one still points to the memory that it had when the
pool was stopped. -/
def FailsOverFreed (p : PoolState) (answers : InitAnswers) : Prop :=
  p.initialized = false ∧ answers.handles = true ∧ answers.mutexInit = true ∧
    FailsEarly answers (fun type => (detectMemoryTypes answers.props type).isSome) p.slots memoryTypes

/-! ## What the pool owns -/

/-- What an allocator owns. -/
def Slot.objects (slot : Slot) : Multiset (PoolResource × ℕ) :=
  (if slot.mappedPtr then owned .mapping slot.memory else 0) + (owned .memory slot.memory + owned .heap slot.allBlocks)

/-- What the allocators of some types own that are available. -/
def PoolState.objectsOf (p : PoolState) (types : List MemoryType) : Multiset (PoolResource × ℕ) :=
  ((types.filter fun type => p.available type).map fun type => (p.slots type).objects).sum

/-- What the pool owns. -/
def PoolState.objects (p : PoolState) : Multiset (PoolResource × ℕ) :=
  if p.initialized then p.objectsOf memoryTypes + owned .mutex p.mutex else 0

variable {p : PoolState} {answers : InitAnswers} {types done : List MemoryType} {type : MemoryType}
  {ledger : Ledger PoolResource}

@[simp] theorem setSlot_initialized (p : PoolState) (type : MemoryType) (slot : Slot) :
    (p.setSlot type slot).initialized = p.initialized := rfl

@[simp] theorem setSlot_mutex (p : PoolState) (type : MemoryType) (slot : Slot) :
    (p.setSlot type slot).mutex = p.mutex := rfl

@[simp] theorem setSlot_available (p : PoolState) (type : MemoryType) (slot : Slot) :
    (p.setSlot type slot).available = p.available := rfl

@[simp] theorem setSlot_self (p : PoolState) (type : MemoryType) (slot : Slot) :
    (p.setSlot type slot).slots type = slot := by
  unfold PoolState.setSlot
  exact Function.update_self ..

theorem setSlot_of_ne (p : PoolState) {type type' : MemoryType} (h : type' ≠ type) (slot : Slot) :
    (p.setSlot type slot).slots type' = p.slots type' := by
  unfold PoolState.setSlot
  exact Function.update_of_ne h ..

theorem mem_memoryTypes (type : MemoryType) : type ∈ memoryTypes := by
  cases type <;> decide

theorem objectsOf_cons_pos (h : p.available type = true) :
    p.objectsOf (type :: types) = (p.slots type).objects + p.objectsOf types := by
  rw [PoolState.objectsOf, List.filter_cons_of_pos h, List.map_cons, List.sum_cons]
  rfl

theorem objectsOf_cons_neg (h : ¬p.available type = true) : p.objectsOf (type :: types) = p.objectsOf types := by
  rw [PoolState.objectsOf, List.filter_cons_of_neg h]
  rfl

theorem objectsOf_append (types types' : List MemoryType) :
    p.objectsOf (types ++ types') = p.objectsOf types + p.objectsOf types' := by
  simp [PoolState.objectsOf]

/-- An allocator that is not in the list does not matter. -/
theorem objectsOf_update (h : type ∉ types) (slot : Slot) :
    (p.setSlot type slot).objectsOf types = p.objectsOf types := by
  unfold PoolState.objectsOf
  congr 1
  refine List.map_congr_left fun type' htype' => ?_
  have hne : type' ≠ type := by
    rintro rfl
    exact h (List.mem_filter.mp htype').1
  rw [setSlot_of_ne p hne]

/-! ## What is known of the pointers -/

/-- What is mapped is memory, and the blocks are freed whenever the allocator is not in use. -/
structure Sound (p : PoolState) : Prop where
  mapped : ∀ type, (p.slots type).mappedPtr = true → (p.slots type).memory ≠ 0
  blocks : ∀ type, p.initialized = false ∨ p.available type = false → (p.slots type).allBlocks = 0

/-- The loop of `lgx_gpu_pool_shutdown` clears the pointers to the blocks, and no others. -/
theorem shutdownTypes_returns (types : List MemoryType) (p : PoolState) :
    Returns (shutdownTypes types p) fun p' => p' =
      { p with slots := fun type =>
          if type ∈ types ∧ p.available type = true then { p.slots type with allBlocks := 0 } else p.slots type } := by
  induction types generalizing p with
  | nil =>
      refine .pure ?_
      simp
  | cons type types ih =>
      rw [shutdownTypes]
      refine .ite (fun hunavailable => ?_) fun havailable => ?_
      · intro ledger
        rw [ih p ledger]
        congr 1
        funext type'
        have hiff : (type' ∈ types ∧ p.available type' = true) ↔ type' ∈ type :: types ∧ p.available type' = true := by
          constructor
          · exact fun h => ⟨List.mem_cons_of_mem _ h.1, h.2⟩
          · rintro ⟨hmem, h⟩
            refine ⟨(List.mem_cons.mp hmem).resolve_left ?_, h⟩
            rintro rfl
            simp [h] at hunavailable
        simp only [hiff]
      · have havailable : p.available type = true := by simpa using havailable
        have hrest : Returns (shutdownTypes types
            (p.setSlot type { p.slots type with allBlocks := 0 })) fun p' => p' =
            { p with slots := fun type' =>
                if type' ∈ type :: types ∧ p.available type' = true then { p.slots type' with allBlocks := 0 }
                else p.slots type' } := by
          intro ledger
          rw [ih _ ledger]
          congr 1
          funext type'
          by_cases hsame : type' = type
          · rw [hsame]
            simp [havailable]
          · simp [hsame, setSlot_of_ne]
        exact .ite (fun _ => .after fun _ => .after fun _ => .after fun _ => hrest)
          fun _ => .after fun _ => .after fun _ => hrest

theorem gpuPoolShutdown_sound (h : Sound p) :
    Returns (gpuPoolShutdown p) fun p' => Sound p' ∧ p'.initialized = false := by
  unfold gpuPoolShutdown
  refine .ite (fun hstopped => .pure ⟨h, by simpa using hstopped⟩) fun _ => ?_
  refine (shutdownTypes_returns memoryTypes p).bind fun p' hp' => .after fun _ => .pure ⟨⟨?_, ?_⟩, rfl⟩
  · intro type hmapped
    rw [hp'] at hmapped ⊢
    dsimp only at hmapped ⊢
    split_ifs at hmapped ⊢
    · exact h.mapped type hmapped
    · exact h.mapped type hmapped
  · intro type _
    rw [hp']
    dsimp only
    split_ifs with havailable
    · rfl
    · refine h.blocks type (.inr ?_)
      simpa [mem_memoryTypes] using havailable

/-- What is known in the loop of a start: the allocators that it has not come to have no blocks. -/
structure Starting (p : PoolState) (types : List MemoryType) : Prop where
  initialized : p.initialized = true
  mapped : ∀ type, (p.slots type).mappedPtr = true → (p.slots type).memory ≠ 0
  blocks : ∀ type, p.available type = false ∨ type ∈ types → (p.slots type).allBlocks = 0
  nodup : types.Nodup

namespace Starting

theorem skip (h : Starting p (type :: types)) : Starting p types :=
  ⟨h.initialized, h.mapped, fun type' h' => h.blocks type' (h'.imp_right (List.mem_cons_of_mem _)),
    (List.nodup_cons.mp h.nodup).2⟩

theorem setSlot (h : Starting p (type :: types)) (havailable : p.available type = true) (slot : Slot)
    (hslot : slot.mappedPtr = true → slot.memory ≠ 0) :
    Starting (p.setSlot type slot) types := by
  refine ⟨h.initialized, fun type' => ?_, fun type' h' => ?_, (List.nodup_cons.mp h.nodup).2⟩
  · by_cases hsame : type' = type
    · rw [hsame, setSlot_self]
      exact hslot
    · rw [setSlot_of_ne p hsame]
      exact h.mapped type'
  · have hne : type' ≠ type := by
      rintro rfl
      rcases h' with hunavailable | hmem
      · rw [setSlot_available, havailable] at hunavailable
        exact nomatch hunavailable
      · exact (List.nodup_cons.mp h.nodup).1 hmem
    rw [setSlot_of_ne p hne]
    exact h.blocks type' (h'.imp_right (List.mem_cons_of_mem _))

theorem sound (h : Starting p types) : Sound p := by
  refine ⟨h.mapped, fun type h' => h.blocks type (.inl (h'.resolve_left ?_))⟩
  rw [h.initialized]
  exact Bool.noConfusion

end Starting

theorem initTypes_sound (answers : InitAnswers) (types : List MemoryType) (p : PoolState) (h : Starting p types) :
    Returns (initTypes answers types p) Sound := by
  induction types generalizing p with
  | nil => exact .pure h.sound
  | cons type types ih =>
      rw [initTypes]
      refine .ite (fun _ => ih p h.skip) fun havailable => .after fun allBlocks => ?_
      have havailable : p.available type = true := by simpa using havailable
      refine .ite (fun _ ledger => ?_) fun _ => .after fun memory => .ite (fun _ ledger => ?_) fun hmemory => ?_
      · exact (gpuPoolShutdown_sound (h.setSlot havailable _ (absurd · Bool.false_ne_true)).sound ledger).1
      · exact (gpuPoolShutdown_sound (h.setSlot havailable _ (absurd · Bool.false_ne_true)).sound ledger).1
      · have hrest := ih _ (h.setSlot havailable ⟨memory, type ≠ .deviceLocal && answers.mapMemory type,
          allBlocks⟩ fun _ => hmemory)
        exact .ite (fun _ => .after fun _ => hrest) fun _ => hrest

/-! ## Stopping -/

theorem shutdownTypes_triple {types : List MemoryType} (hnodup : types.Nodup) (p : PoolState) :
    Triple (p.objectsOf types) (shutdownTypes types p) fun _ => 0 := by
  induction types generalizing p with
  | nil => exact .pure rfl
  | cons type types ih =>
      obtain ⟨hnotMem, hnodup⟩ := List.nodup_cons.mp hnodup
      rw [shutdownTypes]
      refine .ite (fun hunavailable => ?_) fun havailable => ?_
      · rw [objectsOf_cons_neg (by simpa using hunavailable)]
        exact ih hnodup p
      · have havailable : p.available type = true := by simpa using havailable
        have hrest := ih hnodup (p.setSlot type { p.slots type with allBlocks := 0 })
        rw [objectsOf_update hnotMem] at hrest
        rw [objectsOf_cons_pos havailable, Slot.objects]
        refine .ite (fun hmapped => ?_) fun hunmapped => ?_
        · rw [if_pos hmapped, add_assoc, add_assoc]
          exact .release_bind rfl (.release_bind rfl (.release_bind rfl hrest))
        · rw [if_neg hunmapped, zero_add, add_assoc]
          exact .release_bind rfl (.release_bind rfl hrest)

theorem gpuPoolShutdown_triple (p : PoolState) : Triple p.objects (gpuPoolShutdown p) PoolState.objects := by
  unfold gpuPoolShutdown
  refine .ite (fun _ => .pure rfl) fun hinitialized => ?_
  have hobjects : p.objects = p.objectsOf memoryTypes + owned .mutex p.mutex :=
    if_pos (by simpa using hinitialized)
  have htypes : Triple (p.objectsOf memoryTypes) (shutdownTypes memoryTypes p) fun _ => 0 :=
    shutdownTypes_triple (by decide) p
  refine htypes.call_returns (shutdownTypes_returns _ p) hobjects fun p' hp' => ?_
  rw [zero_add, hp']
  exact (Triple.release PoolResource.mutex p.mutex).bind fun _ => .pure rfl

theorem shutdownTypes_extends (types : List MemoryType) (p : PoolState) : Extends (shutdownTypes types p) := by
  induction types generalizing p with
  | nil => exact .pure p
  | cons type types ih =>
      rw [shutdownTypes]
      have hrest : Extends (do
          release .memory (p.slots type).memory
          release .heap (p.slots type).allBlocks
          shutdownTypes types (p.setSlot type { p.slots type with allBlocks := 0 })) :=
        .bind (.release _ _) fun _ => .bind (.release _ _) fun _ => ih _
      exact .ite (ih p) (.ite (.bind (.release _ _) fun _ => hrest) hrest)

theorem gpuPoolShutdown_extends (p : PoolState) : Extends (gpuPoolShutdown p) := by
  unfold gpuPoolShutdown
  exact .ite (.pure p) (.bind (shutdownTypes_extends memoryTypes p) fun _ => .bind (.release _ _) fun _ => .pure _)

theorem initTypes_extends (answers : InitAnswers) (types : List MemoryType) (p : PoolState) :
    Extends (initTypes answers types p) := by
  induction types generalizing p with
  | nil => exact .pure p
  | cons type types ih =>
      rw [initTypes]
      refine .ite (ih p) (.bind (.acquire _ _) fun allBlocks => .ite (gpuPoolShutdown_extends _) ?_)
      refine .bind (.acquire _ _) fun memory => .ite (gpuPoolShutdown_extends _) ?_
      exact .ite (.bind (.attach _ _) fun _ => ih _) (ih _)

theorem lifecycleStep_extends (p : PoolState) (op : LifecycleOp) : Extends (lifecycleStep p op) := by
  cases op with
  | shutdown => exact gpuPoolShutdown_extends p
  | init answers =>
      refine Extends.ite (.pure p) (.ite (.pure p) ?_)
      exact .bind (.acquire _ _) fun mutex => .ite (.pure p) (initTypes_extends answers memoryTypes _)

/-- An allocator without blocks is left as it is. -/
theorem shutdownTypes_of_blocks (havailable : p.available type = true) (hblock : (p.slots type).allBlocks = 0) :
    shutdownTypes (type :: types) p = (do
      if (p.slots type).mappedPtr then
        release .mapping (p.slots type).memory
      release .memory (p.slots type).memory
      release .heap (p.slots type).allBlocks
      shutdownTypes types p) := by
  have hclear : (p.setSlot type { p.slots type with allBlocks := 0 }) = p := by
    rw [← hblock, PoolState.setSlot, Function.update_eq_self]
  rw [shutdownTypes, if_neg (by simp [havailable])]
  dsimp only
  rw [hclear]

/-- Memory that has been freed is freed again. -/
theorem shutdownTypes_breaks {types : List MemoryType} {resources : Multiset (PoolResource × ℕ)}
    (hmapped : ∀ type, (p.slots type).mappedPtr = true → (p.slots type).memory ≠ 0)
    (hblocks : ∀ type ∈ types, (p.slots type).allBlocks = 0)
    (hsomewhere : PointsSomewhere p.available p.slots types) (hmutex : ∀ r ∈ resources, r.1 = .mutex) :
    Breaks resources (shutdownTypes types p) := by
  have hnotMem : ∀ {kind : PoolResource} {name : ℕ}, kind ≠ .mutex → (kind, name) ∉ resources :=
    fun hkind hmem => hkind (hmutex _ hmem)
  induction types with
  | nil =>
      obtain ⟨type, hmem, -⟩ := hsomewhere
      exact absurd hmem List.not_mem_nil
  | cons type types ih =>
      have hrest : ¬(p.available type = true ∧ (p.slots type).memory ≠ 0) →
          Breaks resources (shutdownTypes types p) := by
        intro hnot
        obtain ⟨type', hmem, havailable', hmemory'⟩ := hsomewhere
        refine ih (fun type' hmem => hblocks type' (List.mem_cons_of_mem _ hmem)) ⟨type', ?_, havailable', hmemory'⟩
        refine (List.mem_cons.mp hmem).resolve_left ?_
        rintro rfl
        exact hnot ⟨havailable', hmemory'⟩
      by_cases havailable : p.available type = true
      · have hblock := hblocks type (List.mem_cons_self ..)
        rw [shutdownTypes_of_blocks havailable hblock]
        by_cases hmemory : (p.slots type).memory = 0
        · rw [if_neg fun h => hmapped type h hmemory, hmemory, hblock, release_zero, release_zero, pure_bind,
            pure_bind]
          exact hrest fun h => h.2 hmemory
        · have hfree : Extends (do
              release .heap (p.slots type).allBlocks
              shutdownTypes types p) := .bind (.release _ _) fun _ => shutdownTypes_extends types p
          refine .ite (fun _ => ?_) fun _ => ?_
          · exact (Breaks.release hmemory (hnotMem (by decide))).bind fun _ => .bind (.release _ _) fun _ => hfree
          · exact (Breaks.release hmemory (hnotMem (by decide))).bind fun _ => hfree
      · rw [shutdownTypes, if_pos (by simp [havailable])]
        exact hrest fun h => havailable h.1

theorem shutdownTypes_append (types types' : List MemoryType) (p : PoolState) :
    shutdownTypes (types ++ types') p = shutdownTypes types p >>= shutdownTypes types' := by
  induction types generalizing p with
  | nil => rw [List.nil_append, shutdownTypes, pure_bind]
  | cons type types ih =>
      rw [List.cons_append, shutdownTypes, shutdownTypes]
      split_ifs
      · exact ih p
      · simp only [ih, bind_assoc, apply_ite (· >>= shutdownTypes types')]

theorem gpuPoolShutdown_breaks (hinitialized : p.initialized = true) (hlist : memoryTypes = done ++ types)
    (hmapped : ∀ type, (p.slots type).mappedPtr = true → (p.slots type).memory ≠ 0)
    (hblocks : ∀ type ∈ types, (p.slots type).allBlocks = 0) (hsomewhere : PointsSomewhere p.available p.slots types) :
    Breaks (p.objectsOf done + owned .mutex p.mutex) (gpuPoolShutdown p) := by
  have hnodup : (done ++ types).Nodup := hlist ▸ by decide
  obtain ⟨hnodupDone, hnodupTypes, hdisjoint⟩ := List.nodup_append.mp hnodup
  unfold gpuPoolShutdown
  rw [if_neg (by simp [hinitialized]), hlist, shutdownTypes_append, bind_assoc]
  refine .call (shutdownTypes_triple hnodupDone p) (shutdownTypes_returns done p) rfl fun p' hp' => ?_
  have hslots : ∀ type ∈ types, p'.slots type = p.slots type := by
    intro type hmem
    rw [hp']
    exact if_neg fun h => hdisjoint type h.1 type hmem rfl
  refine Breaks.bind (shutdownTypes_breaks ?_ ?_ ?_ ?_) fun _ => .bind (.release _ _) fun _ => .pure _
  · intro type h
    rw [hp'] at h ⊢
    dsimp only at h ⊢
    split_ifs at h ⊢ <;> exact hmapped type h
  · intro type hmem
    rw [hslots type hmem]
    exact hblocks type hmem
  · obtain ⟨type, hmem, havailable, hmemory⟩ := hsomewhere
    refine ⟨type, hmem, ?_, ?_⟩
    · rw [hp']
      exact havailable
    · rwa [hslots type hmem]
  · intro r hr
    rw [zero_add] at hr
    by_cases hmutex : p.mutex = 0
    · rw [hmutex, owned_zero] at hr
      exact absurd hr (Multiset.notMem_zero r)
    · rw [owned_of_ne_zero _ hmutex, Multiset.mem_singleton] at hr
      rw [hr]

/-! ## Starting -/

theorem objectsOf_concat (havailable : p.available type = true) (hmem : type ∉ done) (slot : Slot) :
    (p.setSlot type slot).objectsOf (done ++ [type]) =
      p.objectsOf done + slot.objects := by
  have hsingle : (p.setSlot type slot).objectsOf [type] = slot.objects := by
    rw [objectsOf_cons_pos (by exact havailable), setSlot_self]
    exact add_zero _
  rw [objectsOf_append, objectsOf_update hmem, hsingle]

theorem objectsOf_concat_neg (hunavailable : ¬p.available type = true) :
    p.objectsOf (done ++ [type]) = p.objectsOf done := by
  rw [objectsOf_append, objectsOf_cons_neg hunavailable]
  exact add_zero _

/-- Allocators that point nowhere own nothing. -/
theorem objectsOf_eq_zero (hmapped : ∀ type, (p.slots type).mappedPtr = true → (p.slots type).memory ≠ 0)
    (hblocks : ∀ type ∈ types, (p.slots type).allBlocks = 0) (hnowhere : ¬PointsSomewhere p.available p.slots types) :
    p.objectsOf types = 0 := by
  refine List.sum_eq_zero fun objects hobjects => ?_
  obtain ⟨type, hmem, rfl⟩ := List.mem_map.mp hobjects
  obtain ⟨hmem, havailable⟩ := List.mem_filter.mp hmem
  have hmemory : (p.slots type).memory = 0 := by
    by_contra h
    exact hnowhere ⟨type, hmem, havailable, h⟩
  rw [Slot.objects, if_neg fun h => hmapped type h hmemory, hmemory, hblocks type hmem]
  rfl

/-- Only the allocators that the loop has not come to matter. -/
theorem failsEarly_update {available : MemoryType → Bool} {slots : MemoryType → Slot} (hmem : type ∉ types)
    (slot : Slot) :
    FailsEarly answers available (update slots type slot) types ↔ FailsEarly answers available slots types := by
  induction types with
  | nil => rfl
  | cons type' types ih =>
      rw [FailsEarly, FailsEarly, ih (List.not_mem_of_not_mem_cons hmem)]
      have hsomewhere : PointsSomewhere available (update slots type slot) types ↔
          PointsSomewhere available slots types := by
        refine exists_congr fun type'' => and_congr_right fun hmem'' => ?_
        have hne : type'' ≠ type := by
          rintro rfl
          exact hmem (List.mem_cons_of_mem _ hmem'')
        rw [Function.update_of_ne hne]
      split_ifs
      · exact hsomewhere
      · rfl

/-- The state in which the loop of a start has come to an allocator. -/
theorem objects_of_failure (h : Starting p (type :: types)) (hlist : memoryTypes = done ++ type :: types)
    (havailable : p.available type = true) (hnowhere : ¬PointsSomewhere p.available p.slots types) (slot : Slot) :
    (p.setSlot type slot).objects =
      slot.objects + (p.objectsOf done + owned .mutex p.mutex) := by
  have hnodup : (done ++ type :: types).Nodup := hlist ▸ by decide
  have hdone : type ∉ done := fun hmem => (List.nodup_append.mp hnodup).2.2 type hmem type (List.mem_cons_self ..) rfl
  have htypes : type ∉ types := (List.nodup_cons.mp h.nodup).1
  rw [PoolState.objects, setSlot_initialized, if_pos h.initialized, hlist, List.append_cons, objectsOf_append,
    objectsOf_concat havailable hdone, objectsOf_update htypes, objectsOf_eq_zero h.mapped
      (fun type' hmem => h.blocks type' (.inr (List.mem_cons_of_mem _ hmem))) hnowhere, setSlot_mutex]
  abel

theorem initTypes_triple (types done : List MemoryType) (p : PoolState) (h : Starting p types)
    (hlist : memoryTypes = done ++ types) (hfails : ¬FailsEarly answers p.available p.slots types) :
    Triple (p.objectsOf done + owned .mutex p.mutex) (initTypes answers types p) PoolState.objects := by
  induction types generalizing p done with
  | nil =>
      rw [List.append_nil] at hlist
      refine .pure ?_
      rw [PoolState.objects, if_pos h.initialized, hlist]
  | cons type types ih =>
      have hconcat : memoryTypes = (done ++ [type]) ++ types := by rw [hlist, List.append_cons]
      have hnodup : (done ++ type :: types).Nodup := hlist ▸ by decide
      have hdone : type ∉ done :=
        fun hmem => (List.nodup_append.mp hnodup).2.2 type hmem type (List.mem_cons_self ..) rfl
      rw [initTypes]
      refine .ite (fun hunavailable => ?_) fun havailable => ?_
      · have hunavailable : ¬p.available type = true := by simpa using hunavailable
        rw [FailsEarly, if_neg fun h => hunavailable h.1] at hfails
        have hrest := ih (done ++ [type]) p h.skip hconcat hfails
        rwa [objectsOf_concat_neg hunavailable] at hrest
      · have havailable : p.available type = true := by simpa using havailable
        have hnowhere : ¬answers.Succeeds type → ¬PointsSomewhere p.available p.slots types := by
          intro hnot
          rwa [FailsEarly, if_pos ⟨havailable, hnot⟩] at hfails
        have hgiveUp : ∀ slot : Slot, ¬answers.Succeeds type →
            Triple (slot.objects + (p.objectsOf done + owned .mutex p.mutex))
              (gpuPoolShutdown (p.setSlot type slot)) PoolState.objects := by
          intro slot hnot
          rw [← objects_of_failure h hlist havailable (hnowhere hnot)]
          exact gpuPoolShutdown_triple _
        refine .acquire_or (fun hcalloc => ?_) fun hcalloc allBlocks _ => ?_
        · have hfailed := hgiveUp .null fun hsucceeds => Bool.noConfusion (hsucceeds.1.symm.trans hcalloc)
          exact .of_eq (by simp [Slot.objects, Slot.null]) hfailed
        refine .acquire_or (fun hmemory => ?_) fun hmemory memory hmemory' => ?_
        · have hfailed := hgiveUp { Slot.null with allBlocks }
            fun hsucceeds => Bool.noConfusion (hsucceeds.2.symm.trans hmemory)
          exact .of_eq (by simp [Slot.objects, Slot.null]) hfailed
        rw [FailsEarly, if_neg fun h => h.2 ⟨hcalloc, hmemory⟩] at hfails
        have htypes : type ∉ types := (List.nodup_cons.mp h.nodup).1
        have hrest : ∀ mappedPtr : Bool, Triple
            (({ memory, mappedPtr, allBlocks } : Slot).objects + (p.objectsOf done + owned .mutex p.mutex))
              (initTypes answers types (p.setSlot type ⟨memory, mappedPtr, allBlocks⟩)) PoolState.objects := by
          intro mappedPtr
          have hstarting := h.setSlot havailable ⟨memory, mappedPtr, allBlocks⟩ fun _ => hmemory'
          have hloop := ih (done ++ [type]) _ hstarting hconcat ((failsEarly_update htypes _).not.mpr hfails)
          rw [objectsOf_concat havailable hdone] at hloop
          exact .of_eq (by rw [setSlot_mutex]; abel) hloop
        have hmapped := hrest true
        have hunmapped := hrest false
        rw [Slot.objects, if_pos rfl, add_assoc, add_assoc] at hmapped
        rw [Slot.objects, if_neg Bool.false_ne_true, zero_add, add_assoc] at hunmapped
        dsimp only
        cases type ≠ .deviceLocal && answers.mapMemory type with
        | true => exact .attach_bind hmapped
        | false => exact hunmapped

theorem initTypes_breaks (types done : List MemoryType) (p : PoolState) (h : Starting p types)
    (hlist : memoryTypes = done ++ types) (hfails : FailsEarly answers p.available p.slots types) :
    Breaks (p.objectsOf done + owned .mutex p.mutex) (initTypes answers types p) := by
  induction types generalizing p done with
  | nil => exact hfails.elim
  | cons type types ih =>
      have hconcat : memoryTypes = (done ++ [type]) ++ types := by rw [hlist, List.append_cons]
      have hnodup : (done ++ type :: types).Nodup := hlist ▸ by decide
      have hdone : type ∉ done :=
        fun hmem => (List.nodup_append.mp hnodup).2.2 type hmem type (List.mem_cons_self ..) rfl
      rw [initTypes]
      refine .ite (fun hunavailable => ?_) fun havailable => ?_
      · have hunavailable : ¬p.available type = true := by simpa using hunavailable
        rw [FailsEarly, if_neg fun h => hunavailable h.1] at hfails
        have hrest := ih (done ++ [type]) p h.skip hconcat hfails
        rwa [objectsOf_concat_neg hunavailable] at hrest
      · have havailable : p.available type = true := by simpa using havailable
        have htypes : type ∉ types := (List.nodup_cons.mp h.nodup).1
        have hgiveUp : ∀ slot : Slot, slot.mappedPtr = false → ¬answers.Succeeds type →
            Breaks (slot.objects + (p.objectsOf done + owned .mutex p.mutex))
              (gpuPoolShutdown (p.setSlot type slot)) := by
          intro slot hunmapped hnot
          rw [FailsEarly, if_pos ⟨havailable, hnot⟩] at hfails
          have hstarting := h.setSlot havailable slot fun hmapped => by simp [hunmapped] at hmapped
          have hbreaks := gpuPoolShutdown_breaks hstarting.initialized hconcat hstarting.mapped
            (fun type' hmem => hstarting.blocks type' (.inr hmem)) ?_
          · rw [objectsOf_concat havailable hdone, setSlot_mutex] at hbreaks
            exact .of_eq (by abel) hbreaks
          · obtain ⟨type', hmem, havailable', hmemory'⟩ := hfails
            refine ⟨type', hmem, havailable', ?_⟩
            have hne : type' ≠ type := by
              rintro rfl
              exact htypes hmem
            rwa [setSlot_of_ne p hne]
        refine .acquire_or (fun hcalloc => ?_) fun hcalloc allBlocks _ => ?_
        · have hfailed := hgiveUp .null rfl fun hsucceeds => Bool.noConfusion (hsucceeds.1.symm.trans hcalloc)
          exact .of_eq (by simp [Slot.objects, Slot.null]) hfailed
        refine .acquire_or (fun hmemory => ?_) fun hmemory memory hmemory' => ?_
        · have hfailed := hgiveUp { Slot.null with allBlocks } rfl
            fun hsucceeds => Bool.noConfusion (hsucceeds.2.symm.trans hmemory)
          exact .of_eq (by simp [Slot.objects, Slot.null]) hfailed
        rw [FailsEarly, if_neg fun h => h.2 ⟨hcalloc, hmemory⟩] at hfails
        have hrest : ∀ mappedPtr : Bool, Breaks
            (({ memory, mappedPtr, allBlocks } : Slot).objects + (p.objectsOf done + owned .mutex p.mutex))
              (initTypes answers types (p.setSlot type ⟨memory, mappedPtr, allBlocks⟩)) := by
          intro mappedPtr
          have hstarting := h.setSlot havailable ⟨memory, mappedPtr, allBlocks⟩ fun _ => hmemory'
          have hloop := ih (done ++ [type]) _ hstarting hconcat ((failsEarly_update htypes _).mpr hfails)
          rw [objectsOf_concat havailable hdone] at hloop
          exact .of_eq (by rw [setSlot_mutex]; abel) hloop
        have hmapped := hrest true
        have hunmapped := hrest false
        rw [Slot.objects, if_pos rfl, add_assoc, add_assoc] at hmapped
        rw [Slot.objects, if_neg Bool.false_ne_true, zero_add, add_assoc] at hunmapped
        dsimp only
        cases type ≠ .deviceLocal && answers.mapMemory type with
        | true => exact .attach_bind hmapped
        | false => exact hunmapped

/-! ## Whole lives -/

theorem gpuPoolStart_sound (answers : InitAnswers) (h : Sound p) : Returns (gpuPoolStart answers p) Sound := by
  unfold gpuPoolStart
  refine .ite (fun _ => .pure h) fun hstopped => .ite (fun _ => .pure h) fun _ => .after fun mutex => ?_
  refine .ite (fun _ => .pure h) fun _ => initTypes_sound answers memoryTypes _ ⟨rfl, h.mapped, ?_, by decide⟩
  exact fun type _ => h.blocks type (.inl (by simpa using hstopped))

/-- A start that begins does so with no blocks. -/
theorem starting (h : Sound p) (hstopped : p.initialized = false) (mutex : ℕ) (available : MemoryType → Bool) :
    Starting { p with initialized := true, mutex, available } memoryTypes :=
  ⟨rfl, h.mapped, fun type _ => h.blocks type (.inl hstopped), by decide⟩

theorem gpuPoolStart_triple (h : Sound p) (hfails : ¬FailsOverFreed p answers) :
    Triple p.objects (gpuPoolStart answers p) PoolState.objects := by
  unfold gpuPoolStart
  refine .ite (fun _ => .pure rfl) fun hstopped => .ite (fun _ => .pure rfl) fun hhandles => ?_
  have hstopped : p.initialized = false := by simpa using hstopped
  have hhandles : answers.handles = true := by simpa using hhandles
  have hnone : p.objects = 0 := by rw [PoolState.objects, if_neg (by simp [hstopped])]
  refine .acquire_or (fun _ => .pure rfl) fun hmutex mutex _ => .of_eq ?_
    (initTypes_triple memoryTypes [] _ (starting h hstopped mutex _) rfl fun hearly =>
      hfails ⟨hstopped, hhandles, hmutex, hearly⟩)
  rw [hnone]
  exact add_comm ..

theorem gpuPoolStart_breaks (h : Sound p) (hfails : FailsOverFreed p answers) :
    Breaks p.objects (gpuPoolStart answers p) := by
  obtain ⟨hstopped, hhandles, hmutex, hearly⟩ := hfails
  unfold gpuPoolStart
  have hnone : p.objects = 0 := by rw [PoolState.objects, if_neg (by simp [hstopped])]
  rw [if_neg (by simp [hstopped]), if_neg (by simp [hhandles])]
  refine .acquire_or (fun h => Bool.noConfusion (h.symm.trans hmutex)) fun _ mutex _ => .of_eq ?_
    (initTypes_breaks memoryTypes [] _ (starting h hstopped mutex _) rfl hearly)
  rw [hnone]
  exact add_comm ..

variable {ops : List LifecycleOp} {op : LifecycleOp}

theorem lifecycle_concat (ops : List LifecycleOp) (op : LifecycleOp) :
    lifecycle (ops ++ [op]) = (lifecycleStep (lifecycle ops).1 op).run (lifecycle ops).2 := by
  rw [lifecycle, List.foldlM_append]
  rfl

theorem sound_new : Sound .new :=
  ⟨fun _ h => absurd h Bool.false_ne_true, fun _ _ => rfl⟩

theorem lifecycleStep_sound (op : LifecycleOp) (h : Sound p) : Returns (lifecycleStep p op) Sound := by
  cases op with
  | shutdown => exact fun ledger => (gpuPoolShutdown_sound h ledger).1
  | init answers => exact gpuPoolStart_sound answers h

theorem lifecycle_sound (ops : List LifecycleOp) : Sound (lifecycle ops).1 :=
  Returns.foldlM (fun _ op h => lifecycleStep_sound op h) ops sound_new .new

/-- No start fails over memory that has been freed. -/
def NeverFailsOverFreed (ops : List LifecycleOp) : Prop :=
  History.Always (fun before op => ∀ answers, op = .init answers → ¬FailsOverFreed (lifecycle before).1 answers) ops

theorem lifecycle_cases (ops : List LifecycleOp) :
    NeverFailsOverFreed ops ∧ Holds (lifecycle ops).2 (lifecycle ops).1.objects ∨
      ¬NeverFailsOverFreed ops ∧ Broken (lifecycle ops).2 := by
  induction ops using List.reverseRecOn with
  | nil => exact .inl ⟨History.always_nil, Holds.new⟩
  | append_singleton ops op ih =>
      rw [NeverFailsOverFreed, History.always_concat, lifecycle_concat]
      rcases ih with ⟨hops, hholds⟩ | ⟨hops, hbroken⟩
      · have hsound := lifecycle_sound ops
        cases op with
        | shutdown =>
            refine .inl ⟨⟨hops, fun _ h => nomatch h⟩, ?_⟩
            have hstep := gpuPoolShutdown_triple (lifecycle ops).1 (lifecycle ops).2 0 (by rwa [add_zero])
            rwa [add_zero] at hstep
        | init answers =>
            by_cases hfails : FailsOverFreed (lifecycle ops).1 answers
            · exact .inr ⟨fun h => h.2 answers rfl hfails, gpuPoolStart_breaks hsound hfails _ hholds⟩
            · refine .inl ⟨⟨hops, fun answers' h => ?_⟩, ?_⟩
              · obtain rfl := LifecycleOp.init.inj h
                exact hfails
              · have hstep := gpuPoolStart_triple hsound hfails (lifecycle ops).2 0 (by rwa [add_zero])
                rwa [add_zero] at hstep
      · exact .inr ⟨fun h => hops h.1, hbroken.run (lifecycleStep_extends _ op)⟩

/-- However often the pool is started and stopped, what it has acquired and not released is what it owns, and
nothing once it is stopped, if and only if no start fails at a memory type while the allocator of a later one points
to memory from before the pool was stopped. -/
theorem lifecycle_holds_iff (ops : List LifecycleOp) :
    Holds (lifecycle ops).2 (lifecycle ops).1.objects ↔ NeverFailsOverFreed ops := by
  rcases lifecycle_cases ops with ⟨hops, hholds⟩ | ⟨hops, hbroken⟩
  · exact ⟨fun _ => hops, fun _ => hholds⟩
  · exact ⟨fun hholds => absurd hbroken hholds.not_broken, fun h => absurd h hops⟩

end LgxRuntime.GpuPool
