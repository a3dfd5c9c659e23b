import LgxRuntime.Lib.History
import LgxRuntime.Lib.ResourceLogic
import LgxRuntime.Threading.Fiber

/-!
# The pool of fibers

`lgx_fiber_pool_release` keeps fibers on a list, and `lgx_fiber_pool_acquire` takes the one that was kept last
and makes a new one if there is none.  Both change the list under a lock, so that a run is a sequence of such changes;
what they do besides concerns a fiber that nobody else has.  `lgx_fiber_pool_init` empties the list without a look at
it: fibers that were kept while the pool was not initialized are lost then, and only then.
-/

namespace LgxRuntime.Threading.FiberPool

open Fiber (FiberState)
open ResourceLogic

/-! ## Fibers -/

/-- What fibers and the pool acquire: memory of the heap, and mapped stacks. -/
inductive FiberResource
  | heap
  | stack
  deriving DecidableEq

/-- Where the context of a fiber begins to run: the stack, the offset in it, and the size. -/
structure Context where
  stack : ℕ
  offset : UInt64
  size : UInt64

/-- `struct lgx_fiber_s`, and the name of its memory.  Functions and data are addresses. -/
structure FiberObject where
  self : ℕ
  context : Context
  func : ℕ
  data : ℕ
  state : FiberState
  stackBase : ℕ
  stackSize : UInt64
  totalAlloc : UInt64
  waitingOn : Option ℕ

/-- A node of the list, and the name of its memory. -/
structure PoolNode where
  self : ℕ
  fiber : FiberObject

/-- `g_fiber_pool`. -/
structure Pool where
  top : List PoolNode
  total : UInt64
  available : ℕ
  initialized : Bool

/-- The static initializer. -/
def Pool.new : Pool :=
  ⟨[], 0, 0, false⟩

/-- `LGX_FIBER_DEFAULT_STACK_SIZE`. -/
def defaultStackSize : UInt64 := 64 * 1024

/-- What the allocator and `mmap` answer. -/
structure FiberAnswers where
  calloc : Bool
  mmap : Bool

/-- `lgx_fiber_create`, on a system with pages of `pageSize` bytes. -/
def fiberCreate (pageSize : UInt64) (func data : ℕ) (stackSize : UInt64) (answers : FiberAnswers) :
    Program FiberResource (ThreadingError × Option FiberObject) := do
  if func = 0 then return (.invalidParam, none)
  let stackSize := if stackSize = 0 then defaultStackSize else stackSize
  let self ← acquire .heap answers.calloc
  if self = 0 then return (.outOfMemory, none)
  let stackBase ← acquire .stack answers.mmap
  if stackBase = 0 then
    release .heap self
    return (.outOfMemory, none)
  return (.success, some
    { self, func, data, stackBase, stackSize
      context := ⟨stackBase, pageSize, stackSize⟩
      state := .idle
      totalAlloc := pageSize + stackSize
      waitingOn := none })

/-- `lgx_fiber_destroy`. -/
def fiberDestroy (fiber : FiberObject) : Program FiberResource Unit := do
  release .stack fiber.stackBase
  release .heap fiber.self

/-! ## The pool -/

/-- `lgx_fiber_pool_init`.  The size of the stacks is not kept. -/
def fiberPoolInit (pool : Pool) (count _stackSize : UInt64) : ThreadingError × Pool :=
  if pool.initialized then (.alreadyInit, pool)
  else (.success, ⟨[], if count = 0 then 128 else count, 0, true⟩)

/-- `lgx_fiber_pool_acquire`. -/
def fiberPoolAcquire (pageSize : UInt64) (pool : Pool) (func data : ℕ) (answers : FiberAnswers) :
    Program FiberResource (ThreadingError × Option FiberObject × Pool) := do
  if func = 0 then return (.invalidParam, none, pool)
  match pool.top with
  | node :: rest =>
      release .heap node.self
      return (.success, some { node.fiber with
        func, data
        state := .idle
        waitingOn := none
        context := ⟨node.fiber.stackBase, pageSize, node.fiber.stackSize⟩ },
        { pool with top := rest, available := pool.available - 1 })
  | [] =>
      let r ← fiberCreate pageSize func data 0 answers
      return (r.1, r.2, pool)

/-- `lgx_fiber_pool_release`. -/
def fiberPoolRelease (pool : Pool) (fiber : FiberObject) (malloc : Bool) : Program FiberResource Pool := do
  let node ← acquire .heap malloc
  if node = 0 then
    fiberDestroy fiber
    return pool
  return { pool with top := ⟨node, { fiber with state := .idle }⟩ :: pool.top, available := pool.available + 1 }

/-- `lgx_fiber_pool_shutdown`. -/
def fiberPoolShutdown (pool : Pool) : Program FiberResource Pool := do
  if !pool.initialized then return pool
  pool.top.forM fun node => do
    fiberDestroy node.fiber
    release .heap node.self
  return { pool with top := [], available := 0, initialized := false }

/-! ## Runs -/

/-- The pool, and the fibers that the clients have. -/
structure State where
  pool : Pool
  fibers : List FiberObject

/-- What the clients do; their fibers are numbered.  A fiber that runs comes to some state. -/
inductive Op
  | init (count stackSize : UInt64)
  | create (func data : ℕ) (stackSize : UInt64) (answers : FiberAnswers)
  | acquire (func data : ℕ) (answers : FiberAnswers)
  | run (i : ℕ) (state : FiberState) (waitingOn : Option ℕ)
  | release (i : ℕ) (malloc : Bool)
  | destroy (i : ℕ)
  | shutdown

/-- One step. -/
def exec (pageSize : UInt64) (s : State) : Op → Program FiberResource State
  | .init count stackSize => return { s with pool := (fiberPoolInit s.pool count stackSize).2 }
  | .create func data stackSize answers => do
      let r ← fiberCreate pageSize func data stackSize answers
      return { s with fibers := r.2.toList ++ s.fibers }
  | .acquire func data answers => do
      let r ← fiberPoolAcquire pageSize s.pool func data answers
      return { pool := r.2.2, fibers := r.2.1.toList ++ s.fibers }
  | .run i state waitingOn =>
      match s.fibers[i]? with
      | none => return s
      | some fiber => return { s with fibers := s.fibers.set i { fiber with state, waitingOn } }
  | .release i malloc =>
      match s.fibers[i]? with
      | none => return s
      | some fiber => do
          let pool ← fiberPoolRelease s.pool fiber malloc
          return { pool, fibers := s.fibers.eraseIdx i }
  | .destroy i =>
      match s.fibers[i]? with
      | none => return s
      | some fiber => do
          fiberDestroy fiber
          return { s with fibers := s.fibers.eraseIdx i }
  | .shutdown => do
      let pool ← fiberPoolShutdown s.pool
      return { s with pool }

/-- The state and the ledger after a run. -/
def run (pageSize : UInt64) (ops : List Op) : State × Ledger FiberResource :=
  (ops.foldlM (exec pageSize) { pool := .new, fibers := [] }).run .new

/-! ## Who owns the fibers -/

/-- What a fiber owns. -/
def FiberObject.objects (fiber : FiberObject) : Multiset (FiberResource × ℕ) :=
  owned .stack fiber.stackBase + owned .heap fiber.self

/-- What a node of the list owns. -/
def PoolNode.objects (node : PoolNode) : Multiset (FiberResource × ℕ) :=
  node.fiber.objects + owned .heap node.self

/-- What the pool owns. -/
def Pool.objects (pool : Pool) : Multiset (FiberResource × ℕ) :=
  (pool.top.map PoolNode.objects).sum

/-- What the fibers of the clients own. -/
def fibersObjects (fibers : List FiberObject) : Multiset (FiberResource × ℕ) :=
  (fibers.map FiberObject.objects).sum

/-- What the pool and the clients own. -/
def State.objects (s : State) : Multiset (FiberResource × ℕ) :=
  s.pool.objects + fibersObjects s.fibers

/-- What is lost in a step. -/
def lostBy (s : State) : Op → Multiset (FiberResource × ℕ)
  | .init _ _ => if s.pool.initialized then 0 else s.pool.objects
  | _ => 0

variable {pageSize : UInt64} {s : State} {fibers : List FiberObject} {fiber : FiberObject} {i : ℕ} {ops : List Op}
  {op : Op}

theorem fibersObjects_eraseIdx (h : fibers[i]? = some fiber) :
    fibersObjects fibers = fiber.objects + fibersObjects (fibers.eraseIdx i) := by
  obtain ⟨hi, rfl⟩ := List.getElem?_eq_some_iff.mp h
  rw [fibersObjects, fibersObjects, ← List.sum_cons, ← List.map_cons]
  exact ((List.getElem_cons_eraseIdx_perm hi).symm.map _).sum_eq

theorem fibersObjects_set (h : fibers[i]? = some fiber) (fiber' : FiberObject)
    (hobjects : fiber'.objects = fiber.objects) : fibersObjects (fibers.set i fiber') = fibersObjects fibers := by
  obtain ⟨hi, -⟩ := List.getElem?_eq_some_iff.mp h
  rw [fibersObjects_eraseIdx h, ← hobjects, fibersObjects, fibersObjects, ← List.sum_cons, ← List.map_cons]
  exact ((List.set_perm_cons_eraseIdx hi fiber').map _).sum_eq

theorem fibersObjects_toList (made : Option FiberObject) :
    fibersObjects (made.toList ++ fibers) = made.elim 0 FiberObject.objects + fibersObjects fibers := by
  cases made with
  | none => exact (zero_add _).symm
  | some fiber => rfl

theorem fiberCreate_triple (pageSize : UInt64) (func data : ℕ) (stackSize : UInt64) (answers : FiberAnswers) :
    Triple 0 (fiberCreate pageSize func data stackSize answers) fun r => r.2.elim 0 FiberObject.objects := by
  unfold fiberCreate
  refine .ite (fun _ => .pure rfl) fun _ => .acquire_checked (.pure rfl) fun self _ => ?_
  refine .acquire_checked (.release_bind rfl (.pure rfl)) fun stackBase _ => .pure ?_
  simp [FiberObject.objects]

theorem fiberDestroy_triple (fiber : FiberObject) : Triple fiber.objects (fiberDestroy fiber) fun _ => 0 :=
  .release_bind rfl (Triple.release FiberResource.heap fiber.self)

theorem fiberPoolAcquire_triple (pageSize : UInt64) (pool : Pool) (func data : ℕ) (answers : FiberAnswers) :
    Triple pool.objects (fiberPoolAcquire pageSize pool func data answers)
      fun r => r.2.1.elim 0 FiberObject.objects + r.2.2.objects := by
  unfold fiberPoolAcquire
  refine .ite (fun _ => .pure (zero_add _).symm) fun _ => ?_
  split
  · rename_i node rest htop
    have hpool : pool.objects = owned .heap node.self + (node.fiber.objects + (rest.map PoolNode.objects).sum) := by
      rw [Pool.objects, htop, List.map_cons, List.sum_cons, PoolNode.objects]
      abel
    exact .release_bind hpool (.pure rfl)
  · exact (fiberCreate_triple pageSize func data 0 answers).call (zero_add _).symm fun r => .pure rfl

theorem fiberPoolRelease_triple (pool : Pool) (fiber : FiberObject) (malloc : Bool) :
    Triple (fiber.objects + pool.objects) (fiberPoolRelease pool fiber malloc) Pool.objects := by
  unfold fiberPoolRelease
  refine .acquire_checked ?_ fun node _ => .pure ?_
  · exact (fiberDestroy_triple fiber).call rfl fun _ => .pure (zero_add _)
  · rw [Pool.objects, Pool.objects, List.map_cons, List.sum_cons, PoolNode.objects, add_left_comm, add_assoc]
    rfl

theorem fiberPoolShutdown_triple (pool : Pool) : Triple pool.objects (fiberPoolShutdown pool) Pool.objects := by
  unfold fiberPoolShutdown
  refine .ite (fun _ => .pure rfl) fun _ => (Triple.forM (fun node => ?_) pool.top).bind fun _ => .pure rfl
  exact (fiberDestroy_triple node.fiber).call rfl fun _ =>
    .of_eq (zero_add _) (Triple.release FiberResource.heap node.self)

/-- A step leaves what is owned then, and what is lost in it. -/
theorem exec_triple (pageSize : UInt64) (s : State) (op : Op) :
    Triple s.objects (exec pageSize s op) fun s' => s'.objects + lostBy s op := by
  cases op with
  | init count stackSize =>
      refine .pure ?_
      rw [lostBy, State.objects, State.objects, fiberPoolInit]
      by_cases hinitialized : s.pool.initialized = true
      · rw [if_pos hinitialized, if_pos hinitialized, add_zero]
      · rw [if_neg hinitialized, if_neg hinitialized, add_comm]
        exact congrArg (· + s.pool.objects) (zero_add _).symm
  | create func data stackSize answers =>
      refine (fiberCreate_triple pageSize func data stackSize answers).call (zero_add _).symm
        fun r => .pure (Eq.trans ?_ (add_zero _).symm)
      rw [State.objects, State.objects, fibersObjects_toList, add_left_comm]
  | acquire func data answers =>
      refine (fiberPoolAcquire_triple pageSize s.pool func data answers).call rfl
        fun r => .pure (Eq.trans ?_ (add_zero _).symm)
      rw [State.objects, fibersObjects_toList]
      abel
  | run i state waitingOn =>
      rw [exec]
      cases hget : s.fibers[i]? with
      | none => exact Triple.pure (add_zero _).symm
      | some fiber =>
          refine Triple.pure (Eq.trans ?_ (add_zero _).symm)
          have hset := fibersObjects_set hget { fiber with state, waitingOn } rfl
          exact congrArg (s.pool.objects + ·) hset.symm
  | release i malloc =>
      rw [exec]
      cases hget : s.fibers[i]? with
      | none => exact Triple.pure (add_zero _).symm
      | some fiber =>
          have hbefore : s.objects = (fiber.objects + s.pool.objects) + fibersObjects (s.fibers.eraseIdx i) := by
            rw [State.objects, fibersObjects_eraseIdx hget]
            abel
          exact (fiberPoolRelease_triple s.pool fiber malloc).call hbefore fun pool => .pure (add_zero _).symm
  | destroy i =>
      rw [exec]
      cases hget : s.fibers[i]? with
      | none => exact Triple.pure (add_zero _).symm
      | some fiber =>
          have hbefore : s.objects = fiber.objects + (s.pool.objects + fibersObjects (s.fibers.eraseIdx i)) := by
            rw [State.objects, fibersObjects_eraseIdx hget]
            abel
          refine (fiberDestroy_triple fiber).call hbefore fun pool => .pure ?_
          rw [zero_add]
          exact (add_zero _).symm
  | shutdown =>
      exact (fiberPoolShutdown_triple s.pool).call rfl fun pool => .pure (add_zero _).symm

/-! ## What is known of the pool -/

/-- Every fiber has its memory. -/
def FiberObject.Made (fiber : FiberObject) : Prop :=
  fiber.self ≠ 0

/-- A node has its memory, and a fiber. -/
def PoolNode.Made (node : PoolNode) : Prop :=
  node.self ≠ 0 ∧ node.fiber.Made

/-- The list is as long as `available` says, and there is memory for everything on it and with the clients. -/
structure Sound (s : State) : Prop where
  available : s.pool.available = s.pool.top.length
  nodes : ∀ node ∈ s.pool.top, node.Made
  fibers : ∀ fiber ∈ s.fibers, fiber.Made

theorem fiberCreate_made (pageSize : UInt64) (func data : ℕ) (stackSize : UInt64) (answers : FiberAnswers) :
    Returns (fiberCreate pageSize func data stackSize answers) fun r => ∀ fiber ∈ r.2, fiber.Made := by
  have hnone : ∀ fiber ∈ (none : Option FiberObject), fiber.Made := fun _ h => nomatch h
  unfold fiberCreate
  refine .ite (fun _ => .pure hnone) fun _ => .after fun self => .ite (fun _ => .pure hnone) fun hself => ?_
  refine .after fun stackBase => .ite (fun _ => .after fun _ => .pure hnone) fun _ => .pure fun fiber hfiber => ?_
  rw [← Option.mem_some.mp hfiber]
  exact hself

theorem fiberPoolAcquire_sound (h : Sound s) (pageSize : UInt64) (func data : ℕ) (answers : FiberAnswers) :
    Returns (fiberPoolAcquire pageSize s.pool func data answers)
      fun r => Sound { pool := r.2.2, fibers := r.2.1.toList ++ s.fibers } := by
  unfold fiberPoolAcquire
  refine .ite (fun _ => .pure h) fun _ => ?_
  split
  · rename_i node rest htop
    have hnode := h.nodes node (by rw [htop]; exact List.mem_cons_self ..)
    refine .after fun _ => .pure ⟨?_, fun node' hmem => h.nodes node' ?_, fun fiber hmem => ?_⟩
    · rw [h.available, htop]
      rfl
    · rw [htop]
      exact List.mem_cons_of_mem _ hmem
    · rcases List.mem_cons.mp hmem with rfl | hmem
      · exact hnode.2
      · exact h.fibers fiber hmem
  · refine (fiberCreate_made pageSize func data 0 answers).bind fun r hmade => .pure ⟨h.available, h.nodes, ?_⟩
    intro fiber hmem
    rcases List.mem_append.mp hmem with hmem | hmem
    · exact hmade fiber (Option.mem_toList.mp hmem)
    · exact h.fibers fiber hmem

theorem fiberPoolRelease_sound (h : Sound s) (hget : s.fibers[i]? = some fiber) (malloc : Bool) :
    Returns (fiberPoolRelease s.pool fiber malloc) fun pool => Sound { pool, fibers := s.fibers.eraseIdx i } := by
  have hfiber := h.fibers fiber (List.mem_of_getElem? hget)
  have herase : ∀ fiber ∈ s.fibers.eraseIdx i, fiber.Made :=
    fun fiber hmem => h.fibers fiber (List.mem_of_mem_eraseIdx hmem)
  unfold fiberPoolRelease
  refine .after fun node => .ite (fun _ => .after fun _ => .pure ⟨h.available, h.nodes, herase⟩) fun hnode => ?_
  refine .pure ⟨congrArg (· + 1) h.available, fun node' hmem => ?_, herase⟩
  rcases List.mem_cons.mp hmem with rfl | hmem
  · exact ⟨hnode, hfiber⟩
  · exact h.nodes node' hmem

theorem fiberPoolShutdown_sound (h : Sound s) :
    Returns (fiberPoolShutdown s.pool) fun pool => Sound { s with pool } := by
  unfold fiberPoolShutdown
  refine .ite (fun _ => .pure h) fun _ => .after fun _ => .pure ⟨rfl, fun _ hmem => ?_, h.fibers⟩
  exact absurd hmem List.not_mem_nil

theorem exec_sound (pageSize : UInt64) (op : Op) (h : Sound s) : Returns (exec pageSize s op) Sound := by
  cases op with
  | init count stackSize =>
      refine .pure ?_
      rw [fiberPoolInit]
      split_ifs
      · exact h
      · exact ⟨rfl, fun _ hmem => absurd hmem List.not_mem_nil, h.fibers⟩
      · exact ⟨rfl, fun _ hmem => absurd hmem List.not_mem_nil, h.fibers⟩
  | create func data stackSize answers =>
      refine (fiberCreate_made pageSize func data stackSize answers).bind fun r hmade =>
        .pure ⟨h.available, h.nodes, fun fiber hmem => ?_⟩
      rcases List.mem_append.mp hmem with hmem | hmem
      · exact hmade fiber (Option.mem_toList.mp hmem)
      · exact h.fibers fiber hmem
  | acquire func data answers =>
      exact (fiberPoolAcquire_sound h pageSize func data answers).bind fun r hr => .pure hr
  | run i state waitingOn =>
      rw [exec]
      cases hget : s.fibers[i]? with
      | none => exact .pure h
      | some fiber =>
          refine .pure ⟨h.available, h.nodes, fun fiber' hmem => ?_⟩
          rcases List.mem_or_eq_of_mem_set hmem with hmem | rfl
          · exact h.fibers fiber' hmem
          · exact h.fibers fiber (List.mem_of_getElem? hget)
  | release i malloc =>
      rw [exec]
      cases hget : s.fibers[i]? with
      | none => exact .pure h
      | some fiber =>
          exact (fiberPoolRelease_sound h hget malloc).bind fun pool hpool => .pure hpool
  | destroy i =>
      rw [exec]
      cases hget : s.fibers[i]? with
      | none => exact .pure h
      | some fiber =>
          refine .after fun _ => .pure ⟨h.available, h.nodes, fun fiber hmem => ?_⟩
          exact h.fibers fiber (List.mem_of_mem_eraseIdx hmem)
  | shutdown =>
      exact (fiberPoolShutdown_sound h).bind fun pool hpool => .pure hpool

/-! ## Names -/

theorem fiberCreate_names (pageSize : UInt64) (func data : ℕ) (stackSize : UInt64) (answers : FiberAnswers) :
    Names (fiberCreate pageSize func data stackSize answers) :=
  .ite (.pure _) (.bind (.acquire _ _) fun _ => .ite (.pure _) (.bind (.acquire _ _) fun _ =>
    .ite (.bind (.release _ _) fun _ => .pure _) (.pure _)))

theorem fiberDestroy_names (fiber : FiberObject) : Names (fiberDestroy fiber) :=
  .bind (.release _ _) fun _ => .release _ _

theorem exec_names (pageSize : UInt64) (s : State) (op : Op) : Names (exec pageSize s op) := by
  cases op with
  | init count stackSize => exact .pure _
  | create func data stackSize answers => exact .bind (fiberCreate_names _ _ _ _ _) fun _ => .pure _
  | acquire func data answers =>
      refine .bind (.ite (.pure _) ?_) fun _ => .pure _
      cases s.pool.top with
      | nil => exact .bind (fiberCreate_names _ _ _ _ _) fun _ => .pure _
      | cons node rest => exact .bind (.release _ _) fun _ => .pure _
  | run i state waitingOn =>
      rw [exec]
      split <;> exact .pure _
  | release i malloc =>
      rw [exec]
      split
      · exact .pure _
      · refine .bind (.bind (.acquire _ _) fun _ => .ite ?_ (.pure _)) fun _ => .pure _
        exact .bind (fiberDestroy_names _) fun _ => .pure _
  | destroy i =>
      rw [exec]
      split
      · exact .pure _
      · exact .bind (fiberDestroy_names _) fun _ => .pure _
  | shutdown =>
      refine .bind (.ite (.pure _) (.bind (.forM (fun node => ?_) _) fun _ => .pure _)) fun _ => .pure _
      exact .bind (fiberDestroy_names _) fun _ => .release _ _

/-! ## Whole runs -/

theorem run_concat (pageSize : UInt64) (ops : List Op) (op : Op) :
    run pageSize (ops ++ [op]) = (exec pageSize (run pageSize ops).1 op).run (run pageSize ops).2 := by
  rw [run, List.foldlM_append]
  rfl

theorem run_sound (pageSize : UInt64) (ops : List Op) : Sound (run pageSize ops).1 := by
  refine Returns.foldlM (fun _ op h => exec_sound pageSize op h) ops ⟨rfl, ?_, ?_⟩ .new
  · exact fun _ hmem => absurd hmem List.not_mem_nil
  · exact fun _ hmem => absurd hmem List.not_mem_nil

/-- Whenever the pool is initialized, its list is empty. -/
def NeverLoses (pageSize : UInt64) (ops : List Op) : Prop :=
  History.Always (fun before op => ∀ count stackSize, op = .init count stackSize →
    (run pageSize before).1.pool.initialized = true ∨ (run pageSize before).1.pool.top = []) ops

/-- A list that is not empty is something to lose. -/
theorem lostBy_eq_zero_iff (h : Sound s) (op : Op) :
    lostBy s op = 0 ↔ ∀ count stackSize, op = .init count stackSize →
      s.pool.initialized = true ∨ s.pool.top = [] := by
  cases op with
  | init count stackSize =>
      have hobjects : s.pool.objects = 0 ↔ s.pool.top = [] := by
        rw [Pool.objects]
        cases htop : s.pool.top with
        | nil => simp
        | cons node rest =>
            have hnode := h.nodes node (by rw [htop]; exact List.mem_cons_self ..)
            rw [List.map_cons, List.sum_cons, PoolNode.objects]
            refine iff_of_false (fun hzero => ?_) (List.cons_ne_nil _ _)
            rw [add_eq_zero_iff, add_eq_zero_iff] at hzero
            exact owned_ne_zero _ hnode.1 hzero.1.2
      rw [lostBy]
      split_ifs with hinitialized
      · exact iff_of_true rfl fun _ _ _ => .inl hinitialized
      · rw [hobjects]
        exact ⟨fun htop _ _ _ => .inr htop, fun h => (h count stackSize rfl).resolve_left hinitialized⟩
  | _ => exact iff_of_true rfl fun _ _ hop => nomatch hop

theorem run_held (pageSize : UInt64) (ops : List Op) :
    ∃ lost, Holds (run pageSize ops).2 ((run pageSize ops).1.objects + lost) ∧
      (lost = 0 ↔ NeverLoses pageSize ops) := by
  induction ops using List.reverseRecOn with
  | nil => exact ⟨0, Holds.new, iff_of_true rfl History.always_nil⟩
  | append_singleton ops op ih =>
      obtain ⟨lost, hholds, hlost⟩ := ih
      have hstep := exec_triple pageSize (run pageSize ops).1 op (run pageSize ops).2 lost hholds
      refine ⟨lostBy (run pageSize ops).1 op + lost, ?_, ?_⟩
      · rw [run_concat, ← add_assoc]
        exact hstep
      · rw [NeverLoses, History.always_concat, add_eq_zero_iff,
          lostBy_eq_zero_iff (run_sound pageSize ops), hlost]
        exact and_comm

theorem run_named (pageSize : UInt64) (ops : List Op) : Named (run pageSize ops).2 :=
  Names.foldlM (exec_names pageSize) ops _ .new .new

/-- The fibers on the list and with the clients. -/
def State.everyone (s : State) : List FiberObject :=
  s.pool.top.map PoolNode.fiber ++ s.fibers

theorem singleton_le_objects (h : fiber.Made) : {(FiberResource.heap, fiber.self)} ≤ fiber.objects := by
  have hself : fiber.self ≠ 0 := h
  rw [FiberObject.objects, owned_of_ne_zero FiberResource.heap hself]
  exact Multiset.le_add_left ..

/-- If nothing is owned twice, no fiber is in two places. -/
theorem nodup_everyone (h : Sound s) (hnodup : s.objects.Nodup) : (s.everyone.map FiberObject.self).Nodup := by
  have hnodes : (s.pool.top.map fun node => (FiberResource.heap, node.fiber.self) : Multiset (FiberResource × ℕ)) ≤
      s.pool.objects :=
    coe_map_le_sum fun node hmem =>
      (singleton_le_objects (h.nodes node hmem).2).trans (Multiset.le_add_right ..)
  have hfibers : (s.fibers.map fun fiber => (FiberResource.heap, fiber.self) : Multiset (FiberResource × ℕ)) ≤
      fibersObjects s.fibers :=
    coe_map_le_sum fun fiber hmem => singleton_le_objects (h.fibers fiber hmem)
  have hall := Multiset.nodup_of_le (add_le_add hnodes hfibers) hnodup
  rw [Multiset.coe_add, Multiset.coe_nodup] at hall
  refine List.Nodup.of_map (fun name => (FiberResource.heap, name)) ?_
  rw [State.everyone, List.map_append, List.map_append, List.map_map, List.map_map, List.map_map]
  exact hall

/-- However the calls of the clients follow one another, `available` is the length of the list, no fiber is on it twice,
or on it and with a client, or with two; and every stack and every piece of memory that is not released belongs to a
fiber with a client or to the list, if and only if the list is empty whenever the pool is initialized. -/
theorem run_pool (pageSize : UInt64) (ops : List Op) :
    (run pageSize ops).1.pool.available = (run pageSize ops).1.pool.top.length ∧
      ((run pageSize ops).1.everyone.map FiberObject.self).Nodup ∧
      (Holds (run pageSize ops).2 (run pageSize ops).1.objects ↔ NeverLoses pageSize ops) := by
  have hsound := run_sound pageSize ops
  obtain ⟨lost, hholds, hlost⟩ := run_held pageSize ops
  have hnodup := hholds.nodup (run_named pageSize ops)
  refine ⟨hsound.available, nodup_everyone hsound (Multiset.nodup_of_le (Multiset.le_add_right ..) hnodup), ?_⟩
  rw [← hlost]
  constructor
  · intro h
    have hsame := hholds.unique h
    rwa [add_eq_left] at hsame
  · rintro rfl
    rwa [add_zero] at hholds

end LgxRuntime.Threading.FiberPool
