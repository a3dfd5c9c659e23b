import LgxRuntime.Lib.Interleaving
import LgxRuntime.Lib.TreiberStack
import LgxRuntime.Machine

/-!
# The lock-free block pool

The free blocks of a size class are a Treiber stack that is linked through the blocks themselves.  Every
push writes a new generation into its block, but `lgx_lockfree_pop` compares the head alone: if the head is
popped, and pushed again on top of something else, between the read of its `next` and the
compare-and-swap, the pop makes a block the head that is not free.

A block belongs to the client until it is pushed, and again once it is popped; the client may write what it
likes into a block that it has.  The batch forms push and pop one block after the other.  What was pushed,
in the order of the compare-and-swaps, and what was returned is recorded in the state.
-/

namespace LgxRuntime.LockFreePool

open Function (update update_self update_of_ne)
open Interleaving (comp_update comp_update_self apply_update_self apply_update_cases forall_update)

/-! ## The pool -/

/-- Where a thread is, with its local variables. -/
inductive Pc (Block : Type)
  | idle
  /-- `lgx_lockfree_push_batch`, at the head of the loop, with the blocks that are left. -/
  | pushLoop (blocks : List (Option Block))
  /-- `lgx_lockfree_push`, at `atomic_fetch_add` on the generation. -/
  | pushGeneration (block : Block) (blocks : List (Option Block))
  /-- At the load of the head. -/
  | pushLoad (block : Block) (blocks : List (Option Block))
  /-- At the write of `next`. -/
  | pushNext (block : Block) (oldHead : Option Block) (blocks : List (Option Block))
  /-- At the weak compare-and-swap on the head. -/
  | pushCas (block : Block) (oldHead : Option Block) (blocks : List (Option Block))
  | pushCount (blocks : List (Option Block))
  /-- `lgx_lockfree_pop_batch`, at the head of the loop, with the number of blocks that are wanted. -/
  | popLoop (wanted : ℕ)
  /-- `lgx_lockfree_pop`, at the load of the head. -/
  | popLoad (wanted : ℕ)
  /-- At the read of `next`. -/
  | popNext (block : Block) (wanted : ℕ)
  /-- At the weak compare-and-swap on the head. -/
  | popCas (block : Block) (newHead : Option Block) (wanted : ℕ)
  | popCount (block : Block) (wanted : ℕ)
  /-- At the write of `NULL` into `next`. -/
  | popClear (block : Block) (wanted : ℕ)

/-- `lockfree_size_class_pool_t` with the memory of the blocks and its threads. -/
structure State (Block Thread : Type) where
  head : Option Block
  generation : ℕ
  count : ℕ
  next : Block → Option Block
  blockGeneration : Block → ℕ
  /-- The blocks that the client has. -/
  held : Block → Bool
  pc : Thread → Pc Block
  pushed : List Block
  returned : List Block

variable {Block Thread : Type}

/-- The pool after `lgx_lockfree_pool_init`: the client has all blocks. -/
structure Initial (s : State Block Thread) : Prop where
  head : s.head = none
  generation : s.generation = 1
  count : s.count = 0
  held : ∀ block, s.held block = true
  pc : ∀ t, s.pc t = .idle
  pushed : s.pushed = []
  returned : s.returned = []

/-- A call, a write of the client to a block, or the next step of a thread, in which a weak
compare-and-swap may fail for no reason. -/
inductive Action (Block Thread : Type)
  | push (t : Thread) (block : Block)
  | pushBatch (t : Thread) (blocks : List (Option Block))
  | pop (t : Thread)
  | popBatch (t : Thread) (maxCount : ℕ)
  | write (block : Block) (next : Option Block) (generation : ℕ)
  | next (t : Thread) (weak : Bool)

variable [DecidableEq Block] [DecidableEq Thread]

/-- A thread moves on. -/
def State.goto (s : State Block Thread) (t : Thread) (pc : Pc Block) : State Block Thread :=
  { s with pc := update s.pc t pc }

/-- The loop of `lgx_lockfree_pop`: it ends when there is no head. -/
def popFrom (head : Option Block) (wanted : ℕ) : Pc Block :=
  match head with
  | none => .idle
  | some block => .popNext block wanted

/-- The next step of a push. -/
def stepPush (s : State Block Thread) (t : Thread) (weak : Bool) :
    Pc Block → Option (State Block Thread)
  | .pushLoop [] => some (s.goto t .idle)
  | .pushLoop (none :: blocks) => some (s.goto t (.pushLoop blocks))
  | .pushLoop (some block :: blocks) =>
      some { s.goto t (.pushGeneration block blocks) with held := update s.held block false }
  | .pushGeneration block blocks =>
      some
        { s.goto t (.pushLoad block blocks) with
          generation := wrap64 (s.generation + 1)
          blockGeneration := update s.blockGeneration block s.generation }
  | .pushLoad block blocks => some (s.goto t (.pushNext block s.head blocks))
  | .pushNext block oldHead blocks =>
      some { s.goto t (.pushCas block oldHead blocks) with next := update s.next block oldHead }
  | .pushCas block oldHead blocks =>
      -- a failed compare-and-swap loads what it finds into `old_head`
      if s.head = oldHead ∧ weak = false then
        some { s.goto t (.pushCount blocks) with head := some block, pushed := block :: s.pushed }
      else some (s.goto t (.pushNext block s.head blocks))
  | .pushCount blocks => some { s.goto t (.pushLoop blocks) with count := wrap64 (s.count + 1) }
  | _ => none

/-- The next step of a pop. -/
def stepPop (s : State Block Thread) (t : Thread) (weak : Bool) :
    Pc Block → Option (State Block Thread)
  | .popLoop 0 => some (s.goto t .idle)
  | .popLoop (wanted + 1) => some (s.goto t (.popLoad wanted))
  | .popLoad wanted => some (s.goto t (popFrom s.head wanted))
  | .popNext block wanted => some (s.goto t (.popCas block (s.next block) wanted))
  | .popCas block newHead wanted =>
      -- neither the generation of the pool nor that of the block is compared
      if s.head = some block ∧ weak = false then
        some { s.goto t (.popCount block wanted) with head := newHead }
      else some (s.goto t (popFrom s.head wanted))
  | .popCount block wanted => some { s.goto t (.popClear block wanted) with count := sub64 s.count 1 }
  | .popClear block wanted =>
      some
        { s.goto t (.popLoop wanted) with
          next := update s.next block none
          held := update s.held block true
          returned := block :: s.returned }
  | _ => none

/-- A thread calls a function. -/
def enterCall (s : State Block Thread) (t : Thread) (pc : Pc Block) : Option (State Block Thread) :=
  match s.pc t with
  | .idle => some (s.goto t pc)
  | _ => none

/-- One step.  To push or pop one block is to do so in a batch of one. -/
def step (s : State Block Thread) : Action Block Thread → Option (State Block Thread)
  | .push t block => enterCall s t (.pushLoop [some block])
  | .pushBatch t blocks => enterCall s t (.pushLoop blocks)
  | .pop t => enterCall s t (.popLoop 1)
  | .popBatch t maxCount => enterCall s t (.popLoop maxCount)
  | .write block next generation =>
      some
        { s with
          next := update s.next block next
          blockGeneration := update s.blockGeneration block generation }
  | .next t weak => stepPush s t weak (s.pc t) <|> stepPop s t weak (s.pc t)

/-- The client pushes, and writes to, blocks that it has. -/
def Allowed (s : State Block Thread) : Action Block Thread → Prop
  | .write block _ _ => s.held block = true
  | .next t _ =>
      match s.pc t with
      | .pushLoop (some block :: _) => s.held block = true
      | _ => True
  | _ => True

/-- The states of the runs of any number of threads. -/
def Reachable : State Block Thread → Prop :=
  Interleaving.Reachable Initial step Allowed

/-! ## What a pool should do -/

/-- The block that a pop has unlinked and not returned yet. -/
def Pc.takes : Pc Block → Option Block
  | .popCount block _ | .popClear block _ => some block
  | _ => none

/-- A block is returned once for every push, and those that are not returned are linked from the head, or in
the hand of a pop that has unlinked them. -/
structure Sound (s : State Block Thread) : Prop where
  count_le : ∀ block, s.returned.count block ≤ s.pushed.count block
  le_count : ∀ block, s.pushed.count block ≤ s.returned.count block + 1
  linked : ∃ blocks takers, Linked s.next s.head blocks ∧
    Balance (fun t => (s.pc t).takes) takers s.pushed s.returned blocks

/-- A pop that finds the block that it has loaded at the head finds the `next` that it has read in this
block. -/
def Fits (s : State Block Thread) : Action Block Thread → Prop
  | .next t weak =>
      match s.pc t with
      | .popCas block newHead _ => s.head = some block → weak = false → s.next block = newHead
      | _ => True
  | _ => True

/-- The states of the runs in which every step fits. -/
def FitReachable : State Block Thread → Prop :=
  Interleaving.Reachable Initial step fun s a => Allowed s a ∧ Fits s a

instance (s : State Block Thread) : (a : Action Block Thread) → Decidable (Allowed s a)
  | .write block _ _ => inferInstanceAs (Decidable (s.held block = true))
  | .next t _ =>
      match h : s.pc t with
      | .pushLoop (some block :: _) => decidable_of_iff (s.held block = true) (by simp only [Allowed, h])
      | .pushLoop [] | .pushLoop (none :: _) => isTrue (by simp only [Allowed, h])
      | .idle | .pushGeneration _ _ | .pushLoad _ _ | .pushNext _ _ _ | .pushCas _ _ _ | .pushCount _
      | .popLoop _ | .popLoad _ | .popNext _ _ | .popCas _ _ _ | .popCount _ _ | .popClear _ _ =>
          isTrue (by simp only [Allowed, h])
  | .push _ _ | .pushBatch _ _ | .pop _ | .popBatch _ _ => inferInstanceAs (Decidable True)

/-- The head is popped, what is below it is popped, and the head is pushed again: a pop that has read
`next` before makes a block the head that the client has, and the next pop returns it once more. -/
theorem returned_twice_after_aba : ∃ s : State ℕ Bool, Reachable s ∧ s.pushed = [1, 1, 2] ∧
    s.returned = [2, 1, 2, 1] ∧ ¬ Sound s := by
  let s₀ : State ℕ Bool :=
    { head := none, generation := 1, count := 0, next := fun _ => none, blockGeneration := fun _ => 0,
      held := fun _ => true, pc := fun _ => .idle, pushed := [], returned := [] }
  let next (t : Bool) (k : ℕ) : List (Action ℕ Bool) := List.replicate k (.next t false)
  let actions : List (Action ℕ Bool) :=
    .pushBatch true [some 2, some 1] :: next true 13 ++
      -- one thread is about to replace 1 by 2
      .pop true :: next true 3 ++
      -- the other one pops both blocks and pushes 1
      .popBatch false 2 :: next false 13 ++ .push false 1 :: next false 7 ++
      next true 4 ++ .pop true :: next true 6
  have hresult : (Interleaving.run
      (Interleaving.guarded step fun s a => decide (Allowed s a)) actions s₀).map
      (fun s => (s.pushed, s.returned)) = some ([1, 1, 2], [2, 1, 2, 1]) := by
    decide +kernel
  have hinit : Reachable s₀ := .init ⟨rfl, rfl, rfl, fun _ => rfl, fun _ => rfl, rfl, rfl⟩
  obtain ⟨s, hreach, hs⟩ :=
    hinit.exists_of_run_guarded (fun _ _ _ h => of_decide_eq_true h) hresult
  obtain ⟨hpushed, hreturned⟩ := Prod.mk.inj hs
  refine ⟨s, hreach, hpushed, hreturned, fun hsound => ?_⟩
  have hcount := hsound.count_le 2
  rw [hpushed, hreturned] at hcount
  exact absurd hcount (by decide)

/-! ## The blocks -/

/-- The block that a thread is about to push, or has unlinked. -/
def Pc.owns : Pc Block → Option Block
  | .pushGeneration block _ | .pushLoad block _ | .pushNext block _ _ | .pushCas block _ _ => some block
  | .popCount block _ | .popClear block _ => some block
  | _ => none

/-- What a thread knows about its block. -/
def Known (s : State Block Thread) : Pc Block → Prop
  | .pushCas block oldHead _ => s.next block = oldHead
  | _ => True

/-- The blocks on the stack and those that a thread owns are not the client's. -/
structure Rep (s : State Block Thread) (blocks : List Block) (takers : List Thread) : Prop where
  stack : Treiber s.next s.head (fun t => (s.pc t).owns) blocks
  balance : Balance (fun t => (s.pc t).takes) takers s.pushed s.returned blocks
  held_stack : ∀ block, s.held block = true → block ∉ blocks
  held_owned : ∀ block, s.held block = true → ∀ t, (s.pc t).owns ≠ some block
  known : ∀ t, Known s (s.pc t)

namespace Rep

variable {s s' : State Block Thread} {blocks : List Block} {takers : List Thread} {t : Thread}
  {pc pc' : Pc Block}

omit [DecidableEq Block] in
/-- What the other threads know does not change. -/
theorem known_update (h : Rep s blocks takers) (hpc : s'.pc = update s.pc t pc')
    (hother : ∀ u, u ≠ t → Known s (s.pc u) → Known s' (s.pc u)) (hself : Known s' pc') :
    ∀ u, Known s' (s'.pc u) := by
  rw [hpc]
  exact forall_update (P := fun _ => Known s) (Q := fun _ => Known s') h.known hother hself

omit [DecidableEq Block] in
/-- A thread moves on with what it has. -/
theorem goto (h : Rep s blocks takers) (hpc : s.pc t = pc) (howns : pc'.owns = pc.owns)
    (htakes : pc'.takes = pc.takes) (hknown : Known s pc') : Rep (s.goto t pc') blocks takers := by
  rw [← hpc] at howns htakes
  refine ⟨?_, ?_, h.held_stack, fun block hheld u hu => ?_,
    h.known_update rfl (fun _ _ hu => hu) hknown⟩
  · simp only [State.goto, comp_update_self howns]
    exact h.stack
  · simp only [State.goto, comp_update_self htakes]
    exact h.balance
  · exact h.held_owned block hheld u ((apply_update_self howns u).symm.trans hu)

omit [DecidableEq Block] [DecidableEq Thread] in
/-- The counters and the generations of the blocks do not matter. -/
theorem counters (h : Rep s blocks takers) (generation count : ℕ) (blockGeneration : Block → ℕ) :
    Rep { s with generation := generation, count := count, blockGeneration := blockGeneration } blocks
      takers :=
  ⟨h.stack, h.balance, h.held_stack, h.held_owned, h.known⟩

omit [DecidableEq Thread] in
/-- The client writes to a block that it has. -/
theorem write (h : Rep s blocks takers) {block : Block} (hheld : s.held block = true)
    (next : Option Block) : Rep { s with next := update s.next block next } blocks takers := by
  refine ⟨h.stack.setNext (h.held_stack block hheld) next, h.balance, h.held_stack, h.held_owned,
    fun u => ?_⟩
  have hu := h.known u
  cases hpcu : s.pc u with
  | pushCas x oldHead rest =>
      rw [hpcu] at hu
      have hne : x ≠ block := by
        rintro rfl
        exact h.held_owned x hheld u (by rw [hpcu]; rfl)
      exact (update_of_ne hne ..).trans hu
  | _ =>
      rw [hpcu] at hu
      exact hu

/-- A push starts with a block that the client has. -/
theorem pushLoop (h : Rep s blocks takers) {block : Block} {rest : List (Option Block)}
    (hpc : s.pc t = .pushLoop (some block :: rest)) (hheld : s.held block = true) :
    Rep { s.goto t (.pushGeneration block rest) with held := update s.held block false } blocks
      takers := by
  have htakes : Pc.takes (.pushGeneration block rest) = (s.pc t).takes := by rw [hpc]; rfl
  have hother : ∀ x, update s.held block false x = true → x ≠ block ∧ s.held x = true :=
    fun x hx => (Interleaving.update_cases hx).resolve_left (by simp)
  refine ⟨?_, ?_, fun x hx => h.held_stack x (hother x hx).2, fun x hx u hu => ?_,
    h.known_update rfl (fun u _ hu => ?_) trivial⟩
  · simp only [State.goto, comp_update Pc.owns]
    exact h.stack.acquire (h.held_stack block hheld) (h.held_owned block hheld)
  · simp only [State.goto, comp_update_self htakes]
    exact h.balance
  · obtain ⟨hne, hx⟩ := hother x hx
    rcases apply_update_cases hu with ⟨-, hblock⟩ | ⟨-, hu⟩
    · exact hne (Option.some.inj hblock).symm
    · exact h.held_owned x hx u hu
  · cases hpcu : s.pc u <;> rw [hpcu] at hu <;> exact hu

/-- The block points to the head that was loaded. -/
theorem pushNext (h : Rep s blocks takers) {block : Block} {oldHead : Option Block}
    {rest : List (Option Block)} (hpc : s.pc t = .pushNext block oldHead rest) :
    Rep { s.goto t (.pushCas block oldHead rest) with next := update s.next block oldHead } blocks
      takers := by
  have howns : (s.pc t).owns = some block := by rw [hpc]; rfl
  have howns' : Pc.owns (.pushCas block oldHead rest) = (s.pc t).owns := by rw [hpc]; rfl
  have htakes : Pc.takes (.pushCas block oldHead rest) = (s.pc t).takes := by rw [hpc]; rfl
  refine ⟨?_, ?_, h.held_stack, fun x hx u hu => ?_,
    h.known_update rfl (fun u hut hu => ?_) (update_self ..)⟩
  · simp only [State.goto, comp_update_self howns']
    exact h.stack.setNext (h.stack.owned t block howns) oldHead
  · simp only [State.goto, comp_update_self htakes]
    exact h.balance
  · exact h.held_owned x hx u ((apply_update_self howns' u).symm.trans hu)
  · cases hpcu : s.pc u with
    | pushCas x oldHead' rest' =>
        rw [hpcu] at hu
        have hne : x ≠ block := by
          rintro rfl
          exact hut (h.stack.unique u t x (by rw [hpcu]; rfl) howns)
        exact (update_of_ne hne ..).trans hu
    | _ => rw [hpcu] at hu; exact hu

omit [DecidableEq Block] in
/-- The block becomes the head. -/
theorem pushCas (h : Rep s blocks takers) {block : Block} {oldHead : Option Block}
    {rest : List (Option Block)} (hpc : s.pc t = .pushCas block oldHead rest)
    (hhead : s.head = oldHead) :
    Rep { s.goto t (.pushCount rest) with head := some block, pushed := block :: s.pushed }
      (block :: blocks) takers := by
  have howns : (s.pc t).owns = some block := by rw [hpc]; rfl
  have htakes : (Pc.pushCount rest).takes = (s.pc t).takes := by rw [hpc]; rfl
  -- the block has pointed to the head that was loaded since `pushNext`
  have hnext : s.next block = oldHead := by
    have hknown := h.known t
    rwa [hpc] at hknown
  refine ⟨?_, ?_, fun x hx hmem => ?_, fun x hx u hu => ?_,
    h.known_update rfl (fun u _ hu => ?_) trivial⟩
  · simp only [State.goto, comp_update Pc.owns]
    exact h.stack.push howns (hnext.trans hhead.symm)
  · simp only [State.goto, comp_update_self htakes]
    exact h.balance.push block
  · rcases List.mem_cons.mp hmem with rfl | hmem
    · exact h.held_owned x hx t howns
    · exact h.held_stack x hx hmem
  · rcases apply_update_cases hu with ⟨-, hnone⟩ | ⟨-, hu⟩
    · cases hnone
    · exact h.held_owned x hx u hu
  · cases hpcu : s.pc u <;> rw [hpcu] at hu <;> exact hu

omit [DecidableEq Block] in
/-- The head is unlinked; it still points to the block that becomes the head. -/
theorem popCas (h : Rep s blocks takers) {block : Block} {newHead : Option Block} {wanted : ℕ}
    (hpc : s.pc t = .popCas block newHead wanted) (hhead : s.head = some block)
    (hnext : s.next block = newHead) :
    ∃ rest, Rep { s.goto t (.popCount block wanted) with head := newHead } rest (t :: takers) := by
  obtain ⟨rest, rfl, hstack⟩ := h.stack.pop (t := t) hhead
  have htakes : (s.pc t).takes = none := by rw [hpc]; rfl
  refine ⟨rest, ?_, ?_, fun x hx hmem => h.held_stack x hx (List.mem_cons_of_mem _ hmem),
    fun x hx u hu => ?_, h.known_update rfl (fun u _ hu => ?_) trivial⟩
  · simp only [State.goto, comp_update Pc.owns, ← hnext]
    exact hstack
  · simp only [State.goto, comp_update Pc.takes]
    exact h.balance.take htakes
  · rcases apply_update_cases hu with ⟨-, hblock⟩ | ⟨-, hu⟩
    · rw [← Option.some.inj hblock] at hx
      exact h.held_stack block hx (List.mem_cons_self ..)
    · exact h.held_owned x hx u hu
  · cases hpcu : s.pc u <;> rw [hpcu] at hu <;> exact hu

/-- The block is the client's again. -/
theorem popClear (h : Rep s blocks takers) {block : Block} {wanted : ℕ}
    (hpc : s.pc t = .popClear block wanted) :
    Rep
      { s.goto t (.popLoop wanted) with
        next := update s.next block none
        held := update s.held block true
        returned := block :: s.returned }
      blocks (takers.erase t) := by
  have howns : (s.pc t).owns = some block := by rw [hpc]; rfl
  have htakes : (s.pc t).takes = some block := by rw [hpc]; rfl
  have hnot : block ∉ blocks := h.stack.owned t block howns
  -- the block had one owner, so that the client is the only one to have it now
  have hother : ∀ u, u ≠ t → (s.pc u).owns ≠ some block :=
    fun u hut hu => hut (h.stack.unique u t block hu howns)
  refine ⟨?_, ?_, fun x hx => ?_, fun x hx u hu => ?_, h.known_update rfl (fun u hut hu => ?_) trivial⟩
  · simp only [State.goto, comp_update Pc.owns]
    exact (h.stack.setNext hnot none).release
  · simp only [State.goto, comp_update Pc.takes]
    exact h.balance.give htakes
  · by_cases hxb : x = block
    · rwa [hxb]
    · simp only [update_of_ne hxb] at hx
      exact h.held_stack x hx
  · rcases apply_update_cases hu with ⟨-, hnone⟩ | ⟨hut, hu⟩
    · cases hnone
    · by_cases hxb : x = block
      · rw [hxb] at hu
        exact hother u hut hu
      · simp only [update_of_ne hxb] at hx
        exact h.held_owned x hx u hu
  · cases hpcu : s.pc u with
    | pushCas x oldHead rest =>
        rw [hpcu] at hu
        have hne : x ≠ block := by
          rintro rfl
          exact hother u hut (by rw [hpcu]; rfl)
        exact (update_of_ne hne ..).trans hu
    | _ => rw [hpcu] at hu; exact hu

end Rep

/-! ## Runs -/

/-- The pool is in order. -/
def Ordered (s : State Block Thread) : Prop :=
  ∃ blocks takers, Rep s blocks takers

omit [DecidableEq Block] [DecidableEq Thread] in
theorem Ordered.init {s : State Block Thread} (h : Initial s) : Ordered s := by
  have howns : (fun t => (s.pc t).owns) = fun _ => none := funext fun t => by rw [h.pc]; rfl
  have htakes : (fun t => (s.pc t).takes) = fun _ => none := funext fun t => by rw [h.pc]; rfl
  refine ⟨[], [], ?_, ?_, fun _ _ => List.not_mem_nil, fun _ _ t hown => ?_, fun t => ?_⟩
  · rw [howns]
    exact ⟨h.head, (fun _ _ hown => nomatch hown), (fun _ _ _ hown => nomatch hown)⟩
  · rw [htakes, h.pushed, h.returned]
    exact Balance.init
  · rw [h.pc] at hown
    cases hown
  · rw [h.pc]
    trivial

omit [DecidableEq Block] in
/-- A thread moves on within code that has no block. -/
theorem Ordered.goto {s : State Block Thread} {t : Thread} {pc pc' : Pc Block} (h : Ordered s)
    (hpc : s.pc t = pc) (howns : pc'.owns = pc.owns) (htakes : pc'.takes = pc.takes)
    (hknown : Known s pc') : Ordered (s.goto t pc') := by
  obtain ⟨blocks, takers, h⟩ := h
  exact ⟨blocks, takers, h.goto hpc howns htakes hknown⟩

omit [DecidableEq Block] [DecidableEq Thread] in
theorem Ordered.counters {s : State Block Thread} (h : Ordered s) (generation count : ℕ)
    (blockGeneration : Block → ℕ) :
    Ordered { s with generation := generation, count := count, blockGeneration := blockGeneration } := by
  obtain ⟨blocks, takers, h⟩ := h
  exact ⟨blocks, takers, h.counters generation count blockGeneration⟩

theorem Ordered.push {s s' : State Block Thread} {t : Thread} {weak : Bool} (h : Ordered s)
    (hallowed : Allowed s (.next t weak)) (hstep : stepPush s t weak (s.pc t) = some s') :
    Ordered s' := by
  obtain ⟨blocks, takers, hrep⟩ := h
  have hordered : Ordered s := ⟨blocks, takers, hrep⟩
  cases hpc : s.pc t with
  | pushLoop rest =>
      rw [hpc] at hstep
      match rest with
      | [] =>
          cases hstep
          exact hordered.goto hpc rfl rfl trivial
      | none :: rest =>
          cases hstep
          exact hordered.goto hpc rfl rfl trivial
      | some block :: rest =>
          cases hstep
          simp only [Allowed, hpc] at hallowed
          exact ⟨blocks, takers, hrep.pushLoop hpc hallowed⟩
  | pushGeneration block rest =>
      rw [hpc] at hstep
      cases hstep
      have hgoto : Ordered (s.goto t (.pushLoad block rest)) := hordered.goto hpc rfl rfl trivial
      exact hgoto.counters _ _ _
  | pushLoad block rest =>
      rw [hpc] at hstep
      cases hstep
      exact hordered.goto hpc rfl rfl trivial
  | pushNext block oldHead rest =>
      rw [hpc] at hstep
      cases hstep
      exact ⟨blocks, takers, hrep.pushNext hpc⟩
  | pushCas block oldHead rest =>
      rw [hpc] at hstep
      simp only [stepPush] at hstep
      split at hstep
      · rename_i hwon
        cases hstep
        exact ⟨_, takers, hrep.pushCas hpc hwon.1⟩
      · cases hstep
        exact hordered.goto hpc rfl rfl trivial
  | pushCount rest =>
      rw [hpc] at hstep
      cases hstep
      have hgoto : Ordered (s.goto t (.pushLoop rest)) := hordered.goto hpc rfl rfl trivial
      exact hgoto.counters _ _ _
  | _ =>
      rw [hpc] at hstep
      cases hstep

omit [DecidableEq Block] in
/-- A pop that starts its loop has no block. -/
theorem Ordered.popFrom {s : State Block Thread} {t : Thread} {pc : Pc Block} (h : Ordered s)
    (hpc : s.pc t = pc) (howns : pc.owns = none) (htakes : pc.takes = none) (head : Option Block)
    (wanted : ℕ) : Ordered (s.goto t (popFrom head wanted)) := by
  cases head with
  | none => exact h.goto hpc howns.symm htakes.symm trivial
  | some block => exact h.goto hpc howns.symm htakes.symm trivial

theorem Ordered.pop {s s' : State Block Thread} {t : Thread} {weak : Bool} (h : Ordered s)
    (hfits : Fits s (.next t weak)) (hstep : stepPop s t weak (s.pc t) = some s') : Ordered s' := by
  obtain ⟨blocks, takers, hrep⟩ := h
  have hordered : Ordered s := ⟨blocks, takers, hrep⟩
  cases hpc : s.pc t with
  | popLoop wanted =>
      rw [hpc] at hstep
      cases wanted <;> cases hstep <;>
        exact hordered.goto hpc rfl rfl trivial
  | popLoad wanted =>
      rw [hpc] at hstep
      cases hstep
      exact hordered.popFrom hpc rfl rfl s.head wanted
  | popNext block wanted =>
      rw [hpc] at hstep
      cases hstep
      exact hordered.goto hpc rfl rfl trivial
  | popCas block newHead wanted =>
      rw [hpc] at hstep
      simp only [stepPop] at hstep
      split at hstep
      · rename_i hwon
        cases hstep
        simp only [Fits, hpc] at hfits
        obtain ⟨rest, h'⟩ := hrep.popCas hpc hwon.1 (hfits hwon.1 hwon.2)
        exact ⟨rest, _, h'⟩
      · cases hstep
        exact hordered.popFrom hpc rfl rfl s.head wanted
  | popCount block wanted =>
      rw [hpc] at hstep
      cases hstep
      have hgoto : Ordered (s.goto t (.popClear block wanted)) := hordered.goto hpc rfl rfl trivial
      exact hgoto.counters _ _ _
  | popClear block wanted =>
      rw [hpc] at hstep
      cases hstep
      exact ⟨blocks, _, hrep.popClear hpc⟩
  | _ =>
      rw [hpc] at hstep
      cases hstep

omit [DecidableEq Block] in
theorem Ordered.enterCall {s s' : State Block Thread} {t : Thread} {pc' : Pc Block} (h : Ordered s)
    (hstep : enterCall s t pc' = some s') (howns : pc'.owns = none) (htakes : pc'.takes = none)
    (hknown : Known s pc') : Ordered s' := by
  unfold LockFreePool.enterCall at hstep
  split at hstep
  · rename_i hpc
    cases hstep
    exact h.goto hpc howns htakes hknown
  · cases hstep

/-- Every step that fits keeps the pool in order. -/
theorem Ordered.step {s s' : State Block Thread} {a : Action Block Thread} (h : Ordered s)
    (hallowed : Allowed s a) (hfits : Fits s a) (hstep : step s a = some s') : Ordered s' := by
  cases a with
  | push t block => exact h.enterCall hstep rfl rfl trivial
  | pushBatch t blocks => exact h.enterCall hstep rfl rfl trivial
  | pop t => exact h.enterCall hstep rfl rfl trivial
  | popBatch t maxCount => exact h.enterCall hstep rfl rfl trivial
  | write block next generation =>
      cases hstep
      obtain ⟨blocks, takers, h⟩ := h
      exact ⟨blocks, takers, (h.write hallowed next).counters _ _ _⟩
  | next t weak =>
      simp only [LockFreePool.step, Option.orElse_eq_orElse, Option.orElse_eq_or,
        Option.or_eq_some_iff] at hstep
      rcases hstep with hstep | ⟨-, hstep⟩
      · exact h.push hallowed hstep
      · exact h.pop hfits hstep

theorem FitReachable.ordered {s : State Block Thread} (h : FitReachable s) : Ordered s := by
  apply Interleaving.Reachable.invariant (I := Ordered) h
  · exact fun s hinit => Ordered.init hinit
  · exact fun s s' a hs hallowed hstep => hs.step hallowed.1 hallowed.2 hstep

omit [DecidableEq Block] in
/-- A block that a pop has unlinked is this thread's. -/
theorem Pc.owns_of_takes {pc : Pc Block} {block : Block} (h : pc.takes = some block) :
    pc.owns = some block := by
  cases pc with
  | popCount x wanted | popClear x wanted => exact h
  | _ => cases h

/-- In a run in which every pop that unlinks a block finds the `next` that it has read, the pool is sound:
what the client writes into its blocks, and how often it pushes them again, does not matter. -/
theorem sound_if_next_unchanged {s : State Block Thread} (hreach : FitReachable s) : Sound s := by
  obtain ⟨blocks, takers, h⟩ := hreach.ordered
  have hnodup := h.stack.nodup_taken h.balance fun _ _ => Pc.owns_of_takes
  exact ⟨fun block => h.balance.subperm.count_le block, fun block => h.balance.count_le_succ hnodup block,
    blocks, takers, h.stack.linked, h.balance⟩

/-- A check for runs. -/
def calm (s : State ℕ Bool) : Action ℕ Bool → Bool
  | .write block _ _ => s.held block
  | .next t _ =>
      match s.pc t with
      | .pushLoop (some block :: _) => s.held block
      | .popCas block newHead _ => decide (s.next block = newHead)
      | _ => true
  | _ => true

theorem fits_of_calm {s : State ℕ Bool} {a : Action ℕ Bool} (h : calm s a = true) :
    Allowed s a ∧ Fits s a := by
  cases a with
  | write block next generation => exact ⟨h, trivial⟩
  | push t block | pushBatch t blocks | pop t | popBatch t maxCount => exact ⟨trivial, trivial⟩
  | next t weak =>
      cases hpc : s.pc t with
      | pushLoop blocks =>
          match blocks with
          | [] | none :: blocks => simp only [Allowed, Fits, hpc, and_self]
          | some block :: blocks =>
              simp only [calm, hpc] at h
              simp only [Allowed, Fits, hpc, and_true]
              exact h
      | popCas block newHead wanted =>
          simp only [calm, hpc, decide_eq_true_eq] at h
          simp only [Allowed, Fits, hpc, true_and]
          exact fun _ _ => h
      | _ => simp only [Allowed, Fits, hpc, and_self]

/-- One thread pops a block of the other one, which it overwrites and pushes again. -/
theorem sound_after_reuse : ∃ s : State ℕ Bool, FitReachable s ∧ s.pushed = [1, 1, 2] ∧
    s.returned = [1] ∧ Sound s := by
  let s₀ : State ℕ Bool :=
    { head := none, generation := 1, count := 0, next := fun _ => none, blockGeneration := fun _ => 0,
      held := fun _ => true, pc := fun _ => .idle, pushed := [], returned := [] }
  let next (t : Bool) (k : ℕ) : List (Action ℕ Bool) := List.replicate k (.next t false)
  let actions : List (Action ℕ Bool) :=
    .pushBatch true [some 2, some 1] :: next true 13 ++ .pop true :: next true 1 ++
      .pop false :: next false 7 ++ .write 1 (some 5) 9 :: .push false 1 :: next false 7 ++ next true 1
  have hresult : (Interleaving.run (Interleaving.guarded step calm) actions s₀).map
      (fun s => (s.pushed, s.returned)) = some ([1, 1, 2], [1]) := by
    decide +kernel
  have hinit : FitReachable s₀ := .init ⟨rfl, rfl, rfl, fun _ => rfl, fun _ => rfl, rfl, rfl⟩
  obtain ⟨s, hreach, hs⟩ := hinit.exists_of_run_guarded (fun _ _ _ h => fits_of_calm h) hresult
  obtain ⟨hpushed, hreturned⟩ := Prod.mk.inj hs
  exact ⟨s, hreach, hpushed, hreturned, sound_if_next_unchanged hreach⟩

end LgxRuntime.LockFreePool
