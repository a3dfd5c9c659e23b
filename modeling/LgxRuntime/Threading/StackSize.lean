import LgxRuntime.Lib.Headcount
import LgxRuntime.Threading.LockFreeStack
import Mathlib.Data.Fintype.Card

/-!
# The size of the lock-free stack

Both operations adjust `count` after their compare-and-swap: a push adds 1 in a later step, and a pop
subtracts 1 in a later step.  A pop may take the element of a push that has not counted it yet and
count first; the unsigned counter then wraps around and reports `2 ^ 64 - 1` elements.

The counter is compared with the additions and subtractions that were made (`Counts`).  These lag
behind what was pushed and returned by the threads that have not counted yet, so that the difference
is right whenever nobody is in the middle of an operation.
-/

namespace LgxRuntime.Threading.LockFreeStack

open Function (update)
open Interleaving (headcount headcount_stay headcount_enter headcount_leave headcount_eq_zero)

/-- `lgx_lfstack_size`. -/
def lgxLfstackSize {Node Element Thread : Type} (s : State Node Element Thread) : ℕ :=
  s.count

variable {Node Element Thread : Type} [DecidableEq Node] [DecidableEq Thread]

/-! ## What a step counts -/

/-- A push that has set `top` and has not counted its element. -/
def Pc.adds : Pc Node Element → Bool
  | .pushTag | .pushCount => true
  | _ => false

/-- A pop that has returned an element and has not counted it. -/
def Pc.removes : Pc Node Element → Bool
  | .popTag _ | .popCount _ => true
  | _ => false

/-- A thread in the middle of an operation. -/
def Pc.busy : Pc Node Element → Bool
  | .idle | .returns _ => false
  | _ => true

/-- A pop that is about to count finds a counter that is not 0. -/
def CountsAbove (s : State Node Element Thread) : Action Node Element Thread → Prop
  | .next t _ =>
      match s.pc t with
      | .popCount _ => s.count ≠ 0
      | _ => True
  | _ => True

/-- What a step does to the counter, to what was pushed and returned, and to the threads that have
not counted. -/
inductive Effect (s : State Node Element Thread) (a : Action Node Element Thread)
    (s' : State Node Element Thread) : Prop
  | move (t : Thread) (pc' : Pc Node Element) (hpc : s'.pc = update s.pc t pc')
      (hadds : pc'.adds = (s.pc t).adds) (hremoves : pc'.removes = (s.pc t).removes)
      (hcount : s'.count = s.count) (hpushed : s'.pushed = s.pushed)
      (hreturned : s'.returned = s.returned)
  | push (t : Thread) (element : Element) (hpc : s'.pc = update s.pc t .pushTag)
      (hadds : (s.pc t).adds = false) (hremoves : (s.pc t).removes = false)
      (hcount : s'.count = s.count) (hpushed : s'.pushed = element :: s.pushed)
      (hreturned : s'.returned = s.returned)
  | add (t : Thread) (hold : s.pc t = .pushCount) (hpc : s'.pc = update s.pc t (.returns .success))
      (hcount : s'.count = wrap64 (s.count + 1)) (hpushed : s'.pushed = s.pushed)
      (hreturned : s'.returned = s.returned)
  | pop (t : Thread) (oldTop : Node) (element : Element) (hold : s.pc t = .popCopy oldTop)
      (hpc : s'.pc = update s.pc t (.popTag oldTop)) (hcount : s'.count = s.count)
      (hpushed : s'.pushed = s.pushed) (hreturned : s'.returned = element :: s.returned)
  | remove (t : Thread) (weak : Bool) (oldTop : Node) (hact : a = .next t weak)
      (hold : s.pc t = .popCount oldTop) (hpc : s'.pc = update s.pc t (.popFree oldTop))
      (hcount : s'.count = sub64 s.count 1) (hpushed : s'.pushed = s.pushed)
      (hreturned : s'.returned = s.returned)

variable {s s' : State Node Element Thread} {a : Action Node Element Thread} {t : Thread}
  {weak : Bool}

theorem Effect.ofPush (hstep : stepPush s t weak (s.pc t) = some s') : Effect s a s' := by
  cases hpc : s.pc t with
  | pushCopy node element | pushLoad node element | pushNext node oldTop element =>
      rw [hpc] at hstep
      cases hstep
      exact .move t _ rfl (by rw [hpc]; rfl) (by rw [hpc]; rfl) rfl rfl rfl
  | pushCas node oldTop element =>
      rw [hpc] at hstep
      simp only [stepPush] at hstep
      split at hstep <;> cases hstep
      · exact .push t element rfl (by rw [hpc]; rfl) (by rw [hpc]; rfl) rfl rfl rfl
      · exact .move t _ rfl (by rw [hpc]; rfl) (by rw [hpc]; rfl) rfl rfl rfl
  | pushTag =>
      rw [hpc] at hstep
      cases hstep
      exact .move t _ rfl (by rw [hpc]; rfl) (by rw [hpc]; rfl) rfl rfl rfl
  | pushCount =>
      rw [hpc] at hstep
      cases hstep
      exact .add t hpc rfl rfl rfl rfl
  | _ =>
      rw [hpc] at hstep
      cases hstep

theorem Effect.ofPop (hact : a = .next t weak) (hstep : stepPop s t weak (s.pc t) = some s') :
    Effect s a s' := by
  cases hpc : s.pc t with
  | popLoad =>
      rw [hpc] at hstep
      simp only [stepPop] at hstep
      split at hstep <;> cases hstep
      · exact .move t _ rfl (by rw [hpc]; rfl) (by rw [hpc]; rfl) rfl rfl rfl
      · exact .move t _ rfl (by rw [hpc]; rfl) (by rw [hpc]; rfl) rfl rfl rfl
  | popCas oldTop newTop =>
      rw [hpc] at hstep
      simp only [stepPop] at hstep
      split at hstep <;> cases hstep
      · exact .move t _ rfl (by rw [hpc]; rfl) (by rw [hpc]; rfl) rfl rfl rfl
      · exact .move t _ rfl (by rw [hpc]; rfl) (by rw [hpc]; rfl) rfl rfl rfl
  | popNext oldTop | popTag oldTop | popFree oldTop =>
      rw [hpc] at hstep
      cases hstep
      exact .move t _ rfl (by rw [hpc]; rfl) (by rw [hpc]; rfl) rfl rfl rfl
  | popCopy oldTop =>
      rw [hpc] at hstep
      cases hstep
      exact .pop t oldTop _ hpc rfl rfl rfl rfl
  | popCount oldTop =>
      rw [hpc] at hstep
      cases hstep
      exact .remove t weak oldTop hact hpc rfl rfl rfl rfl
  | _ =>
      rw [hpc] at hstep
      cases hstep

theorem Effect.ofStep (hstep : step s a = some s') : Effect s a s' := by
  cases a with
  | push t element | pop t =>
      simp only [step] at hstep
      split at hstep <;> cases hstep
      rename_i hpc
      exact .move t _ rfl (by rw [hpc]; rfl) (by rw [hpc]; rfl) rfl rfl rfl
  | malloc t node =>
      simp only [step] at hstep
      split at hstep <;> cases hstep
      · rename_i hpc
        exact .move t _ rfl (by rw [hpc]; rfl) (by rw [hpc]; rfl) rfl rfl rfl
      · rename_i hpc
        exact .move t _ rfl (by rw [hpc]; rfl) (by rw [hpc]; rfl) rfl rfl rfl
  | next t weak =>
      simp only [step] at hstep
      split at hstep
      · rename_i hpc
        cases hstep
        exact .move t _ rfl (by rw [hpc]; rfl) (by rw [hpc]; rfl) rfl rfl rfl
      · simp only [Option.orElse_eq_orElse, Option.orElse_eq_or, Option.or_eq_some_iff] at hstep
        rcases hstep with hstep | ⟨-, hstep⟩
        · exact .ofPush hstep
        · exact .ofPop rfl hstep

/-! ## The counter -/

/-- The counter after `added` additions and `removed` subtractions, and what was pushed and returned
without being counted. -/
structure Counts (s : State Node Element Thread) (added removed : ℕ) : Prop where
  pushed_eq : (s.pushed.length : ℕ∞) = added + headcount Pc.adds s.pc
  returned_eq : (s.returned.length : ℕ∞) = removed + headcount Pc.removes s.pc
  count_lt : s.count < 2 ^ 64
  count_mod : (s.count + removed) % 2 ^ 64 = added % 2 ^ 64

omit [DecidableEq Node] [DecidableEq Thread] in
theorem Counts.init (h : Initial s) : Counts s 0 0 := by
  have hadds : headcount Pc.adds s.pc = 0 := by
    refine headcount_eq_zero.mpr fun t => ?_
    rw [h.pc t]
    rfl
  have hremoves : headcount Pc.removes s.pc = 0 := by
    refine headcount_eq_zero.mpr fun t => ?_
    rw [h.pc t]
    rfl
  refine ⟨?_, ?_, ?_, ?_⟩
  · simp [h.pushed, hadds]
  · simp [h.returned, hremoves]
  · simp [h.count]
  · simp [h.count]

omit [DecidableEq Node] in
/-- Every step keeps the counter up to date; it stays below the number of additions unless a pop
counts down from 0. -/
theorem Counts.step {added removed : ℕ} (h : Counts s added removed) (heffect : Effect s a s') :
    ∃ added' removed', Counts s' added' removed' ∧
      (CountsAbove s a → s.count ≤ added → s'.count ≤ added') := by
  obtain ⟨hpushed_eq, hreturned_eq, hlt, hmod⟩ := h
  cases heffect with
  | move t pc' hpc hadds hremoves hcount hpushed hreturned =>
      refine ⟨added, removed, ⟨?_, ?_, by rwa [hcount], by rwa [hcount]⟩, fun _ hle => by rwa [hcount]⟩
      · rw [hpushed, hpc, headcount_stay hadds, hpushed_eq]
      · rw [hreturned, hpc, headcount_stay hremoves, hreturned_eq]
  | push t element hpc hadds hremoves hcount hpushed hreturned =>
      refine ⟨added, removed, ⟨?_, ?_, by rwa [hcount], by rwa [hcount]⟩, fun _ hle => by rwa [hcount]⟩
      · rw [hpushed, hpc, headcount_enter hadds rfl, List.length_cons, Nat.cast_add, hpushed_eq,
          Nat.cast_one, add_assoc]
      · rw [hreturned, hpc, headcount_stay hremoves.symm, hreturned_eq]
  | add t hold hpc hcount hpushed hreturned =>
      have hleave : headcount Pc.adds (update s.pc t (.returns .success)) + 1 =
          headcount Pc.adds s.pc := headcount_leave (by rw [hold]; rfl) rfl
      have hstay : headcount Pc.removes (update s.pc t (.returns .success)) =
          headcount Pc.removes s.pc := headcount_stay (by rw [hold]; rfl)
      refine ⟨added + 1, removed, ⟨?_, ?_, ?_, ?_⟩, fun _ hle => ?_⟩
      · rw [hpushed, hpc, hpushed_eq, ← hleave, Nat.cast_add, Nat.cast_one, add_assoc, add_comm 1]
      · rw [hreturned, hpc, hstay, hreturned_eq]
      · rw [hcount]
        exact Nat.mod_lt _ (by omega)
      · rw [hcount, wrap64]
        omega
      · have hmod_le : wrap64 (s.count + 1) ≤ s.count + 1 := Nat.mod_le _ _
        omega
  | pop t oldTop element hold hpc hcount hpushed hreturned =>
      have hstay : headcount Pc.adds (update s.pc t (.popTag oldTop)) = headcount Pc.adds s.pc :=
        headcount_stay (by rw [hold]; rfl)
      have henter : headcount Pc.removes (update s.pc t (.popTag oldTop)) =
          headcount Pc.removes s.pc + 1 := headcount_enter (by rw [hold]; rfl) rfl
      refine ⟨added, removed, ⟨?_, ?_, by rwa [hcount], by rwa [hcount]⟩, fun _ hle => by rwa [hcount]⟩
      · rw [hpushed, hpc, hstay, hpushed_eq]
      · rw [hreturned, hpc, henter, List.length_cons, Nat.cast_add, hreturned_eq, Nat.cast_one,
          add_assoc]
  | remove t weak oldTop hact hold hpc hcount hpushed hreturned =>
      have hstay : headcount Pc.adds (update s.pc t (.popFree oldTop)) = headcount Pc.adds s.pc :=
        headcount_stay (by rw [hold]; rfl)
      have hleave : headcount Pc.removes (update s.pc t (.popFree oldTop)) + 1 =
          headcount Pc.removes s.pc := headcount_leave (by rw [hold]; rfl) rfl
      refine ⟨added, removed + 1, ⟨?_, ?_, ?_, ?_⟩, fun habove hle => ?_⟩
      · rw [hpushed, hpc, hstay, hpushed_eq]
      · rw [hreturned, hpc, hreturned_eq, ← hleave, Nat.cast_add, Nat.cast_one, add_assoc,
          add_comm 1]
      · rw [hcount]
        exact Nat.mod_lt _ (by omega)
      · rw [hcount, sub64, wrap64, wrap64]
        omega
      · subst hact
        simp only [CountsAbove, hold] at habove
        rw [hcount, sub64_of_le hlt (by omega)]
        omega

/-- The counter never exceeds the number of additions in a run whose pops count down from above
0. -/
theorem exists_counts {allowed : State Node Element Thread → Action Node Element Thread → Prop}
    (h : Interleaving.Reachable Initial step allowed s) :
    ∃ added removed, Counts s added removed ∧
      ((∀ s a, allowed s a → CountsAbove s a) → s.count ≤ added) := by
  apply Interleaving.Reachable.invariant (I := fun s => ∃ added removed, Counts s added removed ∧
    ((∀ s a, allowed s a → CountsAbove s a) → s.count ≤ added)) h
  · intro s hinit
    exact ⟨0, 0, Counts.init hinit, fun _ => hinit.count.le⟩
  · rintro s s' a ⟨added, removed, hcounts, hle⟩ hallowed hstep
    obtain ⟨added', removed', hcounts', hle'⟩ := hcounts.step (.ofStep hstep)
    exact ⟨added', removed', hcounts', fun habove => hle' (habove s a hallowed) (hle habove)⟩

omit [DecidableEq Node] [DecidableEq Thread] in
theorem Counts.added_le {added removed : ℕ} (h : Counts s added removed) :
    added ≤ s.pushed.length := by
  have hle : (added : ℕ∞) ≤ s.pushed.length := h.pushed_eq ▸ le_self_add
  exact_mod_cast hle

omit [DecidableEq Node] [DecidableEq Thread] in
/-- Nothing is uncounted as long as nobody is in the middle of an operation. -/
theorem Counts.quiet {added removed : ℕ} (h : Counts s added removed)
    (hquiet : ∀ t, (s.pc t).busy = false) :
    s.pushed.length = added ∧ s.returned.length = removed := by
  have hadds : headcount Pc.adds s.pc = 0 := by
    refine headcount_eq_zero.mpr fun t => ?_
    have := hquiet t
    cases hpc : s.pc t <;> rw [hpc] at this <;> first | rfl | cases this
  have hremoves : headcount Pc.removes s.pc = 0 := by
    refine headcount_eq_zero.mpr fun t => ?_
    have := hquiet t
    cases hpc : s.pc t <;> rw [hpc] at this <;> first | rfl | cases this
  have hpushed := h.pushed_eq
  have hreturned := h.returned_eq
  rw [hadds, add_zero] at hpushed
  rw [hremoves, add_zero] at hreturned
  exact ⟨by exact_mod_cast hpushed, by exact_mod_cast hreturned⟩

/-! ## The elements on the stack -/

omit [DecidableEq Node] [DecidableEq Thread] in
/-- The elements that were pushed and not returned are on the stack as long as nobody is in the middle
of an operation. -/
theorem Rep.quiet {nodes : List Node} {takers : List Thread} (h : Rep s nodes takers)
    (hquiet : ∀ t, (s.pc t).busy = false) :
    s.pushed.length = s.returned.length + nodes.length := by
  have htakers : takers = [] := by
    refine List.eq_nil_iff_forall_not_mem.mpr fun t ht => ?_
    have hsome := (h.balance.mem_iff t).mp ht
    have hbusy := hquiet t
    cases hpc : s.pc t with
    | popCopy oldTop =>
        rw [hpc] at hbusy
        cases hbusy
    | _ =>
        rw [hpc] at hsome
        cases hsome
  have hperm := h.balance.perm.length_eq
  rw [htakers] at hperm
  simpa using hperm

/-- There are fewer nodes than addresses, one of which is `NULL`. -/
theorem length_lt_of_addresses {Node : Type} {n : ℕ} [NeZero n] {addr : Node → Fin n}
    (haddr : Function.Injective addr) (hnull : ∀ node, addr node ≠ 0) {nodes : List Node}
    (hnodup : nodes.Nodup) : nodes.length < n := by
  have hall : (0 :: nodes.map addr).Nodup := by
    refine List.nodup_cons.mpr ⟨fun hmem => ?_, hnodup.map haddr⟩
    obtain ⟨node, -, hnode⟩ := List.mem_map.mp hmem
    exact hnull node hnode
  have hcard := hall.length_le_card
  rw [Fintype.card_fin, List.length_cons, List.length_map] at hcard
  exact hcard

/-- A pop that counts down from 0 makes the counter exceed what was pushed. -/
theorem count_gt_of_popCount {oldTop : Node} (hpc : s.pc t = .popCount oldTop) (hzero : s.count = 0)
    (hpushed : s.pushed.length < 2 ^ 64 - 1) :
    ∃ s', step s (.next t weak) = some s' ∧ s'.pushed.length < s'.count := by
  have hstep : step s (.next t weak) =
      some { s.goto t (.popFree oldTop) with count := sub64 s.count 1 } := by
    simp only [step, hpc, stepPush, stepPop, Option.orElse_eq_orElse, Option.orElse_eq_or,
      Option.none_or]
  have hwrap : sub64 s.count 1 = 2 ^ 64 - 1 := by
    rw [hzero]
    simp [sub64, wrap64]
  exact ⟨_, hstep, hpushed.trans_eq hwrap.symm⟩

/-- The nodes are at different addresses of 64 bits, and none at `NULL`.  In a run in which a pop that
counts finds a counter that is not 0, the size is at most what was pushed.  In a run in which no node
is freed while another pop is about to read it, and in which every pop that unlinks a node finds the
`next` that it has read, the size is the number of nodes linked from `top` whenever nobody is in the
middle of an operation.  A pop that counts down from 0 makes the size exceed what was pushed. -/
theorem size_of_reachable (addr : Node → Fin (2 ^ 64)) (haddr : Function.Injective addr)
    (hnull : ∀ node, addr node ≠ 0) :
    (∀ s : State Node Element Thread,
      Interleaving.Reachable Initial step (fun s a => Allowed s a ∧ CountsAbove s a) s →
        lgxLfstackSize s ≤ s.pushed.length) ∧
    (∀ s : State Node Element Thread, FitReachable s → (∀ t, (s.pc t).busy = false) →
      ∃ nodes, Linked s.next s.top nodes ∧ lgxLfstackSize s = nodes.length) ∧
    ∀ (s : State Node Element Thread) (t : Thread) (weak : Bool) (oldTop : Node),
      s.pc t = .popCount oldTop → s.count = 0 → s.pushed.length < 2 ^ 64 - 1 →
        ∃ s', step s (.next t weak) = some s' ∧ s'.pushed.length < lgxLfstackSize s' := by
  refine ⟨fun s hreach => ?_, fun s hreach hquiet => ?_, fun s t weak oldTop hpc hzero hpushed => ?_⟩
  · obtain ⟨added, removed, hcounts, hle⟩ := exists_counts hreach
    calc lgxLfstackSize s ≤ added := hle fun s a hallowed => hallowed.2
      _ ≤ s.pushed.length := hcounts.added_le
  · obtain ⟨added, removed, hcounts, -⟩ := exists_counts hreach
    obtain ⟨nodes, takers, hrep⟩ := hreach.ordered
    have hlinked := hrep.stack.linked
    have hlength : nodes.length < 2 ^ 64 := length_lt_of_addresses haddr hnull hlinked.nodup
    obtain ⟨rfl, rfl⟩ := hcounts.quiet hquiet
    have hbalance := hrep.quiet hquiet
    have hlt := hcounts.count_lt
    have hmod := hcounts.count_mod
    refine ⟨nodes, hlinked, ?_⟩
    rw [lgxLfstackSize]
    omega
  · exact count_gt_of_popCount hpc hzero hpushed

/-! ## Two runs of two threads -/

section

variable (s : State Node Element Bool) [DecidableEq Element]

deriving instance DecidableEq for Pc

instance : (a : Action Node Element Bool) → Decidable (Fits s a)
  | .push _ _ | .pop _ | .malloc _ _ => inferInstanceAs (Decidable True)
  | .next t weak =>
      show Decidable (match s.pc t with
        | .popCas oldTop newTop => s.top = some oldTop → weak = false → s.next oldTop = newTop
        | .popFree oldTop => ∀ u, s.pc u ≠ .popNext oldTop
        | _ => True) from
      match s.pc t with
      | .popCas oldTop newTop =>
          inferInstanceAs (Decidable (s.top = some oldTop → weak = false → s.next oldTop = newTop))
      | .popFree oldTop => inferInstanceAs (Decidable (∀ u, s.pc u ≠ .popNext oldTop))
      | .idle | .returns _ | .pushAlloc _ | .pushCopy _ _ | .pushLoad _ _ | .pushNext _ _ _
      | .pushCas _ _ _ | .pushTag | .pushCount | .popLoad | .popNext _ | .popCopy _ | .popTag _
      | .popCount _ => inferInstanceAs (Decidable True)

instance : (a : Action Node Element Bool) → Decidable (CountsAbove s a)
  | .push _ _ | .pop _ | .malloc _ _ => inferInstanceAs (Decidable True)
  | .next t _ =>
      show Decidable (match s.pc t with
        | .popCount _ => s.count ≠ 0
        | _ => True) from
      match s.pc t with
      | .popCount _ => inferInstanceAs (Decidable (s.count ≠ 0))
      | .idle | .returns _ | .pushAlloc _ | .pushCopy _ _ | .pushLoad _ _ | .pushNext _ _ _
      | .pushCas _ _ _ | .pushTag | .pushCount | .popLoad | .popNext _ | .popCas _ _ | .popCopy _
      | .popTag _ | .popFree _ => inferInstanceAs (Decidable True)

end

/-- The first thread pushes two elements and the second one pops one of them in the meantime. -/
theorem size_of_reachable_pop : ∃ s : State (Fin 3) ℕ Bool, s.pushed = [8, 7] ∧
    lgxLfstackSize s ≤ s.pushed.length ∧
      ∃ nodes, Linked s.next s.top nodes ∧ lgxLfstackSize s = nodes.length := by
  let s₀ : State (Fin 3) ℕ Bool :=
    { top := none, tag := 0, count := 0, next := fun _ => none, data := fun _ => 0,
      live := fun _ => false, pc := fun _ => .idle, pushed := [], returned := [] }
  let actions : List (Action (Fin 3) ℕ Bool) :=
    List.flatten [[.push true 7, .malloc true (some 1)], List.replicate 7 (.next true false),
      [.push true 8, .malloc true (some 2), .next true false, .pop false],
      List.replicate 8 (.next false false), List.replicate 6 (.next true false)]
  have hresult : (Interleaving.run (Interleaving.guarded step fun s a =>
      decide (Allowed s a ∧ Fits s a ∧ CountsAbove s a)) actions s₀).map
      (fun s => (s.pushed, s.pc true, s.pc false)) = some ([8, 7], .idle, .idle) := by
    decide +kernel
  obtain ⟨s, hrun, hs⟩ := Option.map_eq_some_iff.mp hresult
  obtain ⟨hpushed, htrue, hfalse⟩ : s.pushed = [8, 7] ∧ s.pc true = .idle ∧ s.pc false = .idle := by
    simpa only [Prod.mk.injEq] using hs
  have hinit : Initial s₀ := ⟨rfl, rfl, rfl, fun _ => rfl, fun _ => rfl, rfl, rfl⟩
  have hcounts : Interleaving.Reachable Initial step (fun s a => Allowed s a ∧ CountsAbove s a) s :=
    Interleaving.Reachable.run_guarded (.init hinit)
      (fun _ _ _ h => ⟨(of_decide_eq_true h).1, (of_decide_eq_true h).2.2⟩) hrun
  have hfits : FitReachable s := Interleaving.Reachable.run_guarded (.init hinit)
    (fun _ _ _ h => ⟨(of_decide_eq_true h).1, (of_decide_eq_true h).2.1⟩) hrun
  have hquiet : ∀ t, (s.pc t).busy = false := by
    intro t
    cases t
    · rw [hfalse]
      rfl
    · rw [htrue]
      rfl
  have hle : 3 + 1 ≤ 2 ^ 64 := by omega
  obtain ⟨hsize, helements, -⟩ := @size_of_reachable (Fin 3) ℕ Bool _ _
    (fun node => Fin.castLE hle node.succ)
    ((Fin.castLE_injective hle).comp (Fin.succ_injective 3))
    (fun node hnode => Fin.succ_ne_zero node (Fin.castLE_injective hle hnode))
  exact ⟨s, hpushed, hsize s hcounts, helements s hfits hquiet⟩

/-- A pop takes the element of a push that has not counted it yet, and counts first. -/
theorem not_size_le_of_overtaken : ¬ ∀ s : State ℕ ℕ Bool, FitReachable s →
    lgxLfstackSize s ≤ s.pushed.length := by
  intro h
  let s₀ : State ℕ ℕ Bool :=
    { top := none, tag := 0, count := 0, next := fun _ => none, data := fun _ => 0,
      live := fun _ => false, pc := fun _ => .idle, pushed := [], returned := [] }
  let actions : List (Action ℕ ℕ Bool) :=
    List.flatten [[.push true 7, .malloc true (some 1)], List.replicate 4 (.next true false),
      [.pop false], List.replicate 6 (.next false false)]
  have hresult : (Interleaving.run (Interleaving.guarded step fun s a =>
      decide (Allowed s a ∧ Fits s a)) actions s₀).map (fun s => (s.count, s.pushed.length)) =
      some (2 ^ 64 - 1, 1) := by
    decide +kernel
  have hinit : FitReachable s₀ := .init ⟨rfl, rfl, rfl, fun _ => rfl, fun _ => rfl, rfl, rfl⟩
  obtain ⟨s, hreach, hs⟩ :=
    hinit.exists_of_run_guarded (fun _ _ _ h => of_decide_eq_true h) hresult
  obtain ⟨hcount, hpushed⟩ := Prod.mk.inj hs
  have hle := h s hreach
  rw [lgxLfstackSize, hcount, hpushed] at hle
  omega

end LgxRuntime.Threading.LockFreeStack
