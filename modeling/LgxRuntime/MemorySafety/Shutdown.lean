import LgxRuntime.MemorySafety.Layout
import LgxRuntime.MemorySafety.SafetyRun

/-!
# Shutting the allocator down

`lgx_memory_safety_shutdown` frees the nodes of the queue, but not the blocks that they hold, and the head
of the queue still points to them.  So the blocks in the queue are lost, and the next call that walks
the queue reads a node that has been freed.  A run in which the allocator is only shut down with an
empty queue does neither.
-/

namespace LgxRuntime.MemorySafety

open Interleaving (Reachable)

variable {pageSize : ℕ} {w w' : World} {c : Call} {queue : List Entry}

/-- The state before the first call, with delayed reclamation enabled. -/
def StartDelayed (w : World) : Prop :=
  ∃ config : Config, config.delayedReclamationEnabled = true ∧
    w = ⟨{ start with config := config }, fun _ => none, false, []⟩

/-- The calls of a client that does not change the configuration. -/
def Call.KeepsConfig : Call → Prop
  | .setConfig _ | .overwrite _ _ _ _ => False
  | .alloc _ _ | .free _ _ _ _ | .advanceFrame _ | .init | .shutdown _ => True

/-- The allocator is only shut down with an empty queue. -/
def World.Quiet (w : World) : Call → Prop
  | .shutdown _ => w.state.delayedQueue = none
  | .alloc _ _ | .free _ _ _ _ | .advanceFrame _ | .setConfig _ | .overwrite _ _ _ _ | .init => True

/-- A shutdown returns after every block that was passed to `lgx_memory_safety_free` has been passed to
`free`, each as often as it was. -/
def HandsOver (w : World) : Prop :=
  ∀ fuel s', w.state.shutdown fuel = some s' → w.passed.Perm (handed s'.log)

/-- No call reads a node of the queue, or a block, that is not allocated. -/
def ReadsAllocated (w : World) : Prop :=
  ∃ enough, ∀ fuel, enough ≤ fuel → (∃ s, w.state.advanceFrame fuel = some s) ∧
    (∃ s, w.state.shutdown fuel = some s) ∧
      ∀ raw behind answer, w.live raw ≠ none →
        ∃ s, w.state.free fuel (raw + metadataSize) behind answer = some s

/-- The lists are in order, every block has the configuration it was allocated under, and the blocks that
were passed to `lgx_memory_safety_free` are in the queue or were passed to `free`. -/
structure Accounted (w : World) (queue : List Entry) : Prop where
  tidy : ∃ active, Tidy w active queue
  fresh : w.stale = false
  born : ∀ raw birth, w.live raw = some birth → birth = ⟨w.state.config, true⟩
  passed : w.passed.Perm (gone w.state queue)

theorem accounted_start (h : StartDelayed w) : Accounted w [] := by
  obtain ⟨config, -, rfl⟩ := h
  refine ⟨⟨[], ⟨⟨rfl, by simp⟩, rfl, Nat.zero_le _, List.nodup_nil, by simp, fun raw g hg => ?_, by simp,
    fun _ => ⟨⟨rfl, by simp⟩, by simp⟩⟩⟩, rfl, by simp, List.Perm.refl _⟩
  cases hg

/-- Every block fits the configuration. -/
theorem Accounted.steady (h : Accounted w queue) (c : Call) : w.Steady c := by
  cases c with
  | free fuel raw behind answer =>
      intro birth hlive
      rw [h.born raw birth hlive]
      exact ⟨Or.inl, fun htracking => ⟨htracking, h.fresh⟩⟩
  | alloc | advanceFrame | setConfig | overwrite | init | shutdown => trivial

theorem Accounted.checkCanaries (h : Accounted w queue) {raw behind : ℕ} (hlive : w.live raw ≠ none)
    {b : Block} (hb : w.state.block raw = some b) :
    w.state.checkCanaries b behind = (true, w.state) := by
  obtain ⟨active, htidy⟩ := h.tidy
  obtain ⟨birth, hlive⟩ := Option.ne_none_iff_exists'.mp hlive
  obtain ⟨g, hg, hmint⟩ := htidy.live raw birth hlive
  obtain rfl := h.born raw birth hlive
  have hguards : b.guards = mint raw w.state.config := by
    rw [← hmint rfl]
    exact Option.some.inj ((congrArg (Option.map Block.guards) hb).symm.trans hg)
  exact checkCanaries_of_mint hguards Or.inl

theorem Accounted.empty_iff (h : Accounted w queue) : w.state.delayedQueue = none ↔ queue = [] := by
  obtain ⟨active, htidy⟩ := h.tidy
  rw [htidy.delayed.linked.head_eq]
  simp

theorem Accounted.shutdown (h : Accounted w queue) {fuel : ℕ} (hfuel : queue.length < fuel) :
    w.state.shutdown fuel =
      some { w.state with
        node := fun n => if n ∈ queue.map Entry.node then none else w.state.node n } := by
  obtain ⟨active, htidy⟩ := h.tidy
  refine State.shutdownLoop_eq htidy.delayed.linked (fun e he => ?_) hfuel
  simp [htidy.delayed.allocated e he]

theorem Accounted.readsAllocated (h : Accounted w queue) : ReadsAllocated w := by
  obtain ⟨active, htidy⟩ := h.tidy
  refine ⟨active.length + queue.length + 1, fun fuel hfuel => ⟨?_, ?_, fun raw behind answer hlive => ?_⟩⟩
  · have henough : queue.length < fuel := by omega
    obtain ⟨s, _, hcall, -⟩ := htidy.advanceFrame henough
    exact ⟨s, hcall⟩
  · exact ⟨_, h.shutdown (by omega)⟩
  · obtain ⟨birth, hbirth⟩ := Option.ne_none_iff_exists'.mp hlive
    obtain ⟨g, hg, -⟩ := htidy.live raw birth hbirth
    obtain ⟨b, hb, -⟩ := Option.map_eq_some_iff.mp hg
    have hcheck : w.state.checkCanaries b behind = (true, w.state) := h.checkCanaries hlive hb
    have htracking : w.state.config.trackingEnabled = true →
        birth.config.trackingEnabled = true ∧ w.stale = false := by
      rw [h.born raw birth hbirth]
      exact fun hon => ⟨hon, h.fresh⟩
    obtain ⟨s₂, -, -, hfree⟩ := htidy.exists_free_eq answer hbirth htracking hb hcheck
    exact ⟨_, hfree fuel (by omega)⟩

/-- At a shutdown, what is in the queue is what has not been passed to `free`. -/
theorem Accounted.handsOver_iff (h : Accounted w queue) :
    HandsOver w ↔ w.state.delayedQueue = none := by
  rw [h.empty_iff]
  constructor
  · intro hhands
    have hperm := hhands _ _ (h.shutdown (Nat.lt_succ_self _))
    have hlength := (h.passed.symm.trans hperm).length_eq
    simp only [gone, List.length_append, List.length_map] at hlength
    exact List.length_eq_zero_iff.mp (by omega)
  · rintro rfl fuel s' hshutdown
    have hpos : ([] : List Entry).length < fuel + 1 := Nat.succ_pos fuel
    have hsame := h.shutdown hpos
    have hs' := Option.some.inj (hsame.symm.trans (State.shutdownLoop_mono hshutdown (Nat.le_succ fuel)))
    rw [← hs']
    simpa [gone] using h.passed

theorem accounted_step (h : Accounted w queue) (hadmissible : w.Admissible c) (hkeeps : c.KeepsConfig)
    (hquiet : w.Quiet c) (hstep : w.step pageSize c = some w') : ∃ queue', Accounted w' queue' := by
  obtain ⟨active, htidy⟩ := h.tidy
  cases c with
  | alloc size answer =>
      obtain ⟨active', htidy', hlog, hconfig⟩ := htidy.alloc hadmissible hstep
      obtain ⟨result, hcall, rfl⟩ := Option.map_eq_some_iff.mp hstep
      refine ⟨queue, ⟨active', htidy'⟩, h.fresh, fun raw birth hlive => ?_, ?_⟩
      · rw [hconfig]
        cases hptr : result.1 with
        | none =>
            rw [hptr] at hlive
            exact h.born raw birth hlive
        | some ptr =>
            rw [hptr] at hlive
            by_cases hraw : raw = ptr - metadataSize
            · simp only [Option.elim_some, hraw, Function.update_self] at hlive
              exact (Option.some.inj hlive).symm
            · simp only [Option.elim_some, Function.update_of_ne hraw] at hlive
              exact h.born raw birth hlive
      · rw [gone, hlog]
        exact h.passed
  | free fuel raw behind answer =>
      obtain ⟨active', queue', htidy', hconfig, hperm⟩ :=
        htidy.free hadmissible (h.steady _) hstep
      obtain ⟨s', hcall, rfl⟩ := Option.map_eq_some_iff.mp hstep
      have hreleased := hperm fun b hb => h.checkCanaries hadmissible.1 hb
      obtain ⟨birth, hbirth⟩ := Option.ne_none_iff_exists'.mp hadmissible.1
      refine ⟨queue', ⟨active', htidy'⟩, ?_, fun a birth hlive => ?_, ?_⟩
      · have hloses : w.losesTrack raw = false := by
          rw [World.losesTrack, hbirth, h.born raw birth hbirth]
          simp
        exact Bool.or_eq_false_iff.mpr ⟨h.fresh, hloses⟩
      · rw [hconfig]
        by_cases ha : a = raw
        · simp [ha] at hlive
        · simp only [Function.update_of_ne ha] at hlive
          exact h.born a birth hlive
      · exact (h.passed.cons raw).trans hreleased.symm
  | advanceFrame fuel =>
      obtain ⟨s', hcall, rfl⟩ := Option.map_eq_some_iff.mp hstep
      have henough : queue.length < fuel + queue.length + 1 := by omega
      obtain ⟨s₂, queue', hcall', htidy', hperm, hconfig⟩ := htidy.advanceFrame henough
      obtain rfl := Option.some.inj (hcall'.symm.trans (State.advanceFrame_mono hcall (by omega)))
      refine ⟨queue', ⟨active, htidy'⟩, h.fresh, fun raw birth hlive => ?_, h.passed.trans hperm.symm⟩
      rw [hconfig]
      exact h.born raw birth hlive
  | setConfig config => exact False.elim hkeeps
  | overwrite raw canaryPrefix canarySuffix trailing => exact False.elim hkeeps
  | init =>
      obtain rfl := Option.some.inj hstep
      exact ⟨queue, h⟩
  | shutdown fuel =>
      obtain ⟨s', hcall, rfl⟩ := Option.map_eq_some_iff.mp hstep
      obtain rfl := h.empty_iff.mp hquiet
      have hpos : ([] : List Entry).length < fuel + 1 := Nat.succ_pos fuel
      have hsame := h.shutdown hpos
      obtain rfl : w.state = s' := by
        simpa using hsame.symm.trans (State.shutdownLoop_mono hcall (Nat.le_succ fuel))
      exact ⟨[], h⟩

end LgxRuntime.MemorySafety
