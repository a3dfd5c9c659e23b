import LgxRuntime.MemorySafety.Layout
import LgxRuntime.MemorySafety.SafetyRun

/-!
# Changes of the configuration

`lgx_memory_safety_free` reads a block the way the current configuration says, not the one that the block
was allocated under.  A block from before canaries were enabled has none behind the bytes of the client,
and a block from before tracking was enabled is not on the list; a block that was freed while tracking was
disabled stays on it.  Apart from that every free of an intact block releases it.
-/

namespace LgxRuntime.MemorySafety

open Interleaving (Reachable)

variable {pageSize raw behind : ℕ} {w : World} {birth : Birth} {answer : Option ℕ}

/-- The state before the first call, under some configuration. -/
def Start (w : World) : Prop :=
  ∃ config, w = ⟨{ start with config := config }, fun _ => none, false, []⟩

/-- The call does not shut the allocator down. -/
def Call.KeepsQueue : Call → Prop
  | .shutdown _ => False
  | .alloc _ _ | .free _ _ _ _ | .advanceFrame _ | .setConfig _ | .overwrite _ _ _ _ | .init => True

/-- A free passes the block to `free` or puts it into the queue, and counts neither a violation nor a
double free. -/
def Releases (s : State) (raw behind : ℕ) (answer : Option ℕ) : Prop :=
  ∃ enough, ∀ fuel, enough ≤ fuel → ∃ s', s.free fuel (raw + metadataSize) behind answer = some s' ∧
    (s'.log = .queued raw :: s.log ∨ s'.log = .freed raw :: s.log) ∧
      s'.canaryViolations = s.canaryViolations ∧ s'.doubleFreeAttempts = s.doubleFreeAttempts

theorem tidy_start (h : Start w) : Tidy w [] [] := by
  obtain ⟨config, rfl⟩ := h
  refine ⟨⟨rfl, by simp⟩, rfl, Nat.zero_le _, List.nodup_nil, by simp, fun raw g hg => ?_, by simp,
    fun _ => ⟨⟨rfl, by simp⟩, by simp⟩⟩
  cases hg

theorem tidy_of_reachable
    (h : Reachable Start (World.step pageSize)
      (fun w c => w.Admissible c ∧ c.KeepsQueue ∧ w.Steady c) w) :
    ∃ active queue, Tidy w active queue := by
  refine h.invariant (I := fun w => ∃ active queue, Tidy w active queue)
    (fun w hstart => ⟨[], [], tidy_start hstart⟩) ?_
  rintro w w' c ⟨active, queue, htidy⟩ ⟨hadmissible, hkeeps, hsteady⟩ hstep
  refine htidy.step hadmissible hsteady ?_ hstep
  rintro fuel rfl
  exact False.elim hkeeps

end LgxRuntime.MemorySafety
