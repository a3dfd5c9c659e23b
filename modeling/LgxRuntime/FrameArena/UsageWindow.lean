import LgxRuntime.FrameArena.FrameUsage
import LgxRuntime.Lib.RollingWindow
import Mathlib.Algebra.Order.BigOperators.Group.Finset
import Mathlib.Algebra.Order.BigOperators.Group.List

/-!
# The usage window

`update_rolling_average` notes down what the frame of an arena has used, right before `lgx_frame_reset`
clears the arena.  The last 60 usages stand in `usage_history`, and `usage_sum` is not added up anew: it
loses the entry that is overwritten and gets the new one, in unsigned words.

`Windowed` is what the history and the sum are to the usages of all frames.  A usage is bounded, since an
arena stays below 256 MB and its capacity grows with every chunk that it retires, so that 60 of them fit
into a word.
-/

namespace LgxRuntime.FrameArena

open Frames (Action)
open Function (update update_self update_of_ne)

/-- The bytes that the frame of an arena has used so far. -/
def Arena.usedBytes (a : Arena) : ℕ :=
  a.retiredBytes + a.offset

/-- A bound on the usage of a frame. -/
def maxUsedBytes : ℕ :=
  frameArenaMaxSize * frameArenaMaxSize + frameArenaMaxSize

/-! ## Runs with the usages of all frames -/

/-- A run, with what each arena had used whenever it was cleared, the last time first. -/
structure WindowRun where
  run : FrameRun
  recorded : ℕ → List ℕ

namespace WindowRun

/-- Nothing has been cleared yet. -/
def start (f : FrameState) : WindowRun :=
  { run := .start f
    recorded := fun _ => [] }

/-- A reset clears one arena. -/
def record (r : WindowRun) : Action → ℕ → List ℕ
  | .alloc .. => r.recorded
  | .reset =>
      let i := r.run.frames.cleared
      update r.recorded i ((r.run.frames.arenas i).usedBytes :: r.recorded i)

/-- One call. -/
def step (r : WindowRun) (a : Action) : Option WindowRun :=
  (r.run.step a).map fun run => { run := run, recorded := r.record a }

end WindowRun

/-- The states of the runs. -/
def WindowReachable : WindowRun → Prop :=
  Interleaving.Reachable
    (fun r => ∃ f size limit mappings, Frames.Initial ⟨f, 0, []⟩ size limit mappings ∧ r = .start f)
    WindowRun.step (fun r => FrameRun.Allowed r.run)

/-! ## One arena -/

/-- The history holds the last usages, and the sum is theirs. -/
structure Windowed (a : Arena) (recorded : List ℕ) : Prop where
  holds : RollingWindow.Holds rollingAverageWindow 0 a.usageHistory a.historyIndex recorded
  sum_eq : a.usageSum = ∑ i ∈ Finset.range rollingAverageWindow, a.usageHistory i
  recorded_le : ∀ usage ∈ recorded, usage ≤ maxUsedBytes

variable {a a' : Arena} {recorded : List ℕ}

theorem Counted.usedBytes_le {served : List ServedRange} (hok : a.Ok) (h : Counted a served) :
    a.usedBytes ≤ maxUsedBytes := by
  have hcapacity : a.capacity ≤ frameArenaMaxSize := hok.capacity_le.trans hok.max_le
  calc a.retiredBytes + a.offset
      ≤ a.capacity * frameArenaMaxSize + a.capacity := Nat.add_le_add h.retired_le hok.offset_le
    _ ≤ frameArenaMaxSize * frameArenaMaxSize + frameArenaMaxSize :=
        Nat.add_le_add (Nat.mul_le_mul_right _ hcapacity) hcapacity

namespace Windowed

theorem newArena (base capacity maxCapacity : ℕ) : Windowed (newArena base capacity maxCapacity) [] := by
  refine ⟨.nil (by decide), ?_, ?_⟩
  · exact (Finset.sum_eq_zero fun _ _ => rfl).symm
  · intro usage hmem
    cases hmem

/-- The sum is what is left of all usages after 60 of them. -/
theorem sum_take (h : Windowed a recorded) :
    a.usageSum = (recorded.take rollingAverageWindow).sum :=
  h.sum_eq.trans h.holds.sum_eq

theorem sum_le (h : Windowed a recorded) : a.usageSum ≤ rollingAverageWindow * maxUsedBytes := by
  have hle : ∀ usage ∈ recorded.take rollingAverageWindow, usage ≤ maxUsedBytes := by
    intro usage hmem
    exact h.recorded_le usage (List.mem_of_mem_take hmem)
  calc a.usageSum = (recorded.take rollingAverageWindow).sum := h.sum_take
    _ ≤ (recorded.take rollingAverageWindow).length * maxUsedBytes := List.sum_le_card_nsmul _ _ hle
    _ ≤ rollingAverageWindow * maxUsedBytes := Nat.mul_le_mul_right _ (List.length_take_le ..)

/-- The entry that leaves is part of the sum. -/
theorem leaving_le (h : Windowed a recorded) : a.usageHistory a.historyIndex ≤ a.usageSum := by
  rw [h.sum_eq]
  apply Finset.single_le_sum (fun i _ => Nat.zero_le _)
  exact Finset.mem_range.mpr h.holds.next_lt

theorem next_lt (h : Windowed a recorded) (hle : a.usedBytes ≤ maxUsedBytes) :
    a.usageSum - a.usageHistory a.historyIndex + a.usedBytes < 2 ^ 64 := by
  have hsum := h.sum_le
  have hbound : rollingAverageWindow * maxUsedBytes + maxUsedBytes < 2 ^ 64 := by decide
  omega

/-- The arithmetic of `update_rolling_average` does not wrap. -/
theorem usageSum_eq (h : Windowed a recorded) (hle : a.usedBytes ≤ maxUsedBytes) :
    (updateRollingAverage a).usageSum =
      a.usageSum - a.usageHistory a.historyIndex + a.usedBytes := by
  have hsum : a.usageSum < 2 ^ 64 := h.sum_le.trans_lt (by decide)
  simp only [updateRollingAverage, sub64_of_le hsum h.leaving_le]
  exact wrap64_of_lt (h.next_lt hle)

/-- The history goes on if its fields do not change. -/
theorem congr (h : Windowed a recorded) (hhistory : a'.usageHistory = a.usageHistory)
    (hindex : a'.historyIndex = a.historyIndex) (hsum : a'.usageSum = a.usageSum) :
    Windowed a' recorded := by
  refine ⟨?_, ?_, h.recorded_le⟩
  · rw [hhistory, hindex]
    exact h.holds
  · rw [hsum, hhistory]
    exact h.sum_eq

/-- `update_rolling_average`, before the arena is cleared. -/
theorem reset (h : Windowed a recorded) (hle : a.usedBytes ≤ maxUsedBytes) (frame : ℕ) :
    Windowed ((updateRollingAverage a).reset frame) (a.usedBytes :: recorded) := by
  refine ⟨h.holds.push _, ?_, List.forall_mem_cons.mpr ⟨hle, h.recorded_le⟩⟩
  have hpush := RollingWindow.sum_push a.usageHistory a.usedBytes h.holds.next_lt
  have hleaving := h.leaving_le
  have hsum := h.sum_eq
  have hnew := h.usageSum_eq hle
  calc (updateRollingAverage a).usageSum
      = a.usageSum - a.usageHistory a.historyIndex + a.usedBytes := hnew
    _ = ∑ i ∈ Finset.range rollingAverageWindow,
          update a.usageHistory a.historyIndex a.usedBytes i := by omega

/-- `lgx_frame_alloc_internal` does not look at the history. -/
theorem alloc (h : Windowed a recorded) {mapping : Option ℕ} {size : ℕ} {result : FrameResult}
    (halloc : a.Allocated mapping size result a') : Windowed a' recorded := by
  cases halloc with
  | bump => exact h.congr rfl rfl rfl
  | grown => exact h.congr rfl rfl rfl
  | full => exact h.congr rfl rfl rfl
  | grownFull => exact h.congr rfl rfl rfl

end Windowed

/-! ## Every run -/

namespace WindowReachable

variable {r : WindowRun} {i : ℕ}

theorem alloc (h : WindowReachable r) {size : ℕ} {mapping : Option ℕ} {nodeOk : Bool}
    (hsize : size < 2 ^ 64) (hmapping : MappingOk r.run.frames mapping) :
    WindowReachable ⟨r.run.alloc size mapping nodeOk, r.recorded⟩ :=
  Interleaving.Reachable.step (.alloc size mapping nodeOk) h ⟨hsize, hmapping⟩ rfl

theorem reset (h : WindowReachable r) : WindowReachable ⟨r.run.reset, r.record .reset⟩ :=
  Interleaving.Reachable.step .reset h trivial rfl

theorem frameReachable (h : WindowReachable r) : FrameReachable r.run := by
  induction h with
  | init hinit =>
      obtain ⟨f, size, limit, mappings, hinit, rfl⟩ := hinit
      exact .init ⟨f, size, limit, mappings, hinit, rfl⟩
  | step a hreach hallowed hstep ih =>
      obtain ⟨run, hrun, rfl⟩ := Option.map_eq_some_iff.mp hstep
      exact ih.step a hallowed hrun

theorem usedBytes_le (h : WindowReachable r) (hi : i < frameArenaCount) :
    (r.run.frames.arenas i).usedBytes ≤ maxUsedBytes :=
  (h.frameReachable.counted hi).2.usedBytes_le (h.frameReachable.rep.ok i hi)

theorem windowed (h : WindowReachable r) (hi : i < frameArenaCount) :
    Windowed (r.run.frames.arenas i) (r.recorded i) := by
  induction h with
  | init hinit =>
      obtain ⟨f, size, limit, mappings, hinit, rfl⟩ := hinit
      obtain ⟨-, rfl⟩ := lgxFrameArenaInit_eq_some hinit.frames
      exact .newArena ..
  | @step r _ a hreach hallowed hstep ih =>
      obtain ⟨run, hrun, rfl⟩ := Option.map_eq_some_iff.mp hstep
      cases a with
      | alloc size mapping nodeOk =>
          obtain rfl := Option.some.inj hrun
          obtain ⟨result, a', hcases, heq⟩ :=
            (frameReachable hreach).rep.alloc_cases mapping nodeOk size
          simp only [FrameRun.alloc, heq, WindowRun.record]
          by_cases hcurrent : i = r.run.frames.current
          · subst hcurrent
            rw [update_self]
            exact ih.alloc hcases
          · rw [update_of_ne hcurrent]
            exact ih
      | reset =>
          obtain rfl := Option.some.inj hrun
          by_cases hcleared : i = r.run.frames.cleared
          · subst hcleared
            simp only [FrameRun.reset, WindowRun.record, lgxFrameReset_cleared, update_self]
            exact ih.reset (usedBytes_le hreach hi) _
          · simp only [FrameRun.reset, WindowRun.record, lgxFrameReset_arenas_of_ne _ hcleared,
              update_of_ne hcleared]
            exact ih

end WindowReachable

/-- What `update_rolling_average` finds in an arena: the last 60 usages, 0 where there were fewer, and
their sum, which neither wraps when it loses the oldest of them nor when it gets the new one. -/
structure RollsOver (a : Arena) (recorded : List ℕ) : Prop where
  index_lt : a.historyIndex < rollingAverageWindow
  entry : ∀ age < rollingAverageWindow,
    a.usageHistory (RollingWindow.slot rollingAverageWindow a.historyIndex age) = recorded.getD age 0
  sum_entries : a.usageSum = ∑ i ∈ Finset.range rollingAverageWindow, a.usageHistory i
  sum_recorded : a.usageSum = (recorded.take rollingAverageWindow).sum
  leaving_le : a.usageHistory a.historyIndex ≤ a.usageSum
  next_lt : a.usageSum - a.usageHistory a.historyIndex + a.usedBytes < 2 ^ 64

/-- The sum is that of the last 60 usages of an arena, after any number of resets. -/
theorem usageSum_rollsOver {r : WindowRun} (h : WindowReachable r) {i : ℕ} (hi : i < frameArenaCount) :
    RollsOver (r.run.frames.arenas i) (r.recorded i) := by
  have hwindow := h.windowed hi
  exact ⟨hwindow.holds.next_lt, hwindow.holds.entry, hwindow.sum_eq, hwindow.sum_take,
    hwindow.leaving_le, hwindow.next_lt (h.usedBytes_le hi)⟩

/-- 100 bytes in the first frame, whose arena is cleared three resets later. -/
theorem usageSum_after_three_resets : ∃ r, WindowReachable r ∧ r.recorded 0 = [112] ∧
    (r.run.frames.arenas 0).usageSum = 112 ∧ RollsOver (r.run.frames.arenas 0) (r.recorded 0) := by
  have hstart : WindowReachable (.start threeArenas) := .init ⟨_, 0, 0, _, threeArenas_initial, rfl⟩
  have halloc := @WindowReachable.alloc _ hstart 100 none true (by decide) (.none _)
  have hthird := halloc.reset.reset.reset
  exact ⟨_, hthird, by decide, by decide, usageSum_rollsOver hthird (by decide)⟩

end LgxRuntime.FrameArena
