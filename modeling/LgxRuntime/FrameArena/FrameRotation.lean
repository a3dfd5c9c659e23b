import LgxRuntime.FrameArena.FrameRun

/-!
# The rotation of the arenas

Frame `n` uses the arena `n % 3`, so that a reset clears the arena of three frames ago.  Both functions
that take the remainder take it of a `uint32_t`, and `2 ^ 32` leaves the remainder 1: the frame with
number `2 ^ 32` uses the arena of frame 0 where that of frame 1 would be next, which is the arena of the
frame before it.

`used_eq` says which arenas the frames of a run have used, past any number of resets.
-/

namespace LgxRuntime.FrameArena

/-- The arena of the frame after `n` resets. -/
def arenaAfter (n : ℕ) : ℕ :=
  n % 2 ^ 32 % frameArenaCount

/-- The arenas of the frames up to `n` resets, the last one first. -/
def arenasUpTo : ℕ → List ℕ
  | 0 => [arenaAfter 0]
  | n + 1 => arenaAfter (n + 1) :: arenasUpTo n

/-- The arena that a reset clears is none of the two preceding frames, and is used next. -/
def Rotates (r : FrameRun) : Prop :=
  (∀ i ∈ r.used.take 2, r.frames.cleared ≠ i) ∧ (lgxFrameReset r.frames).current = r.frames.cleared

variable {r : FrameRun}

/-! ## The arenas of a run -/

namespace FrameReachable

theorem current_eq (h : FrameReachable r) : r.frames.current = arenaAfter r.resets := by
  rw [FrameState.current, h.frameIndex_eq, arenaAfter]

theorem cleared_eq (h : FrameReachable r) : r.frames.cleared = arenaAfter (r.resets + 1) := by
  rw [FrameState.cleared, FrameState.nextFrame, h.frameIndex_eq, arenaAfter, Nat.mod_add_mod]

/-- The frames have used the arenas in turn, up to the wraps of the counter. -/
theorem used_eq (h : FrameReachable r) : r.used = arenasUpTo r.resets := by
  induction h with
  | init hinit =>
      have hcurrent := current_eq (.init hinit)
      obtain ⟨f, size, limit, mappings, hinit, rfl⟩ := hinit
      exact congrArg (fun i => [i]) hcurrent
  | @step r _ a hreach hallowed hstep ih =>
      cases a with
      | alloc size mapping nodeOk =>
          obtain rfl := Option.some.inj hstep
          exact ih
      | reset =>
          obtain rfl := Option.some.inj hstep
          calc (lgxFrameReset r.frames).current :: r.used
              = r.frames.cleared :: r.used := by rw [lgxFrameReset_current]
            _ = arenasUpTo (r.resets + 1) := by rw [cleared_eq hreach, ih, arenasUpTo]

/-- Any number of resets can be reached. -/
theorem exists_resets (n : ℕ) : ∃ r, FrameReachable r ∧ r.resets = n := by
  induction n with
  | zero => exact ⟨_, start_threeArenas, rfl⟩
  | succ n ih =>
      obtain ⟨r, hreach, hresets⟩ := ih
      exact ⟨_, hreach.reset, congrArg (· + 1) hresets⟩

end FrameReachable

/-! ## Two frames before -/

theorem succ_mod_cases (n : ℕ) :
    2 ^ 32 ∣ n + 1 ∧ n % 2 ^ 32 = 2 ^ 32 - 1 ∧ (n + 1) % 2 ^ 32 = 0 ∨
      ¬ 2 ^ 32 ∣ n + 1 ∧ (n + 1) % 2 ^ 32 = n % 2 ^ 32 + 1 := by
  omega

/-- The next arena differs from the current one unless the counter wraps. -/
theorem arenaAfter_succ_ne_iff (n : ℕ) : arenaAfter (n + 1) ≠ arenaAfter n ↔ ¬ 2 ^ 32 ∣ n + 1 := by
  unfold arenaAfter frameArenaCount
  rcases succ_mod_cases n with ⟨hwrap, hlast, hzero⟩ | ⟨hwrap, hnext⟩
  · rw [hlast, hzero]
    exact iff_of_false (by decide) (not_not_intro hwrap)
  · rw [hnext]
    exact iff_of_true (by omega) hwrap

/-- Without a wrap at its end, a wrap before the current frame does no harm: frame `2 ^ 32 + 1` uses
arena 1, and the two frames before it arena 0. -/
theorem arenaAfter_add_two_ne {n : ℕ} (hwrap : ¬ 2 ^ 32 ∣ n + 2) :
    arenaAfter (n + 2) ≠ arenaAfter n := by
  have hnext : (n + 2) % 2 ^ 32 = (n + 1) % 2 ^ 32 + 1 :=
    ((succ_mod_cases (n + 1)).resolve_left fun hcase => hwrap hcase.1).2
  unfold arenaAfter frameArenaCount
  rcases succ_mod_cases n with ⟨-, hlast, hzero⟩ | ⟨-, hcurrent⟩
  · rw [hnext, hzero, hlast]
    decide
  · rw [hnext, hcurrent]
    omega

/-- A reset takes an arena that the two preceding frames have not used, except when the counter
wraps. -/
theorem rotates_iff (h : FrameReachable r) : Rotates r ↔ ¬ 2 ^ 32 ∣ r.resets + 1 := by
  have hnext := arenaAfter_succ_ne_iff r.resets
  rw [Rotates, and_iff_left (lgxFrameReset_current _), h.used_eq, h.cleared_eq]
  constructor
  · intro hne
    refine hnext.mp (hne _ ?_)
    cases r.resets with
    | zero => exact List.mem_singleton_self _
    | succ n => exact List.mem_cons_self ..
  · intro hwrap
    have hcurrent := hnext.mpr hwrap
    cases hresets : r.resets with
    | zero =>
        rw [hresets] at hcurrent
        simpa [arenasUpTo] using hcurrent
    | succ n =>
        rw [hresets] at hwrap hcurrent
        have hbefore := arenaAfter_add_two_ne hwrap
        cases n with
        | zero => simpa [arenasUpTo] using ⟨hcurrent, hbefore⟩
        | succ n => simpa [arenasUpTo] using ⟨hcurrent, hbefore⟩

/-- The first reset. -/
theorem rotates_first : Rotates (.start threeArenas) :=
  (rotates_iff .start_threeArenas).mpr (by decide)

/-- The reset number `2 ^ 32` clears the arena of the frame that ends. -/
theorem not_rotates_at_wrap : ∃ r, FrameReachable r ∧ r.resets = 2 ^ 32 - 1 ∧
    r.frames.cleared = r.frames.current ∧ r.used.head? = some r.frames.cleared ∧ ¬ Rotates r := by
  obtain ⟨r, hreach, hresets⟩ := FrameReachable.exists_resets (2 ^ 32 - 1)
  have hsame : r.frames.cleared = r.frames.current := by
    rw [hreach.cleared_eq, hreach.current_eq, hresets]
    decide
  have hhead : r.used.head? = some r.frames.cleared := by
    rw [hsame, hreach.current_eq, hreach.used_eq]
    cases r.resets with
    | zero => rfl
    | succ n => rfl
  refine ⟨r, hreach, hresets, hsame, hhead, fun hrotates => ?_⟩
  cases hused : r.used with
  | nil => simp [hused] at hhead
  | cons i used =>
      have hi := hrotates.1 i (by simp [hused])
      rw [hused] at hhead
      exact hi (Option.some.inj hhead).symm

end LgxRuntime.FrameArena
