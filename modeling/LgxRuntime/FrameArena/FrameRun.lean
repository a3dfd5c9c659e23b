import LgxRuntime.FrameArena.Frames

/-!
# Runs of the frame arenas

A run starts with `lgx_frame_arena_init` and goes on with any number of calls of `lgx_frame_reset` and
with requests of every size that a `size_t` can hold, those whose arithmetic wraps included.

Beside the arenas a run keeps what has happened: the arena of every frame, what each arena has served
since it was cleared, and what `lgx_frame_get_current_usage` said at the end of each frame.  The arena of
the current frame was cleared by the last reset, so that what it has served was served in this frame.
-/

namespace LgxRuntime.FrameArena

open Frames (Action)
open Function (update update_self update_of_ne)

/-- A range that an arena has served, of the requested size.  `chunk` counts the chunks that the arena
had retired before the one that the range is from. -/
structure ServedRange where
  chunk : ℕ
  ptr : ℕ
  size : ℕ
  deriving DecidableEq, Repr

/-- Note down what an arena has served; `a` is the arena afterwards. -/
def noteServed (result : FrameResult) (a : Arena) (size : ℕ) (served : List ServedRange) :
    List ServedRange :=
  match result with
  | .served ptr => ⟨a.retiredChunks.length, ptr, size⟩ :: served
  | .overflow _ => served

/-- The arena that `lgx_frame_reset` clears. -/
def FrameState.cleared (f : FrameState) : ℕ :=
  f.nextFrame % frameArenaCount

/-- The arenas with their history. -/
structure FrameRun where
  frames : FrameState
  resets : ℕ
  used : List ℕ
  served : ℕ → List ServedRange
  lastUsage : ℕ → ℕ

namespace FrameRun

/-- Nothing has happened yet. -/
def start (f : FrameState) : FrameRun :=
  { frames := f
    resets := 0
    used := [f.current]
    served := fun _ => []
    lastUsage := fun _ => 0 }

/-- The arena of the current frame. -/
def arena (r : FrameRun) : Arena :=
  r.frames.arenas r.frames.current

/-- A request. -/
def alloc (r : FrameRun) (size : ℕ) (mapping : Option ℕ) (nodeOk : Bool) : FrameRun :=
  let i := r.frames.current
  let result := lgxFrameAllocInternal r.frames mapping nodeOk size
  { r with
    frames := result.2
    served := update r.served i (noteServed result.1 (result.2.arenas i) size (r.served i)) }

/-- The next frame. -/
def reset (r : FrameRun) : FrameRun :=
  let f := lgxFrameReset r.frames
  { frames := f
    resets := r.resets + 1
    used := f.current :: r.used
    served := update r.served r.frames.cleared []
    lastUsage := update r.lastUsage r.frames.current (lgxFrameGetCurrentUsage r.frames) }

/-- One call. -/
def step (r : FrameRun) : Action → Option FrameRun
  | .alloc size mapping nodeOk => some (r.alloc size mapping nodeOk)
  | .reset => some r.reset

/-- A request of any size, and a fresh region if there is one. -/
def Allowed (r : FrameRun) : Action → Prop
  | .alloc size mapping _ => size < 2 ^ 64 ∧ MappingOk r.frames mapping
  | .reset => True

end FrameRun

/-- The states of the runs. -/
def FrameReachable : FrameRun → Prop :=
  Interleaving.Reachable
    (fun r => ∃ f size limit mappings, Frames.Initial ⟨f, 0, []⟩ size limit mappings ∧ r = .start f)
    FrameRun.step FrameRun.Allowed

/-! ## What a run keeps -/

theorem lgxFrameReset_cleared (f : FrameState) :
    (lgxFrameReset f).arenas f.cleared =
      (updateRollingAverage (f.arenas f.cleared)).reset f.nextFrame :=
  update_self ..

/-- The arena that is cleared is the one that `lgx_frame_alloc_internal` uses next. -/
theorem lgxFrameReset_current (f : FrameState) : (lgxFrameReset f).current = f.cleared := by
  have hnext : (lgxFrameReset f).frameIndex = f.nextFrame := by
    simp only [lgxFrameReset, FrameState.frameIndex, FrameState.nextFrame, wrap64]
    omega
  rw [FrameState.current, hnext, FrameState.cleared]

namespace FrameReachable

variable {r : FrameRun}

theorem alloc (h : FrameReachable r) {size : ℕ} {mapping : Option ℕ} {nodeOk : Bool}
    (hsize : size < 2 ^ 64) (hmapping : MappingOk r.frames mapping) :
    FrameReachable (r.alloc size mapping nodeOk) :=
  Interleaving.Reachable.step (.alloc size mapping nodeOk) h ⟨hsize, hmapping⟩ rfl

theorem reset (h : FrameReachable r) : FrameReachable r.reset :=
  Interleaving.Reachable.step .reset h trivial rfl

/-- The arenas stay apart, whatever is asked of them. -/
theorem rep (h : FrameReachable r) : FrameRep r.frames := by
  apply Interleaving.Reachable.invariant (I := fun r => FrameRep r.frames) h
  · rintro r ⟨f, size, limit, mappings, hinit, rfl⟩
    exact FrameRep.init hinit.frames hinit.pos hinit.apart
  · intro r r' a hrep hallowed hstep
    cases a with
    | alloc size mapping nodeOk =>
        obtain rfl := Option.some.inj hstep
        exact hrep.alloc hallowed.2
    | reset =>
        obtain rfl := Option.some.inj hstep
        exact hrep.reset

/-- What holds of a new arena with nothing served, and is kept by an allocation and by the reset that
clears the arena, holds of every arena. -/
theorem arenas (h : FrameReachable r) {P : Arena → List ServedRange → Prop}
    (hnew : ∀ base capacity maxCapacity, P (newArena base capacity maxCapacity) [])
    (halloc : ∀ {a : Arena} {served : List ServedRange} {mapping : Option ℕ} {size : ℕ}
      {result : FrameResult} {a' : Arena}, a.Ok → P a served → size < 2 ^ 64 →
      a.Allocated mapping (alignSize size) result a' → P a' (noteServed result a' size served))
    (hreset : ∀ {a : Arena} {served : List ServedRange} (frame : ℕ), P a served →
      P ((updateRollingAverage a).reset frame) [])
    {i : ℕ} (hi : i < frameArenaCount) : P (r.frames.arenas i) (r.served i) := by
  induction h generalizing i with
  | init hinit =>
      obtain ⟨f, size, limit, mappings, hinit, rfl⟩ := hinit
      obtain ⟨-, rfl⟩ := lgxFrameArenaInit_eq_some hinit.frames
      exact hnew ..
  | @step r _ a hreach hallowed hstep ih =>
      have hrep : FrameRep r.frames := rep hreach
      cases a with
      | alloc size mapping nodeOk =>
          obtain rfl := Option.some.inj hstep
          obtain ⟨result, a', hcases, heq⟩ := hrep.alloc_cases mapping nodeOk size
          simp only [FrameRun.alloc, heq]
          by_cases hcurrent : i = r.frames.current
          · subst hcurrent
            rw [update_self, update_self]
            exact halloc (hrep.ok _ hi) (ih hi) hallowed.1 hcases
          · rw [update_of_ne hcurrent, update_of_ne hcurrent]
            exact ih hi
      | reset =>
          obtain rfl := Option.some.inj hstep
          by_cases hcleared : i = r.frames.cleared
          · subst hcleared
            simp only [FrameRun.reset, lgxFrameReset_cleared, update_self]
            exact hreset _ (ih hi)
          · simp only [FrameRun.reset, lgxFrameReset_arenas_of_ne _ hcleared, update_of_ne hcleared]
            exact ih hi

/-- The frame counter is the number of resets, in a 64-bit word. -/
theorem currentFrame_eq (h : FrameReachable r) : r.frames.currentFrame = wrap64 r.resets := by
  apply Interleaving.Reachable.invariant (I := fun r => r.frames.currentFrame = wrap64 r.resets) h
  · rintro r ⟨f, size, limit, mappings, hinit, rfl⟩
    exact congrArg FrameState.currentFrame (lgxFrameArenaInit_eq_some hinit.frames).2
  · intro r r' a hcurrent hallowed hstep
    cases a with
    | alloc size mapping nodeOk =>
        obtain rfl := Option.some.inj hstep
        exact hcurrent
    | reset =>
        obtain rfl := Option.some.inj hstep
        simp only [FrameRun.reset, lgxFrameReset, hcurrent, wrap64]
        omega

theorem frameIndex_eq (h : FrameReachable r) : r.frames.frameIndex = r.resets % 2 ^ 32 := by
  rw [FrameState.frameIndex, h.currentFrame_eq, wrap64]
  omega

theorem arena_ok (h : FrameReachable r) : r.arena.Ok :=
  h.rep.ok _ r.frames.current_lt

end FrameReachable

/-! ## A first run -/

/-- Three arenas of 64 MB, 256 MB from each other. -/
def threeArenas : FrameState :=
  { arenas := fun i => newArena ((i + 1) * 0x10000000) frameArenaDefaultSize frameArenaMaxSize
    currentFrame := 0 }

theorem threeArenas_initial :
    Frames.Initial ⟨threeArenas, 0, []⟩ 0 0 fun i => some ((i + 1) * 0x10000000) := by
  have hsize : arenaSize 0 = frameArenaDefaultSize := by decide
  have hmax : maxSize 0 0 = frameArenaMaxSize := by decide
  refine ⟨?_, rfl, rfl, by decide, fun i hi j hj hij p q hp hq => ?_⟩
  · simp [lgxFrameArenaInit, threeArenas, hsize, hmax]
  · obtain rfl := Option.some.inj hp
    obtain rfl := Option.some.inj hq
    simp only [Separate, hsize, frameArenaDefaultSize]
    omega

theorem FrameReachable.start_threeArenas : FrameReachable (.start threeArenas) :=
  .init ⟨threeArenas, 0, 0, _, threeArenas_initial, rfl⟩

end LgxRuntime.FrameArena
