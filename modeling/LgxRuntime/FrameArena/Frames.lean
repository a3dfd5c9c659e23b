import LgxRuntime.FrameArena.ArenaInvariant
import LgxRuntime.Lib.Interleaving

/-!
# Three frames

`lgx_frame_reset` starts the next frame and clears its arena, which is the one of three frames ago.  What
was served in a frame stays in its arena through the next two resets: they clear the other two arenas.

A run is recorded with the number of resets, which is the current frame as long as it is below `2 ^ 32`,
and with everything that was served.
-/

namespace LgxRuntime.FrameArena.Frames

/-- A range that the arena of a frame has served, of the rounded size. -/
structure Served where
  frame : ℕ
  ptr : ℕ
  size : ℕ
  deriving DecidableEq

/-- The arenas in a run. -/
structure State where
  frames : FrameState
  resets : ℕ
  served : List Served

/-- A call, with the answers of the system. -/
inductive Action
  | alloc (size : ℕ) (mapping : Option ℕ) (nodeOk : Bool)
  | reset

/-- Note down what was served; an overflow is the business of the heap. -/
def record (result : FrameResult) (frame size : ℕ) (served : List Served) : List Served :=
  match result with
  | .served ptr => ⟨frame, ptr, size⟩ :: served
  | .overflow _ => served

/-- One call. -/
def step (s : State) : Action → Option State
  | .alloc size mapping nodeOk =>
      let result := lgxFrameAllocInternal s.frames mapping nodeOk size
      some
        { frames := result.2
          resets := s.resets
          served := record result.1 s.resets (alignSize size) s.served }
  | .reset => some { s with frames := lgxFrameReset s.frames, resets := s.resets + 1 }

/-- The arenas lie apart after `lgx_frame_arena_init`. -/
structure Initial (s : State) (configuredArenaSize configuredMaxSize : ℕ) (mappings : ℕ → Option ℕ) :
    Prop where
  frames : lgxFrameArenaInit configuredArenaSize configuredMaxSize mappings = some s.frames
  resets : s.resets = 0
  served : s.served = []
  pos : ∀ i < frameArenaCount, mappings i ≠ some 0
  apart : ∀ i < frameArenaCount, ∀ j < frameArenaCount, i ≠ j → ∀ p q, mappings i = some p →
    mappings j = some q → Separate p (arenaSize configuredArenaSize) q (arenaSize configuredArenaSize)

/-- A request for at least one byte that does not wrap, and a fresh region if there is any. -/
def Allowed (s : State) : Action → Prop
  | .alloc size mapping _ => 1 ≤ size ∧ NoWrap s.frames size ∧ MappingOk s.frames mapping
  | .reset => True

/-- The states of the runs of `lgx_frame_alloc_internal` and `lgx_frame_reset`. -/
def Reachable : State → Prop :=
  Interleaving.Reachable (fun s => ∃ size limit mappings, Initial s size limit mappings) step Allowed

/-! ## What is kept -/

/-- Two ranges were served in frames that share their time. -/
def Near (e d : Served) : Prop :=
  e.frame ≤ d.frame + 2 ∧ d.frame ≤ e.frame + 2

/-- The arena of its frame holds a range until the third reset. -/
structure Rep (f : FrameState) (resets : ℕ) (served : List Served) : Prop where
  frames : FrameRep f
  current : f.currentFrame = resets
  frame_le : ∀ e ∈ served, e.frame ≤ resets
  size_pos : ∀ e ∈ served, 0 < e.size
  holds : ∀ e ∈ served, resets < e.frame + 3 →
    (f.arenas (e.frame % frameArenaCount)).Holds e.ptr e.size
  apart : served.Pairwise fun e d => Near e d → Separate e.ptr e.size d.ptr d.size

namespace Rep

variable {f f' : FrameState} {resets : ℕ} {served : List Served}

theorem current_eq (h : Rep f resets served) (hbound : resets < 2 ^ 32) :
    f.current = resets % frameArenaCount := by
  rw [FrameState.current, FrameState.frameIndex, h.current, Nat.mod_eq_of_lt hbound]

theorem nextFrame_eq (h : Rep f resets served) (hbound : resets + 1 < 2 ^ 32) :
    f.nextFrame = resets + 1 := by
  rw [FrameState.nextFrame, FrameState.frameIndex, h.current]
  omega

/-- The arenas change within a frame, and keep what they hold. -/
theorem mono (h : Rep f resets served) (hframes : FrameRep f')
    (hcurrent : f'.currentFrame = f.currentFrame)
    (hkeep : ∀ i p n, (f.arenas i).Holds p n → (f'.arenas i).Holds p n) : Rep f' resets served :=
  ⟨hframes, hcurrent.trans h.current, h.frame_le, h.size_pos,
    fun e he hlive => hkeep _ _ _ (h.holds e he hlive), h.apart⟩

/-- A range is served, apart from all that the arenas held. -/
theorem cons (h : Rep f resets served) {e : Served} (hframe : e.frame = resets) (hsize : 0 < e.size)
    (hholds : (f.arenas (resets % frameArenaCount)).Holds e.ptr e.size)
    (hapart : ∀ d ∈ served, resets < d.frame + 3 → Separate e.ptr e.size d.ptr d.size) :
    Rep f resets (e :: served) := by
  refine ⟨h.frames, h.current, ?_, ?_, ?_, ?_⟩
  · exact List.forall_mem_cons.mpr ⟨hframe.le, h.frame_le⟩
  · exact List.forall_mem_cons.mpr ⟨hsize, h.size_pos⟩
  · refine List.forall_mem_cons.mpr ⟨fun _ => ?_, h.holds⟩
    rwa [hframe]
  · refine List.pairwise_cons.mpr ⟨fun d hd hnear => hapart d hd ?_, h.apart⟩
    -- a range of one of the last two frames is still held
    rw [← hframe]
    exact Nat.lt_succ_of_le hnear.1

/-- `lgx_frame_alloc_internal`. -/
theorem alloc (h : Rep f resets served) (hbound : resets < 2 ^ 32) {size : ℕ} {mapping : Option ℕ}
    {nodeOk : Bool} (hsize : 1 ≤ size) (hwrap : NoWrap f size) (hmapping : MappingOk f mapping) :
    let result := lgxFrameAllocInternal f mapping nodeOk size
    Rep result.2 resets (record result.1 resets (alignSize size) served) := by
  intro result
  have hkept : Rep result.2 resets served :=
    h.mono (h.frames.alloc hmapping) rfl fun i p n => h.frames.alloc_holds hwrap
  cases hresult : result.1 with
  | overflow passed => exact hkept
  | served ptr =>
      obtain ⟨hholds, hapart⟩ := h.frames.served hmapping hwrap hresult
      rw [h.current_eq hbound] at hholds
      refine hkept.cons rfl (hsize.trans (le_alignSize hwrap.1)) hholds fun d hd hlive => ?_
      exact hapart _ (Nat.mod_lt _ (by decide)) _ _ (h.holds d hd hlive)

/-- `lgx_frame_reset`.  The arena that is cleared belongs to none of the last three frames. -/
theorem reset (h : Rep f resets served) (hbound : resets + 1 < 2 ^ 32) :
    Rep (lgxFrameReset f) (resets + 1) served := by
  refine ⟨h.frames.reset, ?_, ?_, h.size_pos, ?_, h.apart⟩
  · simp only [lgxFrameReset, h.current]
    exact wrap64_of_lt (by omega)
  · exact fun e he => (h.frame_le e he).trans (Nat.le_succ _)
  · intro e he hlive
    have hle := h.frame_le e he
    have hne : e.frame % frameArenaCount ≠ f.nextFrame % frameArenaCount := by
      rw [h.nextFrame_eq hbound, frameArenaCount]
      omega
    rw [lgxFrameReset_arenas_of_ne f hne]
    exact h.holds e he (by omega)

end Rep

/-- Fewer than `2 ^ 32` resets keep the frames in order. -/
theorem Reachable.rep {s : State} (h : Reachable s) :
    s.resets < 2 ^ 32 → Rep s.frames s.resets s.served := by
  apply Interleaving.Reachable.invariant
    (I := fun s => s.resets < 2 ^ 32 → Rep s.frames s.resets s.served) h
  · intro s hinit _
    obtain ⟨size, limit, mappings, hinit⟩ := hinit
    have hcurrent : s.frames.currentFrame = 0 :=
      congrArg FrameState.currentFrame (lgxFrameArenaInit_eq_some hinit.frames).2
    refine ⟨FrameRep.init hinit.frames hinit.pos hinit.apart, ?_, ?_, ?_, ?_, ?_⟩
    · rw [hcurrent, hinit.resets]
    · simp [hinit.served]
    · simp [hinit.served]
    · simp [hinit.served]
    · simp [hinit.served]
  · intro s s' a hs hallowed hstep hbound
    cases a with
    | alloc size mapping nodeOk =>
        obtain rfl := Option.some.inj hstep
        exact (hs hbound).alloc hbound hallowed.1 hallowed.2.1 hallowed.2.2
    | reset =>
        obtain rfl := Option.some.inj hstep
        exact (hs (Nat.lt_of_succ_lt hbound)).reset hbound

/-- A range that was served in a frame lies in a chunk of its arena, apart from what else was served in
this frame and the two frames before and after it, and is known as a frame pointer, until the third
reset. -/
theorem kept_until_third_reset {s : State} (hreach : Reachable s) (hbound : s.resets < 2 ^ 32) {i : ℕ}
    {e : Served} (he : s.served[i]? = some e) (hlive : s.resets < e.frame + 3) :
    (∃ c ∈ (s.frames.arenas (e.frame % frameArenaCount)).chunks,
        c.base ≤ e.ptr ∧ e.ptr + e.size ≤ c.base + c.capacity) ∧
      (∀ j d, j ≠ i → s.served[j]? = some d → Near e d → Separate e.ptr e.size d.ptr d.size) ∧
      lgxFrameIsFramePointer s.frames e.ptr = true := by
  have h := hreach.rep hbound
  have hmem : e ∈ s.served := List.mem_of_getElem? he
  have hlt : e.frame % frameArenaCount < frameArenaCount := Nat.mod_lt _ (by decide)
  have hok := h.frames.ok _ hlt
  obtain ⟨c, hc, hlow, hhigh⟩ := hok.chunk_of_holds (h.holds e hmem hlive)
  refine ⟨⟨c, hc, hlow, hhigh⟩, fun j d hji hd hnear => ?_, ?_⟩
  · obtain ⟨hi, rfl⟩ := List.getElem?_eq_some_iff.mp he
    obtain ⟨hj, rfl⟩ := List.getElem?_eq_some_iff.mp hd
    have hpairs := List.pairwise_iff_getElem.mp h.apart
    rcases Nat.lt_or_gt_of_ne hji with hlt | hgt
    · exact (hpairs j i hj hi hlt ⟨hnear.2, hnear.1⟩).symm
    · exact hpairs i j hi hj hgt hnear
  · have hbase := (hok.chunk_bounds hc).1
    have hsize := h.size_pos e hmem
    exact (h.frames.isFramePointer_iff (by omega)).mpr ⟨_, hlt, c, hc, hlow, by omega⟩

/-- 100 bytes of frame 0 after two resets, with the same request in each of the frames. -/
theorem kept_after_two_resets : ∃ s : State, Reachable s ∧ s.resets = 2 ∧ s.served.length = 3 ∧
    s.served[2]? = some ⟨0, 0x10000000, 112⟩ ∧ lgxFrameIsFramePointer s.frames 0x10000000 = true := by
  let mappings : ℕ → Option ℕ := fun i => some ((i + 1) * 0x10000000)
  let s₀ : State := ⟨(lgxFrameArenaInit 0 0 mappings).getD ⟨fun _ => newArena 0 0 0, 0⟩, 0, []⟩
  have hsize : arenaSize 0 = 0x4000000 := by decide
  have hinit : Reachable s₀ := by
    refine .init ⟨0, 0, mappings, rfl, rfl, rfl, by decide, fun i hi j hj hij p q hp hq => ?_⟩
    obtain rfl := Option.some.inj hp
    obtain rfl := Option.some.inj hq
    simp only [Separate, hsize]
    omega
  -- the arenas never need a new chunk, so that the system is not asked for one
  have hallowed : ∀ {s : State}, Reachable s → s.resets < 2 ^ 32 → Allowed s (.alloc 100 none true) := by
    intro s hs hbound
    have hok := (hs.rep hbound).frames.ok _ s.frames.current_lt
    have hoffset := hok.offset_le.trans (hok.capacity_le.trans hok.max_le)
    have halign : alignSize 100 = 112 := by decide
    refine ⟨by decide, ⟨by decide, ?_⟩, .none _⟩
    rw [halign]
    exact lt_of_le_of_lt (Nat.add_le_add_right hoffset _) (by decide)
  have h₁ := hinit.step (.alloc 100 none true) (hallowed hinit (by decide)) rfl
  have h₂ := h₁.step Action.reset trivial rfl
  have h₃ := h₂.step (.alloc 100 none true) (hallowed h₂ (by decide)) rfl
  have h₄ := h₃.step Action.reset trivial rfl
  have h₅ := h₄.step (.alloc 100 none true) (hallowed h₄ (by decide)) rfl
  refine ⟨_, h₅, rfl, by decide +kernel, by decide +kernel, ?_⟩
  exact (kept_until_third_reset h₅ (by decide +kernel) (i := 2) (e := ⟨0, 0x10000000, 112⟩)
    (by decide +kernel) (by decide +kernel)).2.2

end LgxRuntime.FrameArena.Frames
