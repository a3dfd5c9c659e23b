import LgxRuntime.FrameArena.FrameRun

/-!
# The arithmetic of a frame request

`lgx_frame_alloc_internal` rounds the size up and adds it to the offset before it compares the sum with
the capacity, both in a `size_t` that may wrap.  A request that wraps looks small: it is served at the
offset without the room it asks for, and leaves the offset behind its own end, so that what the chunk
serves later lies inside its range.

`Placed` says where the ranges lie that an arena has served, whatever was asked of it.
-/

namespace LgxRuntime.FrameArena

variable {a : Arena} {served : List ServedRange}

/-- No range from the current chunk is longer than a chunk can be. -/
def NoneLong (a : Arena) (served : List ServedRange) : Prop :=
  ∀ e ∈ served, e.chunk = a.retiredChunks.length → e.size ≤ frameArenaMaxSize

/-- The ranges start in their chunk, and end below the offset as long as none of them is too long. -/
structure Placed (a : Arena) (served : List ServedRange) : Prop where
  chunk_le : ∀ e ∈ served, e.chunk ≤ a.retiredChunks.length
  base_le : ∀ e ∈ served, e.chunk = a.retiredChunks.length → a.base ≤ e.ptr
  below : NoneLong a served → ∀ e ∈ served, e.chunk = a.retiredChunks.length →
    e.ptr + e.size ≤ a.base + a.offset

/-! ## One arena -/

namespace Placed

theorem nil (a : Arena) : Placed a [] :=
  ⟨by simp, by simp, by simp⟩

/-- A chunk is retired, and nothing is served from the next one yet. -/
theorem retire (h : Placed a served) (newBase newCapacity : ℕ) :
    Placed (a.retire newBase newCapacity) served := by
  have hold : ∀ e ∈ served, e.chunk ≠ (a.retire newBase newCapacity).retiredChunks.length := by
    intro e he heq
    have hle := h.chunk_le e he
    simp only [Arena.retire, List.length_cons] at heq
    omega
  refine ⟨fun e he => ?_, fun e he heq => absurd heq (hold e he),
    fun _ e he heq => absurd heq (hold e he)⟩
  exact (h.chunk_le e he).trans (Nat.le_succ _)

/-- A range is served at the offset.  Unless it is too long the offset moves behind it. -/
theorem serve (h : Placed a served) {size newOffset : ℕ}
    (hoffset : size ≤ frameArenaMaxSize → a.offset + size ≤ newOffset) :
    Placed (a.serve newOffset) (⟨a.retiredChunks.length, a.base + a.offset, size⟩ :: served) := by
  refine ⟨List.forall_mem_cons.mpr ⟨le_rfl, h.chunk_le⟩,
    List.forall_mem_cons.mpr ⟨fun _ => Nat.le_add_right .., h.base_le⟩, fun hshort => ?_⟩
  obtain ⟨hsize, hshort⟩ := List.forall_mem_cons.mp hshort
  have hnew := hoffset (hsize rfl)
  have hbelow := h.below hshort
  simp only [Arena.serve]
  refine List.forall_mem_cons.mpr ⟨fun _ => ?_, fun e he heq => ?_⟩
  · simp only
    omega
  · have hend := hbelow e he heq
    omega

theorem markOverflow (h : Placed a served) : Placed a.markOverflow served :=
  ⟨h.chunk_le, h.base_le, h.below⟩

end Placed

/-- `lgx_frame_alloc_internal`. -/
theorem Placed.alloc (hok : a.Ok) (h : Placed a served) {mapping : Option ℕ} {size : ℕ}
    {result : FrameResult} {a' : Arena} (halloc : a.Allocated mapping (alignSize size) result a') :
    Placed a' (noteServed result a' size served) := by
  cases halloc with
  | bump hfit =>
      refine h.serve fun hsize => ?_
      obtain ⟨hround, hadd⟩ := hok.add_alignSize_lt hsize
      rw [wrap64_of_lt hadd]
      exact Nat.add_le_add_left (le_alignSize hround) _
  | grown hmapping hgrow hfull hfit =>
      refine (h.retire _ _).serve fun hsize => ?_
      obtain ⟨hround, -⟩ := hok.add_alignSize_lt hsize
      simpa [Arena.retire] using le_alignSize hround
  | full hfull => exact h.markOverflow
  | grownFull hmapping hgrow hfull hlong => exact (h.retire _ _).markOverflow

/-- What was served lies in the current chunk, above the ranges from this chunk before. -/
def ServedSound (a : Arena) (served : List ServedRange) (ptr size : ℕ) : Prop :=
  a.base ≤ ptr ∧ ptr + size ≤ a.base + a.capacity ∧
    ∀ e ∈ served, e.chunk = a.retiredChunks.length → e.ptr + e.size ≤ ptr

theorem Placed.sound_iff (hok : a.Ok) (h : Placed a served) {mapping : Option ℕ} {size ptr : ℕ}
    {a' : Arena} (hsize : size < 2 ^ 64)
    (halloc : a.Allocated mapping (alignSize size) (.served ptr) a') :
    ServedSound a' served ptr size ↔
      (size + 15 < 2 ^ 64 ∧ a.offset + alignSize size < 2 ^ 64) ∧
        (a.capacity < a.offset + alignSize size ∨ NoneLong a served) := by
  have hoffset := hok.offset_le
  have hmax := hok.capacity_le.trans hok.max_le
  cases halloc with
  | bump hfit =>
      constructor
      · rintro ⟨-, hend, habove⟩
        simp only [Arena.serve] at hend habove
        refine ⟨hok.add_alignSize_lt (by omega), Or.inr fun e he hchunk => ?_⟩
        have hlow := h.base_le e he hchunk
        have hhigh := habove e he hchunk
        omega
      · rintro ⟨⟨hround, hadd⟩, hshort⟩
        rw [wrap64_of_lt hadd] at hfit ⊢
        have hle := le_alignSize hround
        refine ⟨Nat.le_add_right .., ?_, h.below (hshort.resolve_left hfit.not_gt)⟩
        simp only [Arena.serve]
        omega
  | grown hmapping hgrow hfull hfit =>
      -- a request that wraps does not make the arena grow
      have hwrap : size + 15 < 2 ^ 64 ∧ a.offset + alignSize size < 2 ^ 64 := by
        by_contra hwrap
        exact hfull.not_ge (hok.wrap64_le hsize hwrap)
      refine iff_of_true ⟨le_rfl, ?_, fun e he hchunk => ?_⟩ ⟨hwrap, Or.inl ?_⟩
      · exact Nat.add_le_add_left ((le_alignSize hwrap.1).trans hfit) _
      · -- the new chunk has not served anything
        have hle := h.chunk_le e he
        simp only [Arena.serve, Arena.retire, List.length_cons] at hchunk
        omega
      · rwa [wrap64_of_lt hwrap.2] at hfull

/-! ## Every run -/

variable {r : FrameRun}

theorem FrameReachable.placed (h : FrameReachable r) :
    Placed r.arena (r.served r.frames.current) :=
  h.arenas (fun _ _ _ => .nil _) (fun hok hplaced _ halloc => hplaced.alloc hok halloc)
    (fun _ _ => .nil _) r.frames.current_lt

/-- The request needs more than is left of the current chunk. -/
def Outgrows (r : FrameRun) (size : ℕ) : Prop :=
  r.arena.capacity < r.arena.offset + alignSize size

/-- What a request gets from the arena is in order if its arithmetic does not wrap, and either the arena
grows for it or no range from the chunk before it is too long, which only a request that wraps gets. -/
theorem servedSound_iff (h : FrameReachable r) {size : ℕ} {mapping : Option ℕ} {nodeOk : Bool}
    (hsize : size < 2 ^ 64) {ptr : ℕ} {f : FrameState}
    (hserved : lgxFrameAllocInternal r.frames mapping nodeOk size = (.served ptr, f)) :
    ServedSound (f.arenas r.frames.current) (r.served r.frames.current) ptr size ↔
      NoWrap r.frames size ∧ (Outgrows r size ∨ NoneLong r.arena (r.served r.frames.current)) := by
  obtain ⟨result, a, halloc, heq⟩ := h.rep.alloc_cases mapping nodeOk size
  obtain ⟨rfl, rfl⟩ := Prod.mk.inj (heq.symm.trans hserved)
  simp only [Function.update_self]
  exact h.placed.sound_iff h.arena_ok hsize halloc

/-- 100 bytes of a new arena. -/
theorem servedSound_of_first :
    lgxFrameAllocInternal threeArenas none true 100 =
        (.served 0x10000000, (lgxFrameAllocInternal threeArenas none true 100).2) ∧
      ServedSound ((lgxFrameAllocInternal threeArenas none true 100).2.arenas 0) [] 0x10000000 100 := by
  have hserved : lgxFrameAllocInternal threeArenas none true 100 =
      (.served 0x10000000, (lgxFrameAllocInternal threeArenas none true 100).2) := rfl
  refine ⟨hserved, (servedSound_iff .start_threeArenas (by decide) hserved).mpr ?_⟩
  exact ⟨⟨by decide, by decide⟩, Or.inr (by simp [NoneLong, FrameRun.start])⟩

/-- A request for `2 ^ 64 - 1` bytes is rounded up to none, and is served by a chunk of 64 MB. -/
theorem not_servedSound_of_max : ∃ f, FrameReachable (.start threeArenas) ∧
    lgxFrameAllocInternal threeArenas none true (2 ^ 64 - 1) = (.served 0x10000000, f) ∧
    ¬ ServedSound (f.arenas 0) [] 0x10000000 (2 ^ 64 - 1) := by
  refine ⟨_, .start_threeArenas, rfl, fun hsound => ?_⟩
  have hend := hsound.2.1
  revert hend
  decide +kernel

end LgxRuntime.FrameArena
