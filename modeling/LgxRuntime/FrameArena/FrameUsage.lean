import LgxRuntime.FrameArena.RequestBounds

/-!
# The usage of a frame

What a frame has used is split once its arena has grown: the bytes of the retired chunks are in
`retired_bytes`, those of the current chunk are its offset.  `lgx_frame_arena_dump_stats` and
`update_rolling_average` add the two up, `lgx_frame_get_current_usage` reads the offset alone.

`Counted` relates the two parts to the requests.  The offset is a machine word, so that the rounded
sizes add up to the two parts only up to multiples of `2 ^ 64`.
-/

namespace LgxRuntime.FrameArena

open Function (update update_self update_of_ne)

/-- A size, rounded up to a multiple of 16. -/
def roundedSize (size : ℕ) : ℕ :=
  (size + 15) / 16 * 16

/-- The rounded sizes of what was served, added up. -/
def roundedSum (served : List ServedRange) : ℕ :=
  (served.map fun e => roundedSize e.size).sum

@[simp] theorem roundedSum_nil : roundedSum [] = 0 := rfl

@[simp] theorem roundedSum_cons (e : ServedRange) (served : List ServedRange) :
    roundedSum (e :: served) = roundedSize e.size + roundedSum served := rfl

theorem alignSize_eq (size : ℕ) : alignSize size = wrap64 (roundedSize size) := by
  unfold alignSize wrap64 roundedSize frameArenaAlignment
  omega

theorem roundedSum_eq_zero_iff {served : List ServedRange} :
    roundedSum served = 0 ↔ ∀ e ∈ served, e.size = 0 := by
  have hzero : ∀ size, roundedSize size = 0 ↔ size = 0 := by
    intro size
    unfold roundedSize
    omega
  induction served with
  | nil => simp
  | cons e served ih => simp [hzero, ih]

/-- What was served from the chunks that have been retired. -/
def fromRetired (a : Arena) (served : List ServedRange) : List ServedRange :=
  served.filter fun e => e.chunk < a.retiredChunks.length

/-- The usage that `update_rolling_average` records for the frame of an arena. -/
def Arena.recordedUsage (a : Arena) : ℕ :=
  (updateRollingAverage a).usageHistory a.historyIndex

variable {a : Arena} {served : List ServedRange}

/-! ## One arena -/

/-- The bytes of all chunks are the sum of what was served, and those of the retired chunks the sum of
what was served from them, unless the sum wraps. -/
structure Counted (a : Arena) (served : List ServedRange) : Prop where
  retired_le : a.retiredBytes ≤ a.capacity * frameArenaMaxSize
  sum_eq : wrap64 (a.retiredBytes + a.offset) = wrap64 (roundedSum served)
  retired_eq : roundedSum served < 2 ^ 64 → a.retiredBytes = roundedSum (fromRetired a served)

namespace Counted

theorem total_lt (hok : a.Ok) (h : Counted a served) : a.retiredBytes + a.offset < 2 ^ 64 := by
  have hretired := h.retired_le
  have hoffset := hok.offset_le
  have hcapacity := hok.capacity_le.trans hok.max_le
  simp only [frameArenaMaxSize] at hretired hcapacity
  omega

theorem total_eq (hok : a.Ok) (h : Counted a served) (hsum : roundedSum served < 2 ^ 64) :
    a.retiredBytes + a.offset = roundedSum served := by
  have heq := h.sum_eq
  rwa [wrap64_of_lt (h.total_lt hok), wrap64_of_lt hsum] at heq

/-- A range is served from the current chunk. -/
theorem serve (h : Counted a served) {e : ServedRange} {newOffset : ℕ}
    (hchunk : e.chunk = a.retiredChunks.length)
    (hoffset : newOffset = wrap64 (a.offset + alignSize e.size)) :
    Counted (a.serve newOffset) (e :: served) := by
  refine ⟨h.retired_le, ?_, fun hsum => ?_⟩
  · have hsum := h.sum_eq
    simp only [Arena.serve, hoffset, roundedSum_cons, alignSize_eq, wrap64] at hsum ⊢
    omega
  · have hold : fromRetired (a.serve newOffset) (e :: served) = fromRetired a served :=
      List.filter_cons_of_neg (by simp [Arena.serve, hchunk])
    rw [hold]
    apply h.retired_eq
    exact (Nat.le_add_left ..).trans_lt hsum

/-- The used bytes of the chunk go over to the retired ones. -/
theorem retire (hok : a.Ok) (hplaced : Placed a served) (h : Counted a served) (newBase : ℕ)
    (hgrow : a.capacity < a.grownCapacity) : Counted (a.retire newBase a.grownCapacity) served := by
  have hoffset := hok.offset_le.trans (hok.capacity_le.trans hok.max_le)
  refine ⟨?_, h.sum_eq, fun hsum => ?_⟩
  · calc a.retiredBytes + a.offset
        ≤ a.capacity * frameArenaMaxSize + frameArenaMaxSize := Nat.add_le_add h.retired_le hoffset
      _ = (a.capacity + 1) * frameArenaMaxSize := (Nat.succ_mul ..).symm
      _ ≤ a.grownCapacity * frameArenaMaxSize := Nat.mul_le_mul_right _ hgrow
  · have hall : fromRetired (a.retire newBase a.grownCapacity) served = served :=
      List.filter_eq_self.mpr fun e he => decide_eq_true (Nat.lt_succ_of_le (hplaced.chunk_le e he))
    rw [hall]
    exact h.total_eq hok hsum

theorem markOverflow (h : Counted a served) : Counted a.markOverflow served :=
  ⟨h.retired_le, h.sum_eq, h.retired_eq⟩

/-- `lgx_frame_alloc_internal`. -/
theorem alloc (hok : a.Ok) (hplaced : Placed a served) (h : Counted a served) {mapping : Option ℕ}
    {size : ℕ} {result : FrameResult} {a' : Arena}
    (halloc : a.Allocated mapping (alignSize size) result a') :
    Counted a' (noteServed result a' size served) := by
  cases halloc with
  | bump hfit => exact h.serve rfl rfl
  | grown hmapping hgrow hfull hfit =>
      refine (h.retire hok hplaced _ hgrow).serve rfl ?_
      simp only [Arena.retire, Nat.zero_add, alignSize_eq]
      exact (wrap64_of_lt (Nat.mod_lt _ (by decide))).symm
  | full hfull => exact h.markOverflow
  | grownFull hmapping hgrow hfull hlong => exact (h.retire hok hplaced _ hgrow).markOverflow

/-- The offset is the whole usage if nothing but the current chunk has been used. -/
theorem offset_iff (hok : a.Ok) (hplaced : Placed a served) (h : Counted a served) :
    a.offset = roundedSum served ∧ a.retiredBytes = 0 ↔
      (∀ e ∈ served, e.size ≠ 0 → e.chunk = a.retiredChunks.length) ∧ roundedSum served < 2 ^ 64 := by
  constructor
  · rintro ⟨hoffset, hretired⟩
    have hsum : roundedSum served < 2 ^ 64 := by
      have hlt := h.total_lt hok
      omega
    refine ⟨fun e he hsize => ?_, hsum⟩
    by_contra hne
    have hmem : e ∈ fromRetired a served :=
      List.mem_filter.mpr ⟨he, decide_eq_true (lt_of_le_of_ne (hplaced.chunk_le e he) hne)⟩
    exact hsize (roundedSum_eq_zero_iff.mp ((h.retired_eq hsum).symm.trans hretired) e hmem)
  · rintro ⟨hcurrent, hsum⟩
    have hretired : a.retiredBytes = 0 := by
      rw [h.retired_eq hsum, roundedSum_eq_zero_iff]
      intro e he
      obtain ⟨he, hchunk⟩ := List.mem_filter.mp he
      by_contra hsize
      exact (of_decide_eq_true hchunk).ne (hcurrent e he hsize)
    have htotal := h.total_eq hok hsum
    exact ⟨by omega, hretired⟩

end Counted

/-! ## Every run -/

/-- What `lgx_frame_get_current_usage` says in the frame of an arena, or has said at its end. -/
def FrameRun.usage (r : FrameRun) (i : ℕ) : ℕ :=
  if i = r.frames.current then lgxFrameGetCurrentUsage r.frames else r.lastUsage i

/-- The usage of a frame is the sum of what its arena has served, and the other readers agree. -/
structure UsageAgrees (r : FrameRun) (i : ℕ) : Prop where
  sum : r.usage i = roundedSum (r.served i)
  dumped : (r.frames.arenas i).dumpedUsage = r.usage i
  recorded : (r.frames.arenas i).recordedUsage = r.usage i

/-- The reset that clears an arena leaves the recorded usage in its history. -/
theorem lgxFrameReset_usageHistory (f : FrameState) :
    ((lgxFrameReset f).arenas f.cleared).usageHistory (f.arenas f.cleared).historyIndex =
      (f.arenas f.cleared).recordedUsage := by
  rw [lgxFrameReset_cleared]
  rfl

namespace FrameReachable

variable {r : FrameRun} {i : ℕ}

theorem counted (h : FrameReachable r) (hi : i < frameArenaCount) :
    Placed (r.frames.arenas i) (r.served i) ∧ Counted (r.frames.arenas i) (r.served i) := by
  apply h.arenas (P := fun a served => Placed a served ∧ Counted a served) _ _ _ hi
  · exact fun _ _ _ => ⟨.nil _, Nat.zero_le _, rfl, fun _ => rfl⟩
  · exact fun hok hP _ halloc => ⟨hP.1.alloc hok halloc, hP.2.alloc hok hP.1 halloc⟩
  · exact fun _ _ => ⟨.nil _, Nat.zero_le _, rfl, fun _ => rfl⟩

/-- An arena stays as its frame has left it until it is cleared. -/
theorem lastUsage_eq (h : FrameReachable r) (hi : i ≠ r.frames.current) :
    r.lastUsage i = (r.frames.arenas i).offset := by
  apply Interleaving.Reachable.invariant
    (I := fun r => ∀ i ≠ r.frames.current, r.lastUsage i = (r.frames.arenas i).offset) h _ _ i hi
  · rintro r ⟨f, size, limit, mappings, hinit, rfl⟩ i -
    obtain ⟨-, rfl⟩ := lgxFrameArenaInit_eq_some hinit.frames
    rfl
  · intro r r' a hlast hallowed hstep i hi
    cases a with
    | alloc size mapping nodeOk =>
        obtain rfl := Option.some.inj hstep
        exact (hlast i hi).trans (congrArg Arena.offset (update_of_ne hi ..).symm)
    | reset =>
        obtain rfl := Option.some.inj hstep
        have hcleared : i ≠ r.frames.cleared := fun heq =>
          hi (heq.trans (lgxFrameReset_current _).symm)
        simp only [FrameRun.reset, lgxFrameReset_arenas_of_ne _ hcleared]
        by_cases hcurrent : i = r.frames.current
        · rw [hcurrent, update_self, lgxFrameGetCurrentUsage]
        · rw [update_of_ne hcurrent]
          exact hlast i hcurrent

theorem usage_eq (h : FrameReachable r) (i : ℕ) : r.usage i = (r.frames.arenas i).offset := by
  unfold FrameRun.usage
  split
  · rename_i hi
    rw [hi]
    rfl
  · rename_i hi
    exact h.lastUsage_eq hi

end FrameReachable

/-- The readers agree on the usage of a frame, and with what its arena has served, if all of it is from
the current chunk and the rounded sizes do not add up to `2 ^ 64`. -/
theorem usageAgrees_iff {r : FrameRun} (h : FrameReachable r) {i : ℕ} (hi : i < frameArenaCount) :
    UsageAgrees r i ↔
      (∀ e ∈ r.served i, e.size ≠ 0 → e.chunk = (r.frames.arenas i).retiredChunks.length) ∧
        roundedSum (r.served i) < 2 ^ 64 := by
  obtain ⟨hplaced, hcounted⟩ := h.counted hi
  have hok := h.rep.ok i hi
  have hdumped : (r.frames.arenas i).dumpedUsage =
      (r.frames.arenas i).retiredBytes + (r.frames.arenas i).offset :=
    wrap64_of_lt (hcounted.total_lt hok)
  have hrecorded : (r.frames.arenas i).recordedUsage =
      (r.frames.arenas i).retiredBytes + (r.frames.arenas i).offset := update_self ..
  rw [← hcounted.offset_iff hok hplaced]
  constructor
  · rintro ⟨hsum, hdump, -⟩
    rw [h.usage_eq] at hsum hdump
    exact ⟨hsum, by omega⟩
  · rintro ⟨hsum, hretired⟩
    refine ⟨?_, ?_, ?_⟩
    · rw [h.usage_eq, hsum]
    · rw [h.usage_eq, hdumped, hretired, Nat.zero_add]
    · rw [h.usage_eq, hrecorded, hretired, Nat.zero_add]

/-! ## A frame that grows its arena -/

/-- 100 bytes, and no growth. -/
theorem usageAgrees_without_growth : ∃ r, FrameReachable r ∧ r.usage 0 = 112 ∧ UsageAgrees r 0 := by
  have hreach : FrameReachable ((FrameRun.start threeArenas).alloc 100 none true) :=
    FrameReachable.start_threeArenas.alloc (by decide) (.none _)
  refine ⟨_, hreach, by decide, (usageAgrees_iff hreach (by decide)).mpr ⟨?_, by decide⟩⟩
  decide

/-- An arena of 64 MB that has served 64 MB grows for 16 bytes more, and its frame seems to have used 16
bytes. -/
theorem not_usageAgrees_after_growth : ∃ r, FrameReachable r ∧ r.frames.current = 0 ∧
    lgxFrameGetCurrentUsage r.frames = 16 ∧ roundedSum (r.served 0) = 0x4000010 ∧
    (r.frames.arenas 0).dumpedUsage = 0x4000010 ∧ (r.frames.arenas 0).recordedUsage = 0x4000010 ∧
    ¬ UsageAgrees r 0 := by
  let r₁ := (FrameRun.start threeArenas).alloc 0x4000000 none true
  have hfirst : FrameReachable r₁ := FrameReachable.start_threeArenas.alloc (by decide) (.none _)
  -- the arenas end below the new chunk
  have hend : ∀ i < frameArenaCount, ∀ c ∈ (r₁.frames.arenas i).chunks,
      c.base + c.capacity ≤ 0x40000000 := by
    decide +kernel
  have hfresh : MappingOk r₁.frames (some 0x40000000) := by
    rintro base ⟨rfl⟩
    exact ⟨by decide, fun i hi c hc => Or.inr (hend i hi c hc)⟩
  have hsecond : FrameReachable (r₁.alloc 16 (some 0x40000000) true) := hfirst.alloc (by decide) hfresh
  refine ⟨_, hsecond, by decide, by decide +kernel, by decide +kernel, by decide +kernel,
    by decide +kernel, fun hagrees => ?_⟩
  have hsum := hagrees.sum
  revert hsum
  decide +kernel

end LgxRuntime.FrameArena
