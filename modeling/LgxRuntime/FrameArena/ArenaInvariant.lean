import LgxRuntime.FrameArena.Arena

/-!
# What the frame arenas have handed out

The chunks of the arenas lie apart from each other.  An allocation lies in a retired chunk of its arena,
or below the offset of the current one, so that the next allocation is apart from it.
-/

namespace LgxRuntime.FrameArena

open Function (update update_self update_of_ne)

/-- The ranges `[lo, lo + n)` and `[lo', lo' + n')` do not meet. -/
def Separate (lo n lo' n' : ℕ) : Prop :=
  lo + n ≤ lo' ∨ lo' + n' ≤ lo

theorem Separate.symm {lo n lo' n' : ℕ} (h : Separate lo n lo' n') : Separate lo' n' lo n :=
  Or.symm h

theorem Separate.mono {lo n lo' n' p m : ℕ} (h : Separate lo n lo' n') (hlow : lo ≤ p)
    (hhigh : p + m ≤ lo + n) : Separate p m lo' n' := by
  unfold Separate at h ⊢
  omega

/-! ## Rounding -/

theorem alignSize_of_lt {size : ℕ} (h : size + 15 < 2 ^ 64) :
    alignSize size = (size + 15) / 16 * 16 := by
  rw [alignSize, frameArenaAlignment, wrap64_of_lt h]

theorem le_alignSize {size : ℕ} (h : size + 15 < 2 ^ 64) : size ≤ alignSize size := by
  rw [alignSize_of_lt h]
  omega

/-! ## One arena -/

namespace Arena

/-- The chunks of an arena, the current one first. -/
def chunks (a : Arena) : List ArenaChunk :=
  ⟨a.base, a.capacity⟩ :: a.retiredChunks

/-- The limits of an arena. -/
structure Ok (a : Arena) : Prop where
  base_pos : 0 < a.base
  offset_le : a.offset ≤ a.capacity
  capacity_le : a.capacity ≤ a.maxCapacity
  max_le : a.maxCapacity ≤ frameArenaMaxSize
  retired : ∀ c ∈ a.retiredChunks, 0 < c.base ∧ c.capacity ≤ frameArenaMaxSize

/-- What an allocation does to an arena. -/
inductive Allocated (a : Arena) (mapping : Option ℕ) (size : ℕ) : FrameResult → Arena → Prop
  | bump (hfit : wrap64 (a.offset + size) ≤ a.capacity) :
      Allocated a mapping size (.served (a.base + a.offset)) (a.serve (wrap64 (a.offset + size)))
  | grown {newBase : ℕ} (hmapping : mapping = some newBase) (hgrow : a.capacity < a.grownCapacity)
      (hfull : a.capacity < wrap64 (a.offset + size)) (hfit : size ≤ a.grownCapacity) :
      Allocated a mapping size (.served newBase) ((a.retire newBase a.grownCapacity).serve size)
  | full (hfull : a.capacity < wrap64 (a.offset + size)) :
      Allocated a mapping size (.overflow size) a.markOverflow
  | grownFull {newBase : ℕ} (hmapping : mapping = some newBase) (hgrow : a.capacity < a.grownCapacity)
      (hfull : a.capacity < wrap64 (a.offset + size)) (hsize : a.grownCapacity < size) :
      Allocated a mapping size (.overflow size) (a.retire newBase a.grownCapacity).markOverflow

theorem grownCapacity_le (a : Arena) : a.grownCapacity ≤ a.maxCapacity := by
  unfold grownCapacity
  split <;> omega

theorem Ok.grow_eq {a : Arena} (h : a.Ok) (hgrow : a.capacity < a.grownCapacity) (mapping : Option ℕ)
    (nodeOk : Bool) : a.grow a.grownCapacity mapping nodeOk =
      match mapping with
      | none => (false, a)
      | some newBase => if nodeOk then (true, a.retire newBase a.grownCapacity) else (false, a) := by
  have hmax := a.grownCapacity_le
  have hbase := h.base_pos
  rw [Arena.grow, if_neg (by omega)]
  have hcapacity : ¬ a.capacity ≥ a.maxCapacity := by omega
  have hmapped : a.base ≠ 0 := by omega
  rw [if_neg hcapacity, if_neg hmax.not_gt]
  cases mapping with
  | none => rfl
  | some newBase => exact if_neg hmapped

/-- `lgx_frame_alloc_internal` does one of four things. -/
theorem Ok.alloc_cases {a : Arena} (h : a.Ok) (mapping : Option ℕ) (nodeOk : Bool) (size : ℕ) :
    Allocated a mapping size (a.alloc mapping nodeOk size).1 (a.alloc mapping nodeOk size).2 := by
  unfold Arena.alloc
  simp only
  split
  · rename_i hfull
    split
    · rename_i hgrow
      rw [h.grow_eq hgrow]
      cases mapping with
      | none => exact .full hfull
      | some newBase =>
          cases nodeOk with
          | false => exact .full hfull
          | true =>
              simp only [if_true]
              split
              · rename_i hfit
                exact .grown rfl hgrow hfull hfit
              · rename_i hfit
                exact .grownFull rfl hgrow hfull (not_le.mp hfit)
    · exact .full hfull
  · rename_i hfit
    exact .bump (not_lt.mp hfit)

theorem Ok.chunk_bounds {a : Arena} (h : a.Ok) {c : ArenaChunk} (hc : c ∈ a.chunks) :
    0 < c.base ∧ c.capacity ≤ frameArenaMaxSize := by
  rcases List.mem_cons.mp hc with rfl | hc
  · exact ⟨h.base_pos, h.capacity_le.trans h.max_le⟩
  · exact h.retired c hc

theorem Ok.retire {a : Arena} (h : a.Ok) {newBase : ℕ} (hpos : 0 < newBase) :
    (a.retire newBase a.grownCapacity).Ok :=
  ⟨hpos, Nat.zero_le _, a.grownCapacity_le, h.max_le, fun _ hc => h.chunk_bounds hc⟩

theorem Ok.serve {a : Arena} (h : a.Ok) {newOffset : ℕ} (hle : newOffset ≤ a.capacity) :
    (a.serve newOffset).Ok :=
  ⟨h.base_pos, hle, h.capacity_le, h.max_le, h.retired⟩

theorem Ok.markOverflow {a : Arena} (h : a.Ok) : a.markOverflow.Ok :=
  ⟨h.base_pos, h.offset_le, h.capacity_le, h.max_le, h.retired⟩

/-- A size that fits into a chunk is rounded up and added to the offset without a wrap. -/
theorem Ok.add_alignSize_lt {a : Arena} (h : a.Ok) {size : ℕ} (hsize : size ≤ frameArenaMaxSize) :
    size + 15 < 2 ^ 64 ∧ a.offset + alignSize size < 2 ^ 64 := by
  have hoffset := h.offset_le.trans (h.capacity_le.trans h.max_le)
  simp only [frameArenaMaxSize] at hsize hoffset
  have hround : size + 15 < 2 ^ 64 := by omega
  rw [alignSize_of_lt hround]
  omega

/-- A request that wraps seems to fit: either the rounded size is zero, or the sum falls short of the
offset. -/
theorem Ok.wrap64_le {a : Arena} (h : a.Ok) {size : ℕ} (hsize : size < 2 ^ 64)
    (hwrap : ¬ (size + 15 < 2 ^ 64 ∧ a.offset + alignSize size < 2 ^ 64)) :
    wrap64 (a.offset + alignSize size) ≤ a.capacity := by
  have hoffset := h.offset_le
  have hmax := h.capacity_le.trans h.max_le
  simp only [frameArenaMaxSize] at hmax
  by_cases hround : size + 15 < 2 ^ 64
  · have hsum : ¬ a.offset + alignSize size < 2 ^ 64 := fun hlt => hwrap ⟨hround, hlt⟩
    rw [alignSize_of_lt hround] at hsum ⊢
    unfold wrap64
    omega
  · have hzero : alignSize size = 0 := by
      unfold alignSize wrap64 frameArenaAlignment
      omega
    rw [hzero, Nat.add_zero, wrap64_of_lt (by omega)]
    exact hoffset

/-- The bytes `[ptr, ptr + size)` are below the offset of the current chunk, or in a retired one. -/
def Holds (a : Arena) (ptr size : ℕ) : Prop :=
  (a.base ≤ ptr ∧ ptr + size ≤ a.base + a.offset) ∨
    ∃ c ∈ a.retiredChunks, c.base ≤ ptr ∧ ptr + size ≤ c.base + c.capacity

theorem Ok.chunk_of_holds {a : Arena} (h : a.Ok) {ptr size : ℕ} (hholds : a.Holds ptr size) :
    ∃ c ∈ a.chunks, c.base ≤ ptr ∧ ptr + size ≤ c.base + c.capacity := by
  rcases hholds with ⟨hlow, hhigh⟩ | ⟨c, hc, hlow, hhigh⟩
  · refine ⟨⟨a.base, a.capacity⟩, List.mem_cons_self .., hlow, hhigh.trans ?_⟩
    exact Nat.add_le_add_left h.offset_le _
  · exact ⟨c, List.mem_cons_of_mem _ hc, hlow, hhigh⟩

end Arena

/-! ## The three arenas -/

/-- The chunk lies apart from those of the arenas. -/
structure FreshChunk (f : FrameState) (chunk : ArenaChunk) : Prop where
  base_pos : 0 < chunk.base
  apart : ∀ i < frameArenaCount, ∀ c ∈ (f.arenas i).chunks,
    Separate chunk.base chunk.capacity c.base c.capacity

/-- The arenas keep their limits, and their chunks lie apart from each other. -/
structure FrameRep (f : FrameState) : Prop where
  ok : ∀ i < frameArenaCount, (f.arenas i).Ok
  chunks : ∀ i < frameArenaCount, (f.arenas i).chunks.Pairwise fun c d =>
    Separate c.base c.capacity d.base d.capacity
  apart : ∀ i < frameArenaCount, ∀ j < frameArenaCount, i ≠ j →
    ∀ c ∈ (f.arenas i).chunks, ∀ d ∈ (f.arenas j).chunks,
      Separate c.base c.capacity d.base d.capacity

theorem FrameState.current_lt (f : FrameState) : f.current < frameArenaCount :=
  Nat.mod_lt _ (by decide)

/-- `lgx_frame_is_frame_pointer` looks for the pointer in every chunk. -/
theorem FrameRep.isFramePointer_iff {f : FrameState} (h : FrameRep f) {ptr : ℕ} (hptr : ptr ≠ 0) :
    lgxFrameIsFramePointer f ptr = true ↔
      ∃ i < frameArenaCount, ∃ c ∈ (f.arenas i).chunks, c.base ≤ ptr ∧ ptr < c.base + c.capacity := by
  have hbase : ∀ i < frameArenaCount, (f.arenas i).base ≠ 0 := fun i hi => (h.ok i hi).base_pos.ne'
  simp only [lgxFrameIsFramePointer, hptr, ArenaChunk.contains, decide_eq_true_eq, List.any_eq_true,
    List.mem_range, Arena.chunks, List.mem_cons, exists_eq_or_imp, ne_eq, not_false_eq_true, true_and]
  constructor
  · rintro ⟨i, hi, -, hmem⟩
    exact ⟨i, hi, hmem⟩
  · rintro ⟨i, hi, hmem⟩
    exact ⟨i, hi, hbase i hi, hmem⟩

namespace FrameRep

variable {f : FrameState} {i : ℕ} {a : Arena}

/-- One arena is replaced, by one with the same chunks, with fewer, or with a fresh one in front. -/
theorem setArena (h : FrameRep f) (hi : i < frameArenaCount) (hok : a.Ok)
    (hchunks : a.chunks.Sublist (f.arenas i).chunks ∨
      ∃ c, FreshChunk f c ∧ a.chunks = c :: (f.arenas i).chunks) (frame : ℕ) :
    FrameRep ⟨update f.arenas i a, frame⟩ := by
  -- a chunk of the new arena lies apart from those of the other arenas
  have hother : ∀ j < frameArenaCount, j ≠ i → ∀ c ∈ a.chunks, ∀ d ∈ (f.arenas j).chunks,
      Separate c.base c.capacity d.base d.capacity := by
    intro j hj hne c hc d hd
    obtain hsub | ⟨new, hnew, heq⟩ := hchunks
    · exact h.apart i hi j hj hne.symm c (hsub.subset hc) d hd
    · rw [heq] at hc
      rcases List.mem_cons.mp hc with rfl | hc
      · exact hnew.apart j hj d hd
      · exact h.apart i hi j hj hne.symm c hc d hd
  refine ⟨fun j hj => ?_, fun j hj => ?_, fun j hj k hk hne c hc d hd => ?_⟩
  · by_cases hji : j = i
    · subst hji
      simpa using hok
    · simpa [hji] using h.ok j hj
  · by_cases hji : j = i
    · subst hji
      simp only [update_self]
      obtain hsub | ⟨new, hnew, heq⟩ := hchunks
      · exact (h.chunks j hj).sublist hsub
      · rw [heq]
        exact List.pairwise_cons.mpr ⟨hnew.apart j hj, h.chunks j hj⟩
    · simpa [hji] using h.chunks j hj
  · simp only at hc hd
    by_cases hji : j = i
    · subst hji
      rw [update_self] at hc
      rw [update_of_ne hne.symm] at hd
      exact hother k hk hne.symm c hc d hd
    · rw [update_of_ne hji] at hc
      by_cases hki : k = i
      · subst hki
        rw [update_self] at hd
        exact (hother j hj hji d hd c hc).symm
      · rw [update_of_ne hki] at hd
        exact h.apart j hj k hk hne c hc d hd

/-- What an arena holds is below the offset of a given chunk, or apart from that chunk. -/
theorem holds_cases (h : FrameRep f) (hi : i < frameArenaCount) {j : ℕ} (hj : j < frameArenaCount)
    {p n : ℕ} (hholds : (f.arenas i).Holds p n) :
    i = j ∧ p + n ≤ (f.arenas j).base + (f.arenas j).offset ∨
      Separate (f.arenas j).base (f.arenas j).capacity p n := by
  by_cases hij : i = j
  · subst hij
    rcases hholds with ⟨-, hhigh⟩ | ⟨c, hc, hlow, hhigh⟩
    · exact Or.inl ⟨rfl, hhigh⟩
    · have hapart := (List.pairwise_cons.mp (h.chunks i hi)).1 c hc
      exact Or.inr (hapart.symm.mono hlow hhigh).symm
  · obtain ⟨c, hc, hlow, hhigh⟩ := (h.ok i hi).chunk_of_holds hholds
    have hapart := h.apart i hi j hj hij c hc ⟨(f.arenas j).base, (f.arenas j).capacity⟩
      (List.mem_cons_self ..)
    exact Or.inr (hapart.mono hlow hhigh).symm

end FrameRep

/-! ## Allocation -/

/-- The arithmetic of the request stays below `2 ^ 64`. -/
def NoWrap (f : FrameState) (size : ℕ) : Prop :=
  size + 15 < 2 ^ 64 ∧ (f.arenas f.current).offset + alignSize size < 2 ^ 64

/-- A new chunk of the arena of the current frame may lie at `mapping`. -/
def MappingOk (f : FrameState) (mapping : Option ℕ) : Prop :=
  ∀ base, mapping = some base → FreshChunk f ⟨base, (f.arenas f.current).grownCapacity⟩

theorem MappingOk.none (f : FrameState) : MappingOk f none :=
  fun _ hbase => by cases hbase

section

variable {f : FrameState} {mapping : Option ℕ} {nodeOk : Bool} {size : ℕ}

theorem FrameRep.alloc_cases (h : FrameRep f) (mapping : Option ℕ) (nodeOk : Bool) (size : ℕ) :
    ∃ result a, Arena.Allocated (f.arenas f.current) mapping (alignSize size) result a ∧
      lgxFrameAllocInternal f mapping nodeOk size =
        (result, ⟨update f.arenas f.current a, f.currentFrame⟩) :=
  ⟨_, _, (h.ok _ f.current_lt).alloc_cases mapping nodeOk (alignSize size), rfl⟩

/-- The arenas stay apart, whatever the size. -/
theorem FrameRep.alloc (h : FrameRep f) (hmapping : MappingOk f mapping) :
    FrameRep (lgxFrameAllocInternal f mapping nodeOk size).2 := by
  obtain ⟨result, a, halloc, heq⟩ := h.alloc_cases mapping nodeOk size
  rw [heq]
  have hok := h.ok _ f.current_lt
  cases halloc with
  | bump hfit => exact h.setArena f.current_lt (hok.serve hfit) (Or.inl (List.Sublist.refl _)) _
  | grown hm hgrow hfull hfit =>
      have hfresh := hmapping _ hm
      exact h.setArena f.current_lt ((hok.retire hfresh.base_pos).serve hfit)
        (Or.inr ⟨_, hfresh, rfl⟩) _
  | full hfull =>
      exact h.setArena f.current_lt hok.markOverflow (Or.inl (List.Sublist.refl _)) _
  | grownFull hm hgrow hfull hsize =>
      have hfresh := hmapping _ hm
      exact h.setArena f.current_lt (hok.retire hfresh.base_pos).markOverflow
        (Or.inr ⟨_, hfresh, rfl⟩) _

/-- The chunks are those from before, and at most the new one. -/
theorem FrameRep.alloc_chunks (h : FrameRep f) {i : ℕ} {c : ArenaChunk}
    (hc : c ∈ ((lgxFrameAllocInternal f mapping nodeOk size).2.arenas i).chunks) :
    c ∈ (f.arenas i).chunks ∨
      ∃ base, mapping = some base ∧ c = ⟨base, (f.arenas f.current).grownCapacity⟩ := by
  obtain ⟨result, a, halloc, heq⟩ := h.alloc_cases mapping nodeOk size
  rw [heq] at hc
  simp only at hc
  by_cases hi : i = f.current
  · subst hi
    rw [update_self] at hc
    cases halloc with
    | bump => exact Or.inl hc
    | grown hm =>
        rcases List.mem_cons.mp hc with rfl | hc
        · exact Or.inr ⟨_, hm, rfl⟩
        · exact Or.inl hc
    | full => exact Or.inl hc
    | grownFull hm =>
        rcases List.mem_cons.mp hc with rfl | hc
        · exact Or.inr ⟨_, hm, rfl⟩
        · exact Or.inl hc
  · rw [update_of_ne hi] at hc
    exact Or.inl hc

/-- What the arenas hold they keep. -/
theorem FrameRep.alloc_holds (h : FrameRep f) (hwrap : NoWrap f size) {i : ℕ} {p n : ℕ}
    (hholds : (f.arenas i).Holds p n) :
    ((lgxFrameAllocInternal f mapping nodeOk size).2.arenas i).Holds p n := by
  obtain ⟨result, a, halloc, heq⟩ := h.alloc_cases mapping nodeOk size
  rw [heq]
  simp only
  by_cases hi : i = f.current
  · subst hi
    have hok := h.ok _ f.current_lt
    rw [update_self]
    cases halloc with
    | bump hfit =>
        rw [wrap64_of_lt hwrap.2]
        rcases hholds with ⟨hlow, hhigh⟩ | hretired
        · exact Or.inl ⟨hlow, hhigh.trans (by simp only [Arena.serve]; omega)⟩
        · exact Or.inr hretired
    -- what was below the offset of a chunk is in a retired chunk from now on
    | grown => exact Or.inr (hok.chunk_of_holds hholds)
    | full => exact hholds
    | grownFull => exact Or.inr (hok.chunk_of_holds hholds)
  · rwa [update_of_ne hi]

/-- What an allocation gets, the arena holds from now on, and nothing else that the arenas hold meets
it. -/
theorem FrameRep.served (h : FrameRep f) (hmapping : MappingOk f mapping) (hwrap : NoWrap f size)
    {ptr : ℕ} (hserved : (lgxFrameAllocInternal f mapping nodeOk size).1 = .served ptr) :
    ((lgxFrameAllocInternal f mapping nodeOk size).2.arenas f.current).Holds ptr (alignSize size) ∧
      ∀ i < frameArenaCount, ∀ p n, (f.arenas i).Holds p n → Separate ptr (alignSize size) p n := by
  obtain ⟨result, a, halloc, heq⟩ := h.alloc_cases mapping nodeOk size
  rw [heq] at hserved ⊢
  simp only at hserved ⊢
  rw [update_self]
  have hok := h.ok _ f.current_lt
  cases halloc with
  | bump hfit =>
      obtain rfl := FrameResult.served.inj hserved
      rw [wrap64_of_lt hwrap.2] at hfit ⊢
      refine ⟨Or.inl ⟨Nat.le_add_right .., by simp only [Arena.serve]; omega⟩, fun i hi p n hholds => ?_⟩
      rcases h.holds_cases hi f.current_lt hholds with ⟨rfl, hhigh⟩ | hapart
      · exact Or.inr hhigh
      · exact hapart.mono (Nat.le_add_right ..) (by omega)
  | grown hm hgrow hfull hfit =>
      obtain rfl := FrameResult.served.inj hserved
      refine ⟨Or.inl ⟨le_rfl, le_rfl⟩, fun i hi p n hholds => ?_⟩
      obtain ⟨c, hc, hlow, hhigh⟩ := (h.ok i hi).chunk_of_holds hholds
      have hapart := (hmapping _ hm).apart i hi c hc
      simp only [Separate] at hapart ⊢
      omega
  | full => simp at hserved
  | grownFull => simp at hserved

/-- What an arena passes on is the rounded size. -/
theorem FrameRep.overflow_eq (h : FrameRep f) {passed : ℕ}
    (hover : (lgxFrameAllocInternal f mapping nodeOk size).1 = .overflow passed) :
    passed = alignSize size := by
  obtain ⟨result, a, halloc, heq⟩ := h.alloc_cases mapping nodeOk size
  rw [heq] at hover
  cases halloc with
  | bump hfit => cases hover
  | grown hmapping hgrow hfull hfit => cases hover
  | full hfull => exact (FrameResult.overflow.inj hover).symm
  | grownFull hmapping hgrow hfull hlarge => exact (FrameResult.overflow.inj hover).symm

/-- A request that wraps is served at the offset of the current chunk. -/
theorem FrameRep.served_of_wrap (h : FrameRep f) (hsize : size < 2 ^ 64) (hwrap : ¬ NoWrap f size) :
    (lgxFrameAllocInternal f mapping nodeOk size).1 =
        .served ((f.arenas f.current).base + (f.arenas f.current).offset) ∧
      frameArenaMaxSize < size := by
  have hok := h.ok _ f.current_lt
  have hfit := hok.wrap64_le hsize hwrap
  constructor
  · simp only [lgxFrameAllocInternal, Arena.alloc, if_neg (not_lt.mpr hfit)]
  · by_contra hshort
    exact hwrap (hok.add_alignSize_lt (not_lt.mp hshort))

end

/-! ## Frames -/

theorem FrameState.nextFrame_lt (f : FrameState) : f.nextFrame % frameArenaCount < frameArenaCount :=
  Nat.mod_lt _ (by decide)

/-- A reset clears the arena of the next frame. -/
theorem FrameRep.reset {f : FrameState} (h : FrameRep f) : FrameRep (lgxFrameReset f) := by
  obtain ⟨hbase, -, hcapacity, hmax, -⟩ := h.ok _ f.nextFrame_lt
  have hok : ((updateRollingAverage (f.arenas (f.nextFrame % frameArenaCount))).reset f.nextFrame).Ok :=
    ⟨hbase, Nat.zero_le _, hcapacity, hmax, List.forall_mem_nil _⟩
  exact h.setArena f.nextFrame_lt hok (Or.inl (List.Sublist.cons_cons _ (List.nil_sublist _))) _

/-- The other arenas stay as they are. -/
theorem lgxFrameReset_arenas_of_ne (f : FrameState) {i : ℕ} (hi : i ≠ f.nextFrame % frameArenaCount) :
    (lgxFrameReset f).arenas i = f.arenas i :=
  update_of_ne hi ..

/-! ## Initialization -/

theorem arenaSize_bounds (configuredArenaSize : ℕ) :
    0 < arenaSize configuredArenaSize ∧ arenaSize configuredArenaSize ≤ frameArenaMaxSize := by
  unfold arenaSize frameArenaDefaultSize frameArenaMinSize frameArenaMaxSize
  simp only
  split_ifs <;> omega

theorem maxSize_bounds (configuredArenaSize configuredMaxSize : ℕ) :
    arenaSize configuredArenaSize ≤ maxSize configuredArenaSize configuredMaxSize ∧
      maxSize configuredArenaSize configuredMaxSize ≤ frameArenaMaxSize := by
  have hsize := (arenaSize_bounds configuredArenaSize).2
  unfold maxSize
  simp only
  split_ifs <;> omega

/-- All three arenas have been mapped, and nothing is in them. -/
theorem lgxFrameArenaInit_eq_some {configuredArenaSize configuredMaxSize : ℕ} {mappings : ℕ → Option ℕ}
    {f : FrameState} (hinit : lgxFrameArenaInit configuredArenaSize configuredMaxSize mappings = some f) :
    (∀ i < frameArenaCount, mappings i = some ((mappings i).getD 0)) ∧
      f =
        { arenas := fun i => newArena ((mappings i).getD 0) (arenaSize configuredArenaSize)
            (maxSize configuredArenaSize configuredMaxSize)
          currentFrame := 0 } := by
  unfold lgxFrameArenaInit at hinit
  split at hinit
  · rename_i hall
    refine ⟨fun i hi => ?_, (Option.some.inj hinit).symm⟩
    simp only [List.all_eq_true, List.mem_range] at hall
    obtain ⟨p, hp⟩ := Option.isSome_iff_exists.mp (hall i hi)
    rw [hp, Option.getD_some]
  · simp at hinit

/-- The only chunk of an arena is the one that was mapped for it. -/
theorem init_chunks {configuredArenaSize configuredMaxSize : ℕ} {mappings : ℕ → Option ℕ}
    {f : FrameState} (hinit : lgxFrameArenaInit configuredArenaSize configuredMaxSize mappings = some f)
    {i : ℕ} (hi : i < frameArenaCount) {c : ArenaChunk} (hc : c ∈ (f.arenas i).chunks) :
    ∃ p, mappings i = some p ∧ c = ⟨p, arenaSize configuredArenaSize⟩ := by
  obtain ⟨hmapped, rfl⟩ := lgxFrameArenaInit_eq_some hinit
  exact ⟨_, hmapped i hi, List.mem_singleton.mp hc⟩

/-- Three chunks that lie apart make three arenas. -/
theorem FrameRep.init {configuredArenaSize configuredMaxSize : ℕ} {mappings : ℕ → Option ℕ}
    {f : FrameState} (hinit : lgxFrameArenaInit configuredArenaSize configuredMaxSize mappings = some f)
    (hpos : ∀ i < frameArenaCount, mappings i ≠ some 0)
    (hapart : ∀ i < frameArenaCount, ∀ j < frameArenaCount, i ≠ j → ∀ p q, mappings i = some p →
      mappings j = some q → Separate p (arenaSize configuredArenaSize) q (arenaSize configuredArenaSize)) :
    FrameRep f := by
  obtain ⟨hmapped, rfl⟩ := lgxFrameArenaInit_eq_some hinit
  obtain ⟨hmax, hlimit⟩ := maxSize_bounds configuredArenaSize configuredMaxSize
  refine ⟨fun i hi => ⟨?_, Nat.zero_le _, hmax, hlimit, by simp [newArena]⟩, fun i hi => ?_,
    fun i hi j hj hne c hc d hd => ?_⟩
  · refine Nat.pos_of_ne_zero fun hzero => hpos i hi ?_
    rw [hmapped i hi]
    exact congrArg some hzero
  · exact List.pairwise_singleton _ _
  · obtain rfl := List.mem_singleton.mp hc
    obtain rfl := List.mem_singleton.mp hd
    exact hapart i hi j hj hne _ _ (hmapped i hi) (hmapped j hj)

end LgxRuntime.FrameArena
