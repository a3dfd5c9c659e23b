import LgxRuntime.GpuPool.BuddyOperations
import Mathlib.Data.Set.Finite.Basic
import Mathlib.Data.Set.Lattice
import Mathlib.Order.Interval.Finset.Nat

/-!
# Runs of the GPU pool's buddy allocator

A run starts with `buddy_init` and goes on with calls of `buddy_alloc` and calls of `buddy_free` on
live blocks.  A client holds a block through a handle that records the slot, the offset and the size
of the block when it was allocated; `realloc` may move the table at any growth, or fail.

`Owned` says that the taken slots are exactly those of the live handles and that the handles are still
true.  `partitioned_of_reachable` reads off what this says for a budget that is a power of two.
-/

namespace LgxRuntime.GpuPool

open FreeLists (taken)

/-- What a client knows of its block. -/
structure Handle where
  blockIndex : ℕ
  offset : ℕ
  size : ℕ
  deriving DecidableEq, Repr

/-- The handle that `lgx_gpu_alloc` makes for the block in slot `i`. -/
def makeHandle (a : Allocator) (i : ℕ) : Handle :=
  { blockIndex := i, offset := (a.allBlocks i).offset, size := (a.allBlocks i).size }

/-- The live handles after a call of `buddy_alloc` with the given result. -/
def grant (result : Option ℕ) (a : Allocator) (live : List Handle) : List Handle :=
  match result with
  | none => live
  | some i => makeHandle a i :: live

/-! ## Ownership -/

/-- The taken slots are those of the live handles, and every handle still describes its block. -/
structure Owned (m : ℕ) (a : Allocator) (live : List Handle) (free : ℕ → List ℕ) (dead : List ℕ)
    (S : Set ℕ) : Prop where
  rep : Rep m a free dead S
  marked : Marked a free S
  nodup : (live.map Handle.blockIndex).Nodup
  of_live : ∀ h ∈ live, h.blockIndex ∈ taken free S ∧ makeHandle a h.blockIndex = h
  of_taken : ∀ i ∈ taken free S, makeHandle a i ∈ live

theorem makeHandle_eq {a a' : Allocator} {i : ℕ} (h : a'.data i = a.data i) :
    makeHandle a' i = makeHandle a i := by
  have hoffset := congrArg BuddyBlock.offset h
  have hsize := congrArg BuddyBlock.size h
  simp only [makeHandle, Allocator.allBlocks_offset, Allocator.allBlocks_size, hoffset, hsize]

namespace Owned

variable {m : ℕ} {a a' : Allocator} {live : List Handle} {free : ℕ → List ℕ} {dead : List ℕ}
  {S : Set ℕ} {h : Handle}

open Function (update update_self update_of_ne) in
theorem init (size : ℕ) :
    Owned (sizeToLevel size) (buddyInit size) [] (update (fun _ => []) (sizeToLevel size) [0]) []
      {0} := by
  have hdata : (buddyInit size).data 0 = ⟨none, none, 0, size, true, sizeToLevel size⟩ := by
    simp [buddyInit, Allocator.data]
  have hmem : ∀ {l i}, i ∈ update (fun _ => []) (sizeToLevel size) [0] l →
      l = sizeToLevel size ∧ i = 0 := by
    intro l i hi
    by_cases hl : l = sizeToLevel size
    · subst hl
      exact ⟨rfl, by simpa using hi⟩
    · simp [update_of_ne hl] at hi
  have htaken : ∀ i, i ∉ taken (update (fun _ => []) (sizeToLevel size) [0]) {0} := by
    rintro i ⟨rfl, hnot⟩
    exact absurd (by simp) (hnot (sizeToLevel size))
  refine ⟨?_, fun i hi => absurd hi (htaken i), List.nodup_nil, by simp,
    fun i hi => absurd hi (htaken i)⟩
  constructor
  · exact sizeToLevel_lt size
  · refine ⟨fun l => ?_, fun j k x hj hk => (hmem hj).1.trans (hmem hk).1.symm⟩
    by_cases hl : l = sizeToLevel size
    · subst hl
      rw [update_self]
      refine ⟨by simp [buddyInit], ?_, ?_⟩
      · simp [buddyInit, Allocator.prev]
      · simp [buddyInit, Allocator.next]
    · simp [buddyInit, update_of_ne hl]
  · intro l i hi
    obtain ⟨rfl, rfl⟩ := hmem hi
    exact ⟨rfl, by rw [hdata], by rw [hdata]⟩
  · rfl
  · simp
  · intro i
    show i < 1 ↔ _
    simp
  · simp [buddyInit]
  · rintro i rfl
    rw [hdata]
  · rintro i rfl
    rw [hdata]
    exact Or.inr ⟨rfl, rfl⟩
  · refine Tiling.single ?_ ?_ (levelToSize_pos _)
    · rw [hdata]
    · rw [hdata]

/-- `buddy_alloc` returns, and hands out at most one block, which no live handle had. -/
theorem alloc (h : Owned m a live free dead S) (realloc : ℕ → Option Moved) (size alignment : ℕ) :
    ∃ result a' free' dead' S', buddyAlloc a realloc size alignment = some (result, a') ∧
      a'.totalSize = a.totalSize ∧ Owned m a' (grant result a' live) free' dead' S' := by
  obtain ⟨result, a', free', dead', S', heq, hrep, hout, -⟩ :=
    h.rep.buddyAlloc_spec h.marked realloc size alignment
  have hmarked := hout.marked h.marked
  refine ⟨result, a', free', dead', S', heq, ?_⟩
  cases hout with
  | fail hsame =>
      refine ⟨hsame.totalSize, hrep, hmarked, h.nodup, fun x hx => ?_, fun i hi => ?_⟩
      · obtain ⟨hT, hx⟩ := h.of_live x hx
        rw [hsame.taken_eq, makeHandle_eq (hsame.data_eq _ hT)]
        exact ⟨hT, hx⟩
      · rw [hsame.taken_eq] at hi
        rw [makeHandle_eq (hsame.data_eq i hi)]
        exact h.of_taken i hi
  | success i hfresh htaken htotal hdata hfree hlevel =>
      refine ⟨htotal, hrep, hmarked, ?_, fun x hx => ?_, fun x hx => ?_⟩
      · refine List.nodup_cons.mpr ⟨fun hmem => ?_, h.nodup⟩
        obtain ⟨x, hx, hxi⟩ := List.mem_map.mp hmem
        have hT := (h.of_live x hx).1
        rw [hxi] at hT
        exact hfresh hT
      · rcases List.mem_cons.mp hx with rfl | hx
        · exact ⟨htaken ▸ Set.mem_insert _ _, rfl⟩
        · obtain ⟨hT, hx⟩ := h.of_live x hx
          rw [htaken, makeHandle_eq (hdata _ hT)]
          exact ⟨Set.mem_insert_of_mem _ hT, hx⟩
      · rw [htaken] at hx
        rcases Set.mem_insert_iff.mp hx with rfl | hx
        · exact List.mem_cons_self ..
        · rw [makeHandle_eq (hdata x hx)]
          exact List.mem_cons_of_mem _ (h.of_taken x hx)

/-- `buddy_free` of a live block returns, and takes back that block alone. -/
theorem release (hO : Owned m a live free dead S) (hlive : h ∈ live) :
    ∃ a' free' dead' S', buddyFree a h.blockIndex = some a' ∧ a'.totalSize = a.totalSize ∧
      Owned m a' (live.erase h) free' dead' S' := by
  obtain ⟨hT, hhandle⟩ := hO.of_live h hlive
  obtain ⟨a', free', dead', S', heq, hrep, htotal, htaken, hdata⟩ :=
    hO.rep.buddyFree_spec hO.marked hT
  have hnodup : live.Nodup := hO.nodup.of_map
  have hmem : ∀ x, x ∈ taken free' S' ↔ x ∈ taken free S ∧ x ≠ h.blockIndex := by
    intro x
    rw [htaken]
    exact Iff.rfl
  refine ⟨a', free', dead', S', heq, htotal, hrep, fun i hi => ?_, ?_, fun x hx => ?_,
    fun i hi => ?_⟩
  · obtain ⟨hiT, hne⟩ := (hmem i).mp hi
    rw [hdata i hiT hne]
    exact hO.marked i hiT
  · exact hO.nodup.sublist ((List.erase_sublist ..).map _)
  · rw [hnodup.mem_erase_iff] at hx
    obtain ⟨hxT, hxh⟩ := hO.of_live x hx.2
    have hne : x.blockIndex ≠ h.blockIndex := by
      intro heq
      rw [heq, hhandle] at hxh
      exact hx.1 hxh.symm
    rw [hmem, makeHandle_eq (hdata _ hxT hne)]
    exact ⟨⟨hxT, hne⟩, hxh⟩
  · obtain ⟨hiT, hne⟩ := (hmem i).mp hi
    rw [hnodup.mem_erase_iff, makeHandle_eq (hdata i hiT hne)]
    refine ⟨fun heq => hne ?_, hO.of_taken i hiT⟩
    rw [← heq]
    rfl

theorem valid (hO : Owned m a live free dead S) : Valid m a ⟨free, dead, S⟩ :=
  ⟨hO.rep, hO.marked⟩

theorem isFree_iff (hO : Owned m a live free dead S) {l i : ℕ} :
    i ∈ free l ↔ i < a.numBlocks ∧ (a.allBlocks i).isFree = true ∧ (a.allBlocks i).level = l := by
  constructor
  · intro hi
    obtain ⟨hiS, hfree, hlevel⟩ := hO.rep.free_mem l i hi
    exact ⟨(hO.rep.slots i).mpr (Or.inl hiS), hfree, hlevel⟩
  · rintro ⟨hlt, hfree, hlevel⟩
    have hiS : i ∈ S := by
      refine ((hO.rep.slots i).mp hlt).resolve_right fun hdead => ?_
      rw [Allocator.allBlocks_isFree, (hO.rep.dead_mem i hdead).2] at hfree
      exact Bool.noConfusion hfree
    exact hO.valid.mem_free_iff.mpr ⟨hiS, hfree, hlevel⟩

theorem mem_iff (hO : Owned m a live free dead S) {i : ℕ} :
    i ∈ S ↔ i < a.numBlocks ∧ i ∉ dead := by
  rw [hO.rep.slots]
  constructor
  · exact fun hi => ⟨Or.inl hi, hO.rep.not_dead hi⟩
  · exact fun hi => hi.1.resolve_right hi.2

end Owned

/-! ## Runs -/

/-- The allocator together with the live handles. -/
structure BuddyRun where
  allocator : Allocator
  live : List Handle

/-- One step of a run. -/
inductive BuddyStep : BuddyRun → BuddyRun → Prop
  | alloc (r : BuddyRun) (realloc : ℕ → Option Moved) (size alignment : ℕ) (result : Option ℕ)
      (a' : Allocator) (hresult : buddyAlloc r.allocator realloc size alignment = some (result, a')) :
      BuddyStep r ⟨a', grant result a' r.live⟩
  | free (r : BuddyRun) (h : Handle) (a' : Allocator) (hlive : h ∈ r.live)
      (hresult : buddyFree r.allocator h.blockIndex = some a') :
      BuddyStep r ⟨a', r.live.erase h⟩

/-- The states of the runs that start with `buddy_init` on the given budget. -/
inductive BuddyReachable (budget : ℕ) : BuddyRun → Prop
  | init : BuddyReachable budget ⟨buddyInit budget, []⟩
  | step {r r' : BuddyRun} (hreach : BuddyReachable budget r) (hstep : BuddyStep r r') :
      BuddyReachable budget r'

theorem BuddyStep.owned {m : ℕ} {r r' : BuddyRun} {free : ℕ → List ℕ} {dead : List ℕ} {S : Set ℕ}
    (hstep : BuddyStep r r') (h : Owned m r.allocator r.live free dead S) :
    r'.allocator.totalSize = r.allocator.totalSize ∧
      ∃ free' dead' S', Owned m r'.allocator r'.live free' dead' S' := by
  cases hstep with
  | alloc realloc size alignment result a' hresult =>
      obtain ⟨result', a'', free', dead', S', heq, htotal, howned⟩ := h.alloc realloc size alignment
      obtain ⟨rfl, rfl⟩ := Prod.mk.inj (Option.some.inj (hresult.symm.trans heq))
      exact ⟨htotal, free', dead', S', howned⟩
  | free x a' hlive hresult =>
      obtain ⟨a'', free', dead', S', heq, htotal, howned⟩ := h.release hlive
      obtain rfl := Option.some.inj (hresult.symm.trans heq)
      exact ⟨htotal, free', dead', S', howned⟩

/-- In every reachable state the taken blocks are those of the live handles. -/
theorem BuddyReachable.owned {budget : ℕ} {r : BuddyRun} (h : BuddyReachable budget r) :
    r.allocator.totalSize = budget ∧
      ∃ free dead S, Owned (sizeToLevel budget) r.allocator r.live free dead S := by
  induction h with
  | init => exact ⟨rfl, _, _, _, Owned.init budget⟩
  | step _ hstep ih =>
      obtain ⟨htotal, free, dead, S, howned⟩ := ih
      obtain ⟨htotal', hexists⟩ := hstep.owned howned
      exact ⟨htotal'.trans htotal, hexists⟩

/-! ## The partition of the memory -/

/-- The entries of `all_blocks` that are not on the stack of dead slots. -/
def entries (a : Allocator) (dead : List ℕ) : Finset ℕ :=
  (Finset.range a.numBlocks).filter (· ∉ dead)

/-- The bytes of the block in slot `i`. -/
def Allocator.span (a : Allocator) (i : ℕ) : Set ℕ :=
  Set.Ico (a.allBlocks i).offset ((a.allBlocks i).offset + (a.allBlocks i).size)

/-- The entries that are not dead partition the memory; `free l` is what `free_lists[l]` holds, and
`dead` what the stack of dead slots holds. -/
structure Partitioned (r : BuddyRun) (free : ℕ → List ℕ) (dead : List ℕ) : Prop where
  capacity : r.allocator.numBlocks ≤ r.allocator.maxBlocks
  size_eq : ∀ i ∈ entries r.allocator dead,
    (r.allocator.allBlocks i).size = levelToSize (r.allocator.allBlocks i).level
  aligned : ∀ i ∈ entries r.allocator dead,
    (r.allocator.allBlocks i).size ∣ (r.allocator.allBlocks i).offset
  disjoint : ∀ i ∈ entries r.allocator dead, ∀ j ∈ entries r.allocator dead, i ≠ j →
    r.allocator.span i ∩ r.allocator.span j = ∅
  cover : ⋃ i ∈ entries r.allocator dead, r.allocator.span i = Set.Iio r.allocator.totalSize
  linked : ∀ l, DoublyLinked (fun i => (r.allocator.allBlocks i).next)
    (fun i => (r.allocator.allBlocks i).prev) none (r.allocator.freeLists l) (free l)
  nodup : ∀ l, (free l).Nodup
  mem_free_iff : ∀ l i, i ∈ free l ↔ i < r.allocator.numBlocks ∧
    (r.allocator.allBlocks i).isFree = true ∧ (r.allocator.allBlocks i).level = l
  deadLinked : Linked (fun i => (r.allocator.allBlocks i).next) r.allocator.deadBlocks dead
  dead_nodup : dead.Nodup
  dead_mem : ∀ i ∈ dead, i < r.allocator.numBlocks ∧ (r.allocator.allBlocks i).isFree = false
  of_live : ∀ h ∈ r.live, h.blockIndex ∈ entries r.allocator dead ∧
    (r.allocator.allBlocks h.blockIndex).isFree = false ∧
    (r.allocator.allBlocks h.blockIndex).offset = h.offset ∧
    (r.allocator.allBlocks h.blockIndex).size = h.size
  of_allocated : ∀ i ∈ entries r.allocator dead, (r.allocator.allBlocks i).isFree = false →
    ∃ h ∈ r.live, h.blockIndex = i
  alloc_returns : ∀ realloc size alignment,
    (buddyAlloc r.allocator realloc size alignment).isSome
  free_returns : ∀ h ∈ r.live, (buddyFree r.allocator h.blockIndex).isSome

/-- The powers of two between 256 B and 64 MB are the sizes of the levels. -/
theorem exists_levelToSize_of_pow {budget e : ℕ} (hpow : budget = 2 ^ e) (hmin : minBlockSize ≤ budget)
    (hmax : budget ≤ maxBlockSize) : ∃ m < numBuddyLevels, budget = levelToSize m := by
  subst hpow
  have hlow : 8 ≤ e := (Nat.pow_le_pow_iff_right (by omega : 1 < 2)).mp hmin
  have hhigh : e ≤ 26 := (Nat.pow_le_pow_iff_right (by omega : 1 < 2)).mp hmax
  refine ⟨e - 8, by unfold numBuddyLevels; omega, ?_⟩
  rw [levelToSize_eq, show (256 : ℕ) = 2 ^ 8 from rfl, ← Nat.pow_add, Nat.add_sub_cancel' hlow]

namespace Owned

variable {m : ℕ} {a : Allocator} {live : List Handle} {free : ℕ → List ℕ} {dead : List ℕ} {S : Set ℕ}

theorem coe_entries (h : Owned m a live free dead S) : (entries a dead : Set ℕ) = S := by
  ext i
  simp [entries, h.mem_iff]

theorem mem_entries (h : Owned m a live free dead S) {i : ℕ} : i ∈ entries a dead ↔ i ∈ S := by
  rw [← h.coe_entries, Finset.mem_coe]

/-- When the budget is the size of a level, the size field of every block is the size of its level. -/
theorem size_eq (h : Owned m a live free dead S) (htotal : a.totalSize = levelToSize m) {i : ℕ}
    (hi : i ∈ S) : (a.allBlocks i).size = levelToSize (a.allBlocks i).level := by
  rcases h.rep.size_eq i hi with ⟨-, hsize⟩ | ⟨hlevel, hsize⟩
  · exact hsize
  · exact hsize.trans (htotal.trans (by rw [← hlevel]; rfl))

theorem disjoint (h : Owned m a live free dead S) (htotal : a.totalSize = levelToSize m) {i j : ℕ}
    (hi : i ∈ S) (hj : j ∈ S) (hne : i ≠ j) : a.span i ∩ a.span j = ∅ := by
  refine Set.eq_empty_iff_forall_notMem.mpr fun x ⟨hxi, hxj⟩ => hne ?_
  simp only [Allocator.span, Set.mem_Ico, h.size_eq htotal hi] at hxi
  simp only [Allocator.span, Set.mem_Ico, h.size_eq htotal hj] at hxj
  exact h.rep.tiling.eq_of_mem hi hj hxi hxj

theorem cover (h : Owned m a live free dead S) (htotal : a.totalSize = levelToSize m) :
    ⋃ i ∈ S, a.span i = Set.Iio a.totalSize := by
  ext x
  simp only [Set.mem_iUnion, exists_prop, Allocator.span, Set.mem_Ico, Set.mem_Iio]
  constructor
  · rintro ⟨i, hi, -, hlt⟩
    rw [h.size_eq htotal hi] at hlt
    rw [htotal]
    exact hlt.trans_le (h.rep.tiling.inside i hi)
  · intro hx
    rw [htotal] at hx
    obtain ⟨i, hi, hle, hlt⟩ := h.rep.tiling.cover x hx
    refine ⟨i, hi, hle, ?_⟩
    rw [h.size_eq htotal hi]
    exact hlt

end Owned

/-- For every power-of-two budget between 256 B and 64 MB, in every reachable state, the table, the
free lists, the dead slots and the live handles agree, and the blocks partition the memory. -/
theorem partitioned_of_reachable {budget e : ℕ} (hpow : budget = 2 ^ e)
    (hmin : minBlockSize ≤ budget) (hmax : budget ≤ maxBlockSize) {r : BuddyRun}
    (h : BuddyReachable budget r) :
    r.allocator.totalSize = budget ∧ ∃ free dead, Partitioned r free dead := by
  obtain ⟨m, hm, hbudget⟩ := exists_levelToSize_of_pow hpow hmin hmax
  obtain ⟨htotal, free, dead, S, howned⟩ := h.owned
  rw [hbudget, sizeToLevel_levelToSize hm] at howned
  have htotal' : r.allocator.totalSize = levelToSize m := htotal.trans hbudget
  refine ⟨htotal, free, dead, ?_⟩
  constructor
  · exact howned.rep.capacity.2
  · exact fun i hi => howned.size_eq htotal' (howned.mem_entries.mp hi)
  · intro i hi
    rw [howned.size_eq htotal' (howned.mem_entries.mp hi)]
    exact howned.rep.tiling.aligned i (howned.mem_entries.mp hi)
  · exact fun i hi j hj hne => howned.disjoint htotal' (howned.mem_entries.mp hi)
      (howned.mem_entries.mp hj) hne
  · simp only [howned.mem_entries]
    exact howned.cover htotal'
  · exact howned.rep.family.linked
  · exact howned.rep.family.nodup
  · exact fun l i => howned.isFree_iff
  · exact howned.rep.deadLinked
  · exact howned.rep.deadLinked.nodup
  · exact fun i hi => ⟨(howned.rep.slots i).mpr (Or.inr hi), (howned.rep.dead_mem i hi).2⟩
  · intro x hx
    obtain ⟨hT, hhandle⟩ := howned.of_live x hx
    exact ⟨howned.mem_entries.mpr hT.1, howned.marked _ hT, congrArg Handle.offset hhandle,
      congrArg Handle.size hhandle⟩
  · intro i hi hallocated
    refine ⟨makeHandle r.allocator i, howned.of_taken i ⟨howned.mem_entries.mp hi, fun l hl => ?_⟩, rfl⟩
    have hfree := (howned.rep.free_mem l i hl).2.1
    rw [← Allocator.allBlocks_isFree, hallocated] at hfree
    exact Bool.noConfusion hfree
  · intro realloc size alignment
    obtain ⟨result, a', -, -, -, heq, -⟩ := howned.alloc realloc size alignment
    simp [heq]
  · intro x hx
    obtain ⟨a', -, -, -, heq, -⟩ := howned.release hx
    simp [heq]

/-- Two blocks of 256 B from a budget of 4 KB: the first one splits the initial block four times, and
the second one is the buddy of the first. -/
theorem partitioned_after_two_allocs : ∃ r : BuddyRun, BuddyReachable 4096 r ∧
    r.live = [⟨4, 256, 256⟩, ⟨0, 0, 256⟩] ∧ ∃ free dead, Partitioned r free dead := by
  have hrun : ((buddyAlloc (buddyInit 4096) (fun _ => none) 256 256).bind fun p =>
      (buddyAlloc p.2 (fun _ => none) 256 256).map fun q => grant q.1 q.2 (grant p.1 p.2 [])) =
        some [⟨4, 256, 256⟩, ⟨0, 0, 256⟩] := by
    decide +kernel
  obtain ⟨⟨result, a₁⟩, hfirst, hrun⟩ := Option.bind_eq_some_iff.mp hrun
  obtain ⟨⟨result', a₂⟩, hsecond, hlive⟩ := Option.map_eq_some_iff.mp hrun
  have hreach := (BuddyReachable.init.step (.alloc _ _ _ _ _ _ hfirst)).step (.alloc _ _ _ _ _ _ hsecond)
  exact ⟨_, hreach, hlive,
    (partitioned_of_reachable (e := 12) (by decide) (by decide) (by decide) hreach).2⟩

end LgxRuntime.GpuPool
