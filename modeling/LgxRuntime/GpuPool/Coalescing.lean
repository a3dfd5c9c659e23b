import LgxRuntime.GpuPool.SlotRecycling

/-!
# Coalescing is maximal as long as the table can grow

A split puts both halves of a block on a list, but the loop of `buddy_find_free_block` splits the lower one
again or leaves it to `buddy_alloc`; `buddy_free` goes on merging until the other half is not free.
Between the steps the block that is worked on is the only one that may have its other half beside it
(`Apart` with this block as `busy`).

If the table cannot grow in the middle of the loop, the two halves stay on the list; this is excluded here.
-/

namespace LgxRuntime.GpuPool

open FreeLists (taken)
open Allocator

theorem getBuddyOffset_getBuddyOffset (offset level : ℕ) :
    getBuddyOffset (getBuddyOffset offset level) level = offset := by
  rw [getBuddyOffset, getBuddyOffset, Nat.xor_assoc, Nat.xor_self, Nat.xor_zero]

theorem getBuddyOffset_ne (offset level : ℕ) : getBuddyOffset offset level ≠ offset := by
  intro h
  have hzero : levelToSize level = 0 :=
    calc levelToSize level = offset ^^^ (offset ^^^ levelToSize level) := by
          rw [← Nat.xor_assoc, Nat.xor_self, Nat.zero_xor]
      _ = offset ^^^ offset := congrArg (offset ^^^ ·) h
      _ = 0 := Nat.xor_self offset
  exact absurd hzero (levelToSize_pos level).ne'

/-- No two free blocks are the halves of one block, unless one of them is in `busy`. -/
def Apart (a : Allocator) (v : View) (busy : Set ℕ) : Prop :=
  ∀ l < numBuddyLevels - 1, ∀ i ∈ v.free l, ∀ j ∈ v.free l,
    (a.data j).offset = getBuddyOffset (a.data i).offset l → i ∈ busy ∨ j ∈ busy

namespace Apart

variable {m i : ℕ} {a a' : Allocator} {v v' : View} {busy : Set ℕ}

theorem mono {busy' : Set ℕ} (h : Apart a v busy) (hsub : busy ⊆ busy') : Apart a v busy' :=
  fun l hl x hx y hy hhalves => (h l hl x hx y hy hhalves).imp (@hsub x) (@hsub y)

/-- It is enough to look at two blocks that are not busy. -/
theorem of_forall
    (h : ∀ l < numBuddyLevels - 1, ∀ x ∈ v.free l, ∀ y ∈ v.free l, x ∉ busy → y ∉ busy →
      (a.data y).offset ≠ getBuddyOffset (a.data x).offset l) : Apart a v busy := by
  intro l hl x hx y hy hhalves
  by_contra hnot
  rw [not_or] at hnot
  exact h l hl x hx y hy hnot.1 hnot.2 hhalves

/-- Two blocks that are free as before are no halves now. -/
theorem offset_ne {x y l : ℕ} (h : Apart a v busy) (hl : l < numBuddyLevels - 1) (hx : x ∈ v.free l)
    (hy : y ∈ v.free l) (hxb : x ∉ busy) (hyb : y ∉ busy) (hdatax : a'.data x = a.data x)
    (hdatay : a'.data y = a.data y) : (a'.data y).offset ≠ getBuddyOffset (a'.data x).offset l := by
  rw [hdatax, hdatay]
  exact fun hhalves => (h l hl x hx y hy hhalves).elim hxb hyb

/-- A split of the busy block: the other half of the new block is the busy block itself. -/
theorem split {k j : ℕ} (h : Apart a v {i}) (hvalid : Valid m a v) (hvalid' : Valid m a' v')
    (hsplit : Split a a' v v' k i j) : Apart a' v' {i} := by
  obtain ⟨hi, -, hlevel⟩ := hvalid.rep.free_mem _ i hsplit.mem
  have hij : i ≠ j := fun hij => hsplit.fresh (hij ▸ hi)
  have hhalf : (a'.data i).offset = getBuddyOffset (a'.data j).offset k := by
    have hupper : (a'.data j).offset = getBuddyOffset (a'.data i).offset k := by
      have hpow : levelToSize k = 2 ^ (8 + k) := by rw [levelToSize_eq, Nat.pow_add]
      have halign := hvalid.rep.tiling.aligned i hi
      rw [hlevel, levelToSize_succ, hpow] at halign
      rw [hsplit.high, hsplit.low, getBuddyOffset, hpow]
      exact (xor_eq_add_of_dvd halign).symm
    rw [hupper, getBuddyOffset_getBuddyOffset]
  -- the other half of the new block is not some third one
  have hnew : ∀ x ∈ v'.free k, x ≠ i → (a'.data x).offset ≠ getBuddyOffset (a'.data j).offset k := by
    intro x hx hxi hoff
    have hxS := (hvalid'.rep.free_mem k x hx).1
    have hiS : i ∈ v'.blocks := (hvalid'.rep.free_mem k i (hsplit.mem_free hvalid hvalid')).1
    exact hxi (hvalid'.rep.tiling.off_injOn hxS hiS (hoff.trans hhalf.symm))
  refine of_forall fun l hl x hx y hy hxi hyi => ?_
  rw [Set.mem_singleton_iff] at hxi hyi
  have hxcases := (hsplit.mem_free_iff hvalid hvalid').mp hx
  have hycases := (hsplit.mem_free_iff hvalid hvalid').mp hy
  have hold : ∀ z, z ≠ i → z ∈ v.free l → a'.data z = a.data z :=
    fun z hz hmem => hsplit.other z (hvalid.rep.free_mem l z hmem).1 hz
  rcases hxcases with ⟨hxnew, rfl⟩ | ⟨-, hxold⟩
  · obtain rfl := hxnew.resolve_left hxi
    exact hnew y hy hyi
  rcases hycases with ⟨hynew, rfl⟩ | ⟨-, hyold⟩
  · obtain rfl := hynew.resolve_left hyi
    intro hoff
    refine hnew x hx hxi ?_
    rw [hoff, getBuddyOffset_getBuddyOffset]
  · exact h.offset_ne hl hxold hyold hxi hyi (hold x hxi hxold) (hold y hyi hyold)

/-- A merge of the busy block with another one. -/
theorem merge {k lo hi : ℕ} (h : Apart a v {i}) (hvalid : Valid m a v) (hvalid' : Valid m a' v')
    (hmerge : Merge a a' v v' k lo hi) (hself : i = lo ∨ i = hi) : Apart a' v' {lo} := by
  refine of_forall fun l hl x hx y hy hxlo hylo => ?_
  rw [Set.mem_singleton_iff] at hxlo hylo
  have hold : ∀ z, z ∈ v'.free l → z ≠ lo → z ∈ v.free l ∧ z ∉ ({i} : Set ℕ) ∧ a'.data z = a.data z := by
    intro z hz hzlo
    rcases (hmerge.mem_free_iff hvalid hvalid').mp hz with ⟨hlo, -⟩ | ⟨⟨-, hzhi⟩, hmem⟩
    · exact absurd hlo hzlo
    · refine ⟨hmem, ?_, hmerge.other z (hvalid.rep.free_mem l z hmem).1 hzlo hzhi⟩
      rw [Set.mem_singleton_iff]
      rcases hself with rfl | rfl
      · exact hzlo
      · exact hzhi
  obtain ⟨hxmem, hxi, hxdata⟩ := hold x hx hxlo
  obtain ⟨hymem, hyi, hydata⟩ := hold y hy hylo
  exact h.offset_ne hl hxmem hymem hxi hyi hxdata hydata

theorem splitChain {n n' : ℕ} {realloc : ℕ → Option Moved} (h : Apart a v {i}) (hvalid : Valid m a v)
    (hchain : SplitChain m realloc i a v n a' v' n') : Apart a' v' {i} := by
  induction hchain with
  | refl => exact h
  | step hsplit _ hvalid₁ _ ih => exact ih (h.split hvalid hvalid₁ hsplit) hvalid₁

theorem mergeChain {i' : ℕ} (h : Apart a v {i}) (hvalid : Valid m a v)
    (hchain : MergeChain m a v i a' v' i') : Apart a' v' {i'} := by
  induction hchain with
  | refl => exact h
  | step hmerge hself hvalid₁ _ ih => exact ih (h.merge hvalid hvalid₁ hmerge hself) hvalid₁

/-- The busy block is taken. -/
theorem take {l : ℕ} (h : Apart a v {i}) (hvalid : Valid m a v) (hvalid' : Valid m a' v')
    (htake : Take a a' v v' i l) : Apart a' v' ∅ := by
  refine of_forall fun l' hl x hx y hy _ _ => ?_
  obtain ⟨hxmem, hxi⟩ := (htake.mem_free_iff hvalid hvalid').mp hx
  obtain ⟨hymem, hyi⟩ := (htake.mem_free_iff hvalid hvalid').mp hy
  exact h.offset_ne hl hxmem hymem hxi hyi (htake.other x hxi) (htake.other y hyi)

/-- The block that is put back becomes the busy one. -/
theorem put (h : Apart a v ∅) (hvalid : Valid m a v) (hvalid' : Valid m a' v')
    (hput : Put a a' v v' i) : Apart a' v' {i} := by
  refine of_forall fun l hl x hx y hy hxi hyi => ?_
  rw [Set.mem_singleton_iff] at hxi hyi
  have hold : ∀ z, z ∈ v'.free l → z ≠ i → z ∈ v.free l := by
    intro z hz hzi
    rcases (hput.mem_free_iff hvalid hvalid').mp hz with ⟨heq, -⟩ | ⟨-, hmem⟩
    · exact absurd heq hzi
    · exact hmem
  exact h.offset_ne hl (hold x hx hxi) (hold y hy hyi) (Set.notMem_empty x) (Set.notMem_empty y)
    (hput.other x hxi) (hput.other y hyi)

/-- Coalescing ends when the busy block has no free buddy. -/
theorem done {k : ℕ} (h : Apart a v {i}) (hvalid : Valid m a v) (hi : i ∈ v.free k)
    (hend : k ≥ numBuddyLevels - 1 ∨ findBuddy a i = none) : Apart a v ∅ := by
  have hlevel := (hvalid.rep.free_mem k i hi).2.2
  have hnone : ∀ l < numBuddyLevels - 1, i ∈ v.free l → ∀ x ∈ v.free l,
      (a.data x).offset ≠ getBuddyOffset (a.data i).offset l := by
    intro l hl hil x hx hoff
    obtain rfl : l = k := ((hvalid.rep.free_mem l i hil).2.2).symm.trans hlevel
    obtain ⟨hxS, hfree, hxlevel⟩ := hvalid.mem_free_iff.mp hx
    have hsearch := List.find?_eq_none.mp (hend.resolve_left (by omega)) x
      (List.mem_range.mpr ((hvalid.rep.slots x).mpr (Or.inl hxS)))
    rw [allBlocks_level, allBlocks_offset, allBlocks_level, allBlocks_isFree, allBlocks_offset, hoff,
      hlevel, hxlevel, hfree] at hsearch
    simp at hsearch
  intro l hl x hx y hy hhalves
  rcases h l hl x hx y hy hhalves with rfl | rfl
  · exact absurd hhalves (hnone l hl hx y hy)
  · refine absurd ?_ (hnone l hl hy x hx)
    rw [hhalves, getBuddyOffset_getBuddyOffset]

end Apart

/-! ## What a call does -/

section

variable {m i size alignment : ℕ} {a a' : Allocator} {v v' : View} {realloc : ℕ → Option Moved}
  {result : Option ℕ}

/-- `buddy_alloc` leaves no two halves of a block free if the table can grow, and adds the size of the block
that it hands out to `allocated_bytes`. -/
theorem AllocSteps.apart (h : AllocSteps m realloc size alignment a v result a' v') (hvalid : Valid m a v)
    (hvalid' : Valid m a' v') (hgrows : ∀ k, (realloc k).isSome) (hapart : Apart a v ∅) :
    Apart a' v' ∅ ∧ a'.allocatedBytes =
      result.elim a.allocatedBytes fun i => wrap64 (a.allocatedBytes + (a'.allBlocks i).size) := by
  cases h with
  | refused => exact ⟨hapart, rfl⟩
  | failed _ _ hfound =>
      cases hfound with
      | @stuck l k _ _ _ _ _ _ _ _ _ hrealloc =>
          have hsome := hgrows (k + 1)
          rw [hrealloc] at hsome
          cases hsome
      | nothing => exact ⟨hapart, rfl⟩
  | @taken a₁ _ v₁ _ i _ _ hfound htake =>
      have hvalid₁ := hfound.valid hvalid
      have hbytes := hfound.allocatedBytes
      have hsize : (a'.allBlocks i).size = (a₁.data i).size := by rw [allBlocks_size, htake.self]
      refine ⟨?_, ?_⟩
      · cases hfound with
        | found _ _ _ hchain =>
            exact ((hapart.mono (Set.empty_subset {i})).splitChain hvalid hchain).take hvalid₁ hvalid' htake
      · rw [Option.elim_some, htake.allocatedBytes, hbytes, hsize]

/-- `buddy_free` leaves no two halves of a block free, and takes the size of the block away from
`allocated_bytes`. -/
theorem FreeSteps.apart (h : FreeSteps m a v i a' v') (hvalid : Valid m a v) (hapart : Apart a v ∅) :
    Apart a' v' ∅ ∧ a'.allocatedBytes = sub64 a.allocatedBytes (a.allBlocks i).size := by
  cases h with
  | intro hput hvalid₁ hchain hmem hend =>
      refine ⟨?_, hchain.allocatedBytes.trans hput.allocatedBytes⟩
      exact ((hapart.put hvalid hvalid₁ hput).mergeChain hvalid₁ hchain).done (hchain.valid hvalid₁) hmem hend

end

/-! ## Sizes of the live blocks -/

namespace Owned

variable {m : ℕ} {a : Allocator} {live : List Handle} {free : ℕ → List ℕ} {dead : List ℕ} {S : Set ℕ}

/-- The live blocks are not larger than the initial block, by its level or by its size. -/
theorem sum_size_le (h : Owned m a live free dead S) :
    (live.map Handle.size).sum ≤ max (levelToSize m) a.totalSize := by
  have hsum : (live.map Handle.size).sum =
      ∑ i ∈ (live.map Handle.blockIndex).toFinset, (a.allBlocks i).size := by
    rw [List.sum_toFinset _ h.nodup, List.map_map]
    congr 1
    refine List.map_congr_left fun x hx => ?_
    exact (congrArg Handle.size (h.of_live x hx).2).symm
  have hmem : ∀ i ∈ (live.map Handle.blockIndex).toFinset, i ∈ S := by
    intro i hi
    rw [List.mem_toFinset, List.mem_map] at hi
    obtain ⟨x, hx, rfl⟩ := hi
    exact (h.of_live x hx).1.1
  rw [hsum]
  by_cases htop : ∃ i ∈ S, (a.data i).level = m
  · -- a block of the initial level is the only one
    obtain ⟨i, hi, hlevel⟩ := htop
    have honly : ∀ x ∈ S, x = i := fun x hx => h.rep.tiling.eq_of_size_eq hi hx (by rw [hlevel])
    have hsize : (a.allBlocks i).size ≤ max (levelToSize m) a.totalSize := by
      rcases h.rep.size_eq i hi with ⟨-, hfield⟩ | ⟨-, hfield⟩
      · rw [allBlocks_size, hfield, hlevel]
        exact Nat.le_max_left ..
      · rw [allBlocks_size, hfield]
        exact Nat.le_max_right ..
    calc ∑ i ∈ (live.map Handle.blockIndex).toFinset, (a.allBlocks i).size
        ≤ ∑ i ∈ {i}, (a.allBlocks i).size :=
          Finset.sum_le_sum_of_subset fun x hx => Finset.mem_singleton.mpr (honly x (hmem x hx))
      _ ≤ max (levelToSize m) a.totalSize := by rwa [Finset.sum_singleton]
  · have hlevels : ∀ i ∈ S, (a.allBlocks i).size = levelToSize (a.allBlocks i).level := by
      intro i hi
      rcases h.rep.size_eq i hi with ⟨-, hfield⟩ | ⟨hlevel, -⟩
      · exact hfield
      · exact absurd ⟨i, hi, hlevel⟩ htop
    have htiling := h.rep.tiling
    rw [← h.coe_entries] at htiling
    calc ∑ i ∈ (live.map Handle.blockIndex).toFinset, (a.allBlocks i).size
        ≤ ∑ i ∈ entries a dead, (a.allBlocks i).size :=
          Finset.sum_le_sum_of_subset fun x hx => h.mem_entries.mpr (hmem x hx)
      _ = ∑ i ∈ entries a dead, levelToSize (a.allBlocks i).level :=
          Finset.sum_congr rfl fun i hi => hlevels i (h.mem_entries.mp hi)
      _ = levelToSize m := htiling.sum_size
      _ ≤ max (levelToSize m) a.totalSize := Nat.le_max_left ..

/-- If nothing is live and no two halves of a block are free, there is only the initial block, and it is
free. -/
theorem eq_initial (h : Owned m a [] free dead S) (hapart : Apart a ⟨free, dead, S⟩ ∅) :
    ∃ i, S = {i} ∧ (a.data i).offset = 0 ∧ (a.data i).level = m ∧ (a.data i).isFree = true := by
  have hlevel_lt := h.rep.level_lt
  have hpow : ∀ l, levelToSize l = 2 ^ (8 + l) := fun l => by rw [levelToSize_eq, Nat.pow_add]
  have hfree : ∀ i ∈ S, i ∈ free (a.data i).level := by
    intro i hi
    refine h.valid.mem_free_iff.mpr ⟨hi, ?_, rfl⟩
    by_contra hallocated
    have htaken := h.valid.mem_taken_iff.mpr ⟨hi, Bool.not_eq_true _ ▸ hallocated⟩
    exact absurd (h.of_taken i htaken) List.not_mem_nil
  have htiling := h.rep.tiling
  rw [hpow m] at htiling
  have hsize : ∀ i ∈ S, levelToSize (a.data i).level = 2 ^ (8 + m) := by
    intro i hi
    refine htiling.size_eq_of_apart (fun j _ => ⟨_, hpow _⟩) (fun x hx y hy hlt hsame hoff => ?_) hi
    have hlevel : (a.data y).level = (a.data x).level := by
      rw [hpow, hpow] at hsame
      have := Nat.pow_right_injective le_rfl hsame
      omega
    have hxm : (a.data x).level < numBuddyLevels - 1 := by
      rw [hpow] at hlt
      have := (Nat.pow_lt_pow_iff_right (by omega : 1 < 2)).mp hlt
      omega
    exact (hapart _ hxm x (hfree x hx) y (hlevel ▸ hfree y hy) hoff).elim id id
  obtain ⟨i, hi, hlow, -⟩ := htiling.cover 0 (Nat.two_pow_pos _)
  refine ⟨i, ?_, by omega, ?_, (h.rep.free_mem _ i (hfree i hi)).2.1⟩
  · ext x
    rw [Set.mem_singleton_iff]
    constructor
    · exact fun hx => htiling.eq_of_size_eq hi hx (hsize i hi)
    · rintro rfl
      exact hi
  · have heq := hsize i hi
    rw [hpow] at heq
    have := Nat.pow_right_injective le_rfl heq
    omega

end Owned

end LgxRuntime.GpuPool
