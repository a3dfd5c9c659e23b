import LgxRuntime.PersistentHeap.BuddyCoalescing

/-!
# When an allocation succeeds

`buddy_alloc` finds a block whenever there is one that is large enough, whatever its order, and a call that
returns `NULL` changes nothing: every exit is before the first write, or puts the block back.

There is less to find than the pool has: `buddy_init` makes one block of the largest order, 64 MB, of a
pool of 256 MB, and the other three quarters never become a block.
-/

namespace LgxRuntime.PersistentHeap

open Function (update update_self update_of_ne)
open FreeLists (taken)

/-! ## Completeness and atomicity -/

/-- Putting the block back restores the list and the header. -/
theorem takeBlock_of_none {b : Buddy} {order block size : ℕ} (hhead : b.freeLists order = some block)
    (hmarked : (b.block block).isFree = true) (hnone : (takeBlock b order block size).1 = none) :
    (takeBlock b order block size).2 = b := by
  unfold takeBlock at hnone ⊢
  simp only at hnone ⊢
  split at hnone
  · rename_i hrange
    rw [if_pos hrange]
    have hlists : update (update b.freeLists order (b.block block).next) order (some block) =
        b.freeLists := by
      rw [Function.update_idem, ← hhead, Function.update_eq_self]
    have hheader : (⟨(b.block block).next, (b.block block).order, true⟩ : BuddyBlock) = b.block block := by
      rw [← hmarked]
    simp only [Buddy.pushFree, Buddy.setFreeList, Buddy.setBlock, update_self, Function.update_idem,
      hlists, hheader, Function.update_eq_self]
  · cases hnone

namespace Rep

variable {b b' : Buddy} {free : ℕ → List ℕ} {S : Set ℕ} {size : ℕ}

/-- A call of `buddy_alloc` that returns `NULL` changes nothing. -/
theorem buddyAlloc_of_none (h : Rep b free S) (hnone : (buddyAlloc b size).1 = none) :
    (buddyAlloc b size).2 = b := by
  revert hnone
  unfold buddyAlloc
  split
  · exact fun _ => rfl
  split
  · exact fun _ => rfl
  simp only [if_neg (Nat.not_le.mpr (sizeToOrder_lt (size + buddyHeaderSize))), ge_iff_le]
  cases hhead : b.freeLists (sizeToOrder (size + buddyHeaderSize)) with
  | some block =>
      intro hnone
      obtain ⟨t, ht⟩ := h.exists_cons_of_freeLists hhead
      have hmem : block ∈ free (sizeToOrder (size + buddyHeaderSize)) := ht ▸ List.mem_cons_self ..
      exact takeBlock_of_none hhead (h.free_mem _ block hmem).2.1 hnone
  | none =>
      rcases h.buddySplit_spec (k := sizeToOrder (size + buddyHeaderSize)) with ⟨heq, -⟩ |
        ⟨a, b', free', S', heq, hsplit⟩
      · simp only [heq]
        exact fun _ => trivial
      · -- a block that was split is taken
        simp only [heq, hsplit.rep.takeBlock_of_fits hsplit.pair (fits_of_splitTo hsplit h)]
        intro hnone
        cases hnone

/-- A request of at most 64 MB with the header fits its order. -/
theorem le_orderToSize_of_le (hle : size ≤ 2 ^ 26) : size ≤ orderToSize (sizeToOrder size) := by
  rcases le_orderToSize_sizeToOrder size with hfits | htop
  · exact hfits
  · rw [htop, ← regionSize, regionSize_eq]
    exact hle

/-- `buddy_alloc` succeeds if and only if there is a free block that is large enough. -/
theorem buddyAlloc_isSome_iff (h : Rep b free S) (hpos : 0 < size)
    (hle : size + buddyHeaderSize ≤ 2 ^ 26) :
    (buddyAlloc b size).1.isSome ↔ ∃ k ≥ sizeToOrder (size + buddyHeaderSize), free k ≠ [] := by
  have hfits := le_orderToSize_of_le hle
  unfold buddyAlloc
  rw [if_neg (by omega), if_neg (by rw [sizeMax]; omega)]
  simp only [if_neg (Nat.not_le.mpr (sizeToOrder_lt (size + buddyHeaderSize))), ge_iff_le]
  cases hhead : b.freeLists (sizeToOrder (size + buddyHeaderSize)) with
  | some block =>
      obtain ⟨t, ht⟩ := h.exists_cons_of_freeLists hhead
      simp only [h.takeBlock_of_fits ht hfits, Option.isSome_some, true_iff]
      exact ⟨_, le_rfl, by simp [ht]⟩
  | none =>
      rcases h.buddySplit_spec (k := sizeToOrder (size + buddyHeaderSize)) with ⟨heq, hnil⟩ |
        ⟨a, b', free', S', heq, hsplit⟩
      · simp only [heq, Option.isSome_none, Bool.false_eq_true, false_iff, not_exists, not_and, not_not]
        intro k hk
        rcases Nat.lt_or_eq_of_le hk with hlt | rfl
        · exact hnil k hlt
        · exact h.free_eq_nil_of_freeLists hhead
      · simp only [heq, hsplit.rep.takeBlock_of_fits hsplit.pair hfits, Option.isSome_some, true_iff]
        obtain ⟨k, hk, hne⟩ := hsplit.source
        exact ⟨k, hk.le, hne⟩

end Rep

/-- A call that returns `NULL` leaves the lists, the headers and the counters as they were. -/
def Atomic (b : Buddy) : Prop :=
  ∀ size, (buddyAlloc b size).1 = none → (buddyAlloc b size).2 = b

/-- A request succeeds if and only if some free block has its order or a larger one. -/
def Complete (b : Buddy) (size : ℕ) : Prop :=
  (buddyAlloc b size).1.isSome ↔ ∃ k ≥ sizeToOrder (size + buddyHeaderSize), ∃ a, b.OnFreeList k a

/-- In every run `buddy_alloc` is complete for sizes other than 0, and atomic. -/
theorem complete_of_reachable {memory : ℕ} {r : BuddyRun} (h : BuddyReachable memory r) :
    (∀ size, 0 < size → size + buddyHeaderSize ≤ 2 ^ 26 → Complete r.buddy size) ∧ Atomic r.buddy := by
  obtain ⟨free, S, howned⟩ := h.owned
  refine ⟨fun size hpos hle => ?_, fun size => howned.rep.buddyAlloc_of_none⟩
  rw [Complete, howned.rep.buddyAlloc_isSome_iff hpos hle]
  refine exists_congr fun k => and_congr_right fun _ => ?_
  simp only [howned.rep.onFreeList_iff]
  constructor
  · exact List.exists_mem_of_ne_nil (free k)
  · rintro ⟨a, ha⟩
    exact List.ne_nil_of_mem ha

/-- The first allocation of a run. -/
theorem complete_after_first_alloc : ∃ r : BuddyRun, BuddyReachable 4096 r ∧
    r.live = [(4120, 5000)] ∧ (∀ size, 0 < size → size + buddyHeaderSize ≤ 2 ^ 26 →
      Complete r.buddy size) ∧ Atomic r.buddy := by
  have hresult : (buddyAlloc (buddyInit 4096 fun _ => ⟨none, 0, false⟩) 5000).1 = some 4120 := by
    decide +kernel
  have hreach := BuddyReachable.step (.init (fun _ => ⟨none, 0, false⟩) (by decide : 4096 ≠ 0))
    (.alloc _ 5000)
  refine ⟨_, hreach, ?_, complete_of_reachable hreach⟩
  simp only [hresult, grant]

/-- A request of size 0 is refused, although the initial block is free. -/
theorem not_complete_of_size_zero : ∃ r : BuddyRun, BuddyReachable 4096 r ∧
    0 + buddyHeaderSize ≤ 2 ^ 26 ∧ (buddyAlloc r.buddy 0).1 = none ∧
      r.buddy.OnFreeList (buddyNumOrders - 1) 4096 ∧ ¬ Complete r.buddy 0 := by
  let b := buddyInit 4096 fun _ => ⟨none, 0, false⟩
  have hreach : BuddyReachable 4096 ⟨b, []⟩ := .init (fun _ => ⟨none, 0, false⟩) (by decide)
  have hfree : b.OnFreeList (buddyNumOrders - 1) 4096 := ⟨[4096], ⟨rfl, rfl⟩, by simp⟩
  have hnone : (buddyAlloc b 0).1 = none := rfl
  refine ⟨_, hreach, by decide, hnone, hfree, fun hcomplete => ?_⟩
  have hsome := hcomplete.mpr ⟨_, by decide, _, hfree⟩
  rw [hnone] at hsome
  cases hsome

/-! ## Capacity -/

/-- The live pointers to blocks of the largest order. -/
def maxLive (r : BuddyRun) : List (ℕ × ℕ) :=
  r.live.filter fun p => sizeToOrder (p.2 + buddyHeaderSize) = buddyNumOrders - 1

/-- The blocks are as large as the pool, and as long as blocks of the largest order alone are live, and
fewer than four of them, there is another one. -/
structure Capacity (r : BuddyRun) : Prop where
  sum_size : ∀ blocks free, Partitioned r blocks free →
    ∑ a ∈ blocks, orderToSize (r.buddy.block a).order = r.buddy.totalSize
  next_max : maxLive r = r.live → (maxLive r).length < 4 → ∀ size, 0 < size →
    size + buddyHeaderSize ≤ 2 ^ 26 → sizeToOrder (size + buddyHeaderSize) = buddyNumOrders - 1 →
      (buddyAlloc r.buddy size).1.isSome

/-- As long as anything is live, there is no free block of the largest order. -/
theorem Owned.free_max_eq_nil {b : Buddy} {live : List (ℕ × ℕ)} {free : ℕ → List ℕ} {S : Set ℕ}
    (h : Owned b live free S) (hlive : live ≠ []) : free (buddyNumOrders - 1) = [] := by
  obtain ⟨⟨ptr, size⟩, hmem⟩ := List.exists_mem_of_ne_nil live hlive
  obtain ⟨a, ha, -, -, -⟩ := h.of_live ptr size hmem
  rw [List.eq_nil_iff_forall_not_mem]
  intro x hx
  obtain ⟨hxS, -, horder⟩ := h.rep.free_mem _ x hx
  obtain rfl : a = x := h.rep.tiling.eq_of_size_eq hxS ha.1 (by rw [horder])
  exact ha.2 _ hx

/-- In no state that a run reaches does the allocator have the capacity of its pool: its blocks are 64 MB of
the 256 MB, and a block of the largest order can only be had when nothing is live. -/
theorem not_capacity_of_reachable {memory : ℕ} {r : BuddyRun} (h : BuddyReachable memory r) :
    ¬ Capacity r ∧ r.buddy.totalSize = 2 ^ 28 ∧
      (∀ blocks free, Partitioned r blocks free →
        ∑ a ∈ blocks, orderToSize (r.buddy.block a).order = 2 ^ 26) ∧
      (r.live ≠ [] → ∀ size, sizeToOrder (size + buddyHeaderSize) = buddyNumOrders - 1 →
        (buddyAlloc r.buddy size).1 = none) := by
  obtain ⟨free, S, howned⟩ := h.owned
  have htotal : r.buddy.totalSize = 2 ^ 28 := howned.rep.pool
  refine ⟨fun hcapacity => ?_, htotal, fun _ _ hpart => hpart.sum_size, fun hlive size horder => ?_⟩
  · obtain ⟨-, blocks, free', hpart⟩ := exists_partitioned_of_reachable h
    have hsum := hcapacity.sum_size blocks free' hpart
    rw [hpart.sum_size, htotal] at hsum
    omega
  · have hnil := howned.free_max_eq_nil hlive
    have hhead : r.buddy.freeLists (buddyNumOrders - 1) = none := by
      have hl := (howned.rep.linked (buddyNumOrders - 1)).head_eq
      rwa [hnil] at hl
    unfold buddyAlloc
    split
    · rfl
    split
    · rfl
    have hsplit : buddySplit r.buddy (buddyNumOrders - 1) = (none, r.buddy) := by
      rw [buddySplit, if_neg (by decide), if_pos (by decide)]
    simp only [horder, hhead, hsplit]
    rw [if_neg (by decide)]

/-- After one allocation of the largest order, a second one fails. -/
theorem second_max_alloc_fails : ∃ r : BuddyRun, BuddyReachable 4096 r ∧
    r.live = [(4120, 2 ^ 26 - 24)] ∧ (buddyAlloc r.buddy (2 ^ 26 - 24)).1 = none ∧ ¬ Capacity r := by
  let b := buddyInit 4096 fun _ => ⟨none, 0, false⟩
  have hresult : (buddyAlloc b (2 ^ 26 - 24)).1 = some 4120 := by decide +kernel
  have hfails : (buddyAlloc (buddyAlloc b (2 ^ 26 - 24)).2 (2 ^ 26 - 24)).1 = none := by decide +kernel
  have hreach : BuddyReachable 4096 ⟨(buddyAlloc b (2 ^ 26 - 24)).2, [(4120, 2 ^ 26 - 24)]⟩ := by
    have hstep := BuddyReachable.step (.init (fun _ => ⟨none, 0, false⟩) (by decide : 4096 ≠ 0))
      (.alloc _ (2 ^ 26 - 24))
    simpa only [hresult, grant, b] using hstep
  refine ⟨_, hreach, rfl, hfails, fun hcapacity => ?_⟩
  have hnext := hcapacity.next_max (by decide +kernel) (by decide +kernel) (2 ^ 26 - 24) (by decide)
    (by decide) (by decide +kernel)
  rw [hfails] at hnext
  cases hnext

/-- The initial state has no capacity for the pool either. -/
theorem not_capacity_of_init : ∃ r : BuddyRun, BuddyReachable 4096 r ∧ r.live = [] ∧ ¬ Capacity r := by
  have hreach : BuddyReachable 4096 ⟨buddyInit 4096 fun _ => ⟨none, 0, false⟩, []⟩ :=
    .init (fun _ => ⟨none, 0, false⟩) (by decide)
  exact ⟨_, hreach, rfl, (not_capacity_of_reachable hreach).1⟩

end LgxRuntime.PersistentHeap
