import LgxRuntime.PersistentHeap.BuddyRun

/-!
# Coalescing is maximal

No two halves of one block are ever both free: `buddy_split` puts both halves of a block on a list, but
`buddy_alloc` takes one of them at once, and `buddy_free` goes on coalescing until the other half is not
free.  As the other half of a block always begins where a block begins (`Tiling.exists_buddy`), the initial
block is there again when nothing is live.
-/

namespace LgxRuntime.PersistentHeap

open Function (update update_self update_of_ne)
open FreeLists (taken)

/-- The block at `a` is on the free list of the order. -/
def Buddy.OnFreeList (b : Buddy) (order a : ℕ) : Prop :=
  ∃ l, Linked (fun x => (b.block x).next) (b.freeLists order) l ∧ a ∈ l

/-- The blocks at `a` and `a'` are the halves of one block: their offsets differ by the exclusive or with
the size of the order. -/
def Buddy.Halves (b : Buddy) (order a a' : ℕ) : Prop :=
  a' - b.memory = (a - b.memory) ^^^ orderToSize order

/-- No two halves of one block are on the lists. -/
def Maximal (b : Buddy) (free : ℕ → List ℕ) : Prop :=
  ∀ k < buddyNumOrders - 1, ∀ a ∈ free k, ∀ a' ∈ free k, ¬ b.Halves k a a'

theorem Rep.onFreeList_iff {b : Buddy} {free : ℕ → List ℕ} {S : Set ℕ} (h : Rep b free S) {k a : ℕ} :
    b.OnFreeList k a ↔ a ∈ free k := by
  constructor
  · rintro ⟨l, hl, ha⟩
    rwa [← hl.unique (h.linked k)]
  · exact fun ha => ⟨free k, h.linked k, ha⟩

/-- What the lists are does not depend on the blocks that the allocator represents. -/
theorem Rep.free_unique {b : Buddy} {free free' : ℕ → List ℕ} {S S' : Set ℕ} (h : Rep b free S)
    (h' : Rep b free' S') : free = free' :=
  funext fun k => (h.linked k).unique (h'.linked k)

theorem Buddy.not_halves_self (b : Buddy) (order a : ℕ) : ¬ b.Halves order a a := by
  intro h
  rw [Buddy.Halves] at h
  have hzero : orderToSize order = 0 :=
    calc orderToSize order = (a - b.memory) ^^^ ((a - b.memory) ^^^ orderToSize order) := by
          rw [← Nat.xor_assoc, Nat.xor_self, Nat.zero_xor]
      _ = (a - b.memory) ^^^ (a - b.memory) := by rw [← h]
      _ = 0 := Nat.xor_self _
  exact absurd hzero (orderToSize_pos order).ne'

theorem Buddy.Halves.symm {b : Buddy} {order a a' : ℕ} (h : b.Halves order a a') : b.Halves order a' a := by
  rw [Buddy.Halves] at h ⊢
  rw [h, Nat.xor_assoc, Nat.xor_self, Nat.xor_zero]

namespace Maximal

variable {b b' : Buddy} {free free' : ℕ → List ℕ} {S S' : Set ℕ} {a k : ℕ}

/-- Blocks leave the lists. -/
theorem mono (h : Maximal b free) (hmemory : b'.memory = b.memory)
    (hshrinks : ∀ j, ∀ x ∈ free' j, x ∈ free j) : Maximal b' free' := by
  intro j hj x hx x' hx' hhalves
  rw [Buddy.Halves, hmemory] at hhalves
  exact h j hj x (hshrinks j x hx) x' (hshrinks j x' hx') hhalves

/-- A block is split, and one of the two halves that are then on the list of order `k` is taken. -/
theorem splitTo (h : Maximal b free) (hsplit : Rep.SplitTo b b' free free' S S' k a) (hempty : free k = [])
    {b'' : Buddy} {free'' : ℕ → List ℕ} {S'' : Set ℕ} (hmemory : b''.memory = b.memory)
    (hshrinks : ∀ j, ∀ x ∈ free'' j, x ∈ free' j) (htaken : a ∈ taken free'' S'') :
    Maximal b'' free'' := by
  have hsingle : ∀ j < buddyNumOrders - 1, (∀ x ∈ free'' j, x ∈ free j) ∨ ∃ y, ∀ x ∈ free'' j, x = y := by
    intro j _
    rcases Nat.lt_trichotomy j k with hlt | rfl | hgt
    · refine Or.inl fun x hx => ?_
      rw [← hsplit.below j hlt]
      exact hshrinks j x hx
    · -- only the upper half is left
      refine Or.inr ⟨a + orderToSize j, fun x hx => ?_⟩
      have hpair := hshrinks j x hx
      rw [hsplit.pair, hempty] at hpair
      rcases List.mem_cons.mp hpair with rfl | hupper
      · exact absurd hx (htaken.2 j)
      · exact List.mem_singleton.mp hupper
    · rcases hsplit.above j hgt with habove | ⟨y, hy⟩
      · exact Or.inl fun x hx => habove x (hshrinks j x hx)
      · refine Or.inr ⟨y, fun x hx => ?_⟩
        have hx' := hshrinks j x hx
        rw [hy] at hx'
        exact List.mem_singleton.mp hx'
  intro j hj x hx x' hx' hhalves
  rcases hsingle j hj with hold | ⟨y, hy⟩
  · rw [Buddy.Halves, hmemory] at hhalves
    exact h j hj x (hold x hx) x' (hold x' hx') hhalves
  · rw [hy x hx, hy x' hx'] at hhalves
    exact b''.not_halves_self j y hhalves

/-- A block whose other half is not free is pushed on its list. -/
theorem pushFree (h : Maximal b free) (halone : Rep.Alone b free a) :
    Maximal (b.pushFree (b.block a).order a)
      (update free (b.block a).order (a :: free (b.block a).order)) := by
  intro j hj x hx x' hx' hhalves
  change b.Halves j x x' at hhalves
  by_cases hjk : j = (b.block a).order
  · subst hjk
    rw [update_self] at hx hx'
    rcases List.mem_cons.mp hx with rfl | hx
    · rcases List.mem_cons.mp hx' with rfl | hx'
      · exact b.not_halves_self _ _ hhalves
      · exact halone hj x' hx' hhalves
    · rcases List.mem_cons.mp hx' with rfl | hx'
      · exact halone hj x hx hhalves.symm
      · exact h _ hj x hx x' hx' hhalves
  · rw [update_of_ne hjk] at hx hx'
    exact h j hj x hx x' hx' hhalves

end Maximal

namespace Rep

variable {b b' : Buddy} {free free' : ℕ → List ℕ} {S S' : Set ℕ} {a k : ℕ}

/-- A request that fits the block at the head of its list gets it. -/
theorem takeBlock_of_fits {t : List ℕ} (h : Rep b free S) (hk : free k = a :: t) {size : ℕ}
    (hfits : size + buddyHeaderSize ≤ orderToSize k) :
    (takeBlock b k a size).1 = some (a + buddyHeaderSize) := by
  obtain ⟨haS, -, horder⟩ := h.free_mem k a (by simp [hk])
  have hle := h.memory_le a haS
  have hpool := h.block_le_pool haS
  have hwrap : wrap64 (a + buddyHeaderSize + size) ≤ a + buddyHeaderSize + size := Nat.mod_le _ _
  rw [horder] at hpool
  unfold takeBlock
  simp only [Buddy.setBlock_memory, Buddy.setFreeList_memory, Buddy.setBlock_totalSize,
    Buddy.setFreeList_totalSize]
  rw [if_neg (by omega)]

/-- Only the largest order is split for no request, and it is not split at all: a request for which a block
is split fits its order. -/
theorem fits_of_splitTo (hsplit : Rep.SplitTo b b' free free' S S' (sizeToOrder k) a) (h : Rep b free S) :
    k ≤ orderToSize (sizeToOrder k) := by
  refine (le_orderToSize_sizeToOrder k).resolve_right fun htop => ?_
  obtain ⟨j, hj, hne⟩ := hsplit.source
  exact hne (h.free_eq_nil (by omega))

/-- `buddy_alloc` leaves no two halves of a block free. -/
theorem buddyAlloc_maximal (h : Rep b free S) (hmax : Maximal b free) (size : ℕ) :
    ∃ free' S', Rep (buddyAlloc b size).2 free' S' ∧ Maximal (buddyAlloc b size).2 free' := by
  have hmemory := buddyAlloc_memory b size
  revert hmemory
  unfold buddyAlloc
  split
  · exact fun _ => ⟨free, S, h, hmax⟩
  split
  · exact fun _ => ⟨free, S, h, hmax⟩
  simp only [if_neg (Nat.not_le.mpr (sizeToOrder_lt (size + buddyHeaderSize))), ge_iff_le]
  intro hmemory
  cases hhead : b.freeLists (sizeToOrder (size + buddyHeaderSize)) with
  | some block =>
      obtain ⟨t, ht⟩ := h.exists_cons_of_freeLists hhead
      obtain ⟨free', hrep, hshrinks, -⟩ := h.takeBlock_spec ht size
      rw [hhead] at hmemory
      exact ⟨free', S, hrep, hmax.mono hmemory hshrinks⟩
  | none =>
      rw [hhead] at hmemory
      rcases h.buddySplit_spec (k := sizeToOrder (size + buddyHeaderSize)) with ⟨heq, -⟩ |
        ⟨a, b', free', S', heq, hsplit⟩
      · simp only [heq]
        exact ⟨free, S, h, hmax⟩
      · simp only [heq] at hmemory ⊢
        obtain ⟨free₂, hrep₂, hshrinks, hout⟩ := hsplit.rep.takeBlock_spec hsplit.pair size
        rw [hsplit.rep.takeBlock_of_fits hsplit.pair (fits_of_splitTo hsplit h)] at hout
        -- the half that was split off first is the one that is taken
        have htaken : a ∈ taken free₂ S' := by
          generalize hresult : some (a + buddyHeaderSize) = result at hout
          cases hout with
          | fail => cases hresult
          | success a' _ htaken =>
              obtain rfl : a = a' := by
                have := Option.some.inj hresult
                omega
              rw [htaken]
              exact Set.mem_insert _ _
        exact ⟨free₂, S', hrep₂,
          hmax.splitTo hsplit (h.free_eq_nil_of_freeLists hhead) hmemory hshrinks htaken⟩

/-- `buddy_free` leaves no two halves of a block free. -/
theorem buddyFree_maximal (h : Rep b free S) (hmax : Maximal b free) (ha : a ∈ taken free S)
    (hlive : (b.block a).isFree = false) (heq : buddyFree b (a + buddyHeaderSize) = some b') :
    ∃ free' S', Rep b' free' S' ∧ Maximal b' free' := by
  obtain ⟨m, b₃, free₃, S₃, heq', hrep, hmem, hmarked, -, -, hshrinks, halone⟩ := h.buddyFree_eq ha hlive
  obtain rfl := Option.some.inj (heq.symm.trans heq')
  have hmemory : (b₃.pushFree (b₃.block m).order m).memory = b.memory := buddyFree_memory heq'
  have hmax₃ : Maximal b₃ free₃ := hmax.mono hmemory hshrinks
  exact ⟨_, S₃, hrep.pushFree hmem hmarked rfl, hmax₃.pushFree halone⟩

end Rep

/-! ## Runs -/

/-- In every reachable state no two halves of one block are on the lists. -/
theorem BuddyReachable.maximal {memory : ℕ} {r : BuddyRun} (h : BuddyReachable memory r) :
    ∃ free S, Owned r.buddy r.live free S ∧ Maximal r.buddy free := by
  induction h with
  | init contents hmemory =>
      refine ⟨_, _, Owned.init hmemory contents, fun k hk a ha => ?_⟩
      rw [update_of_ne (by omega)] at ha
      cases ha
  | step hreach hstep ih =>
      obtain ⟨free, S, howned, hmax⟩ := ih
      obtain ⟨free', S', howned'⟩ := hstep.owned howned
      refine ⟨free', S', howned', ?_⟩
      cases hstep with
      | alloc size =>
          obtain ⟨free₂, S₂, hrep₂, hmax₂⟩ := howned.rep.buddyAlloc_maximal hmax size
          rwa [howned'.rep.free_unique hrep₂]
      | free ptr size b' hlive hfree =>
          obtain ⟨a, ha, rfl, hmarked, -⟩ := howned.of_live ptr size hlive
          obtain ⟨free₂, S₂, hrep₂, hmax₂⟩ := howned.rep.buddyFree_maximal hmax ha hmarked hfree
          rwa [howned'.rep.free_unique hrep₂]
      | write ptr size contents hlive hsame =>
          rw [howned'.rep.free_unique (howned.write hlive hsame).rep]
          exact hmax

section

variable {b : Buddy} {free : ℕ → List ℕ} {S : Set ℕ}

theorem Rep.mem_free_of_none_taken (h : Rep b free S) (hnone : taken free S = ∅) {x : ℕ} (hx : x ∈ S) :
    x ∈ free (b.block x).order := by
  by_contra hnot
  have hmem : x ∈ taken free S := by
    refine ⟨hx, fun k hk => hnot ?_⟩
    rwa [(h.free_mem k x hk).2.2]
  rw [hnone] at hmem
  exact hmem

/-- If all blocks are free, and no two halves of one block are, there is only the initial block. -/
theorem Rep.eq_initial (h : Rep b free S) (hmax : Maximal b free) (hnone : taken free S = ∅) {a : ℕ}
    (ha : a ∈ S) : (b.block a).order = buddyNumOrders - 1 := by
  have hfree := fun {x} => h.mem_free_of_none_taken hnone (x := x)
  have hpow : ∀ k, orderToSize k = 2 ^ (12 + k) := fun k => by rw [orderToSize_eq, Nat.pow_add]
  have htiling := h.tiling
  rw [regionSize, hpow] at htiling
  have hsize : orderToSize (b.block a).order = 2 ^ (12 + (buddyNumOrders - 1)) := by
    refine htiling.size_eq_of_apart (fun j _ => ⟨_, hpow _⟩) (fun x hx y hy hlt hsame => ?_) ha
    have horder : (b.block y).order = (b.block x).order := by
      rw [hpow, hpow] at hsame
      have := Nat.pow_right_injective le_rfl hsame
      omega
    have hx_lt : (b.block x).order < buddyNumOrders - 1 := by
      rw [hpow] at hlt
      have := (Nat.pow_lt_pow_iff_right (by omega : 1 < 2)).mp hlt
      omega
    exact hmax _ hx_lt x (hfree hx) y (horder ▸ hfree hy)
  rw [hpow] at hsize
  have := Nat.pow_right_injective le_rfl hsize
  omega

theorem Rep.eq_memory (h : Rep b free S) (hmax : Maximal b free) (hnone : taken free S = ∅) :
    S = {b.memory} := by
  obtain ⟨a, ha, hlow, -⟩ := h.tiling.cover 0 (orderToSize_pos _)
  obtain rfl : a = b.memory := by
    have := h.memory_le a ha
    omega
  refine Set.eq_singleton_iff_unique_mem.mpr ⟨ha, fun x hx => ?_⟩
  exact h.tiling.eq_of_size_eq ha hx (by rw [h.eq_initial hmax hnone ha])

/-- The list of the largest order holds it, and the others are empty. -/
theorem Rep.free_eq (h : Rep b free S) (hmax : Maximal b free) (hnone : taken free S = ∅) :
    free = update (fun _ => []) (buddyNumOrders - 1) [b.memory] := by
  have hS := h.eq_memory hmax hnone
  have hmemory : b.memory ∈ S := hS ▸ Set.mem_singleton _
  have hmem : b.memory ∈ free (buddyNumOrders - 1) :=
    h.eq_initial hmax hnone hmemory ▸ h.mem_free_of_none_taken hnone hmemory
  have hlists : ∀ k, ∀ x ∈ free k, k = buddyNumOrders - 1 ∧ x = b.memory := by
    intro k x hx
    obtain ⟨hxS, -, horder⟩ := h.free_mem k x hx
    refine ⟨horder.symm.trans (h.eq_initial hmax hnone hxS), ?_⟩
    rwa [hS] at hxS
  funext k
  by_cases hk : k = buddyNumOrders - 1
  · subst hk
    rw [update_self]
    refine List.perm_singleton.mp ((List.perm_ext_iff_of_nodup (h.linked _).nodup
      (List.nodup_singleton _)).mpr fun x => ?_)
    rw [List.mem_singleton]
    exact ⟨fun hx => (hlists _ x hx).2, fun hx => hx ▸ hmem⟩
  · rw [update_of_ne hk, List.eq_nil_iff_forall_not_mem]
    exact fun x hx => hk (hlists k x hx).1

end

/-- No two halves of one block are free, and when nothing is live, the free lists hold the initial block
alone. -/
structure FullyCoalesced (memory : ℕ) (r : BuddyRun) : Prop where
  apart : ∀ k < buddyNumOrders - 1, ∀ a a', r.buddy.OnFreeList k a → r.buddy.OnFreeList k a' →
    ¬ r.buddy.Halves k a a'
  initial : r.live = [] → r.buddy.freeLists = update (fun _ => none) (buddyNumOrders - 1) (some memory) ∧
    r.buddy.block memory = { next := none, order := buddyNumOrders - 1, isFree := true }

/-- In every run coalescing is maximal. -/
theorem fullyCoalesced_of_reachable {memory : ℕ} {r : BuddyRun} (h : BuddyReachable memory r) :
    FullyCoalesced memory r := by
  obtain ⟨free, S, howned, hmax⟩ := h.maximal
  have hrep := howned.rep
  have hmemory := h.memory_eq
  refine ⟨fun k hk a a' ha ha' => ?_, fun hlive => ?_⟩
  · exact hmax k hk a (hrep.onFreeList_iff.mp ha) a' (hrep.onFreeList_iff.mp ha')
  · have hnone : taken free S = ∅ := by
      refine Set.eq_empty_iff_forall_notMem.mpr fun a ha => ?_
      obtain ⟨size, hmem⟩ := howned.of_taken a ha
      rw [hlive] at hmem
      cases hmem
    have hfree := hrep.free_eq hmax hnone
    rw [hmemory] at hfree
    have htop : free (buddyNumOrders - 1) = [memory] := by rw [hfree, update_self]
    have hlinked := hrep.linked (buddyNumOrders - 1)
    rw [htop] at hlinked
    refine ⟨funext fun k => ?_, ?_⟩
    · by_cases hk : k = buddyNumOrders - 1
      · subst hk
        rw [update_self]
        exact hlinked.1
      · have hhead := (hrep.linked k).head_eq
        rw [hfree, update_of_ne hk] at hhead
        rwa [update_of_ne hk]
    · have hmem : memory ∈ free (buddyNumOrders - 1) := htop ▸ List.mem_singleton_self _
      obtain ⟨-, hmarked, horder⟩ := hrep.free_mem _ memory hmem
      have hnext : (r.buddy.block memory).next = none := hlinked.2
      cases hblock : r.buddy.block memory
      simp_all

/-- Two allocations, which are freed in the order in which they were made: the initial block is there
again. -/
theorem fullyCoalesced_after_two_frees : ∃ r : BuddyRun, BuddyReachable 4096 r ∧ r.live = [] ∧
    r.buddy.numFrees = 2 ∧ FullyCoalesced 4096 r := by
  let b₀ := buddyInit 4096 fun _ => ⟨none, 0, false⟩
  let b₁ := (buddyAlloc b₀ 5000).2
  let b₂ := (buddyAlloc b₁ 5000).2
  have hinit : BuddyReachable 4096 ⟨b₀, []⟩ := .init (fun _ => ⟨none, 0, false⟩) (by decide)
  have hfirst : BuddyReachable 4096 ⟨b₁, [(4120, 5000)]⟩ := by
    have hresult : (buddyAlloc b₀ 5000).1 = some 4120 := by decide +kernel
    have hstep := hinit.step (.alloc _ 5000)
    simpa only [hresult, grant] using hstep
  have hsecond : BuddyReachable 4096 ⟨b₂, [(12312, 5000), (4120, 5000)]⟩ := by
    have hresult : (buddyAlloc b₁ 5000).1 = some 12312 := by decide +kernel
    have hstep := hfirst.step (.alloc _ 5000)
    simpa only [hresult, grant] using hstep
  obtain ⟨b₃, hb₃⟩ : ∃ b₃, buddyFree b₂ 4120 = some b₃ :=
    Option.isSome_iff_exists.mp (by decide +kernel)
  obtain ⟨b₄, hb₄, hfrees⟩ : ∃ b₄, buddyFree b₃ 12312 = some b₄ ∧ b₄.numFrees = 2 := by
    have hresult : ((buddyFree b₂ 4120).bind fun b => buddyFree b 12312).map Buddy.numFrees = some 2 := by
      decide +kernel
    rw [hb₃] at hresult
    exact Option.map_eq_some_iff.mp hresult
  have hthird := hsecond.step (.free _ 4120 5000 b₃ (by simp) hb₃)
  have hlast := hthird.step (.free _ 12312 5000 b₄ (by simp) hb₄)
  exact ⟨_, hlast, by simp, hfrees, fullyCoalesced_of_reachable hlast⟩

end LgxRuntime.PersistentHeap
