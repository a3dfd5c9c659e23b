import LgxRuntime.PersistentHeap.BuddyInvariant
import Mathlib.Order.Interval.Finset.Nat
import Mathlib.Data.Set.Finite.Basic
import Mathlib.Data.Set.Lattice

/-!
# Runs of the persistent heap's buddy allocator

A run starts with `buddy_init` and goes on with calls of `buddy_alloc`, calls of `buddy_free` on live
pointers, and writes of the clients into their own payloads.  The list `live` of a run records the
pointers that are live and the sizes they were requested with.

`Owned` says that the taken blocks are exactly those of the live pointers.  Each of the three kinds of
steps keeps it (`Owned.alloc`, `Owned.release`, `Owned.write`), and
`exists_partitioned_of_reachable` reads off what it says about the region.
-/

namespace LgxRuntime.PersistentHeap

open Function (update update_self update_of_ne)
open FreeLists (taken)

/-- The live pointers after a call of `buddy_alloc` with the given result. -/
def grant (result : Option ℕ) (size : ℕ) (live : List (ℕ × ℕ)) : List (ℕ × ℕ) :=
  match result with
  | none => live
  | some ptr => (ptr, size) :: live

/-- The headers whose bytes meet the payload `[ptr, ptr + size)`, apart from the one right before it. -/
def payloadCells (ptr size : ℕ) : Set ℕ :=
  { x | ptr < x + buddyHeaderSize ∧ x < ptr + size }

/-! ## Ownership -/

/-- The taken blocks are those of the live pointers, marked as allocated, each of the order that was
computed for its request. -/
structure Owned (b : Buddy) (live : List (ℕ × ℕ)) (free : ℕ → List ℕ) (S : Set ℕ) : Prop where
  rep : Rep b free S
  nodup : (live.map Prod.fst).Nodup
  of_live : ∀ ptr size, (ptr, size) ∈ live → ∃ a ∈ taken free S, ptr = a + buddyHeaderSize ∧
    (b.block a).isFree = false ∧ (b.block a).order = sizeToOrder (size + buddyHeaderSize)
  of_taken : ∀ a ∈ taken free S, ∃ size, (a + buddyHeaderSize, size) ∈ live

namespace Owned

variable {b b' : Buddy} {live : List (ℕ × ℕ)} {free : ℕ → List ℕ} {S : Set ℕ} {ptr size : ℕ}

theorem init {memory : ℕ} (hmemory : memory ≠ 0) (contents : ℕ → BuddyBlock) :
    Owned (buddyInit memory contents) []
      (update (fun _ => []) (buddyNumOrders - 1) [memory]) {memory} := by
  have hblock : (buddyInit memory contents).block memory = ⟨none, buddyNumOrders - 1, true⟩ := by
    simp [buddyInit]
  have hmem : ∀ {k a}, a ∈ update (fun _ => []) (buddyNumOrders - 1) [memory] k →
      k = buddyNumOrders - 1 ∧ a = memory := by
    intro k a ha
    by_cases hk : k = buddyNumOrders - 1
    · subst hk
      exact ⟨rfl, by simpa using ha⟩
    · simp [update_of_ne hk] at ha
  refine ⟨?_, List.nodup_nil, by simp, fun a ha => ?_⟩
  · constructor
    · rfl
    · exact Nat.pos_of_ne_zero hmemory
    · intro k
      by_cases hk : k = buddyNumOrders - 1
      · subst hk
        rw [update_self]
        refine ⟨by simp [buddyInit], ?_⟩
        simp [hblock, Linked]
      · simp [buddyInit, update_of_ne hk]
    · intro k a ha
      obtain ⟨rfl, rfl⟩ := hmem ha
      exact ⟨rfl, by rw [hblock], by rw [hblock]⟩
    · rintro a rfl
      rw [hblock]
      decide
    · rintro a rfl
      exact le_rfl
    · refine Tiling.single ?_ ?_ (orderToSize_pos _)
      · exact Nat.sub_self memory
      · rw [hblock]
  · obtain ⟨rfl, hnot⟩ := ha
    exact absurd (by simp) (hnot (buddyNumOrders - 1))

/-- `buddy_alloc` hands out at most one block, which no live pointer had. -/
theorem alloc (h : Owned b live free S) (size : ℕ) :
    ∃ free' S', Owned (buddyAlloc b size).2 (grant (buddyAlloc b size).1 size live) free' S' := by
  obtain ⟨free', S', hrep, hout⟩ := h.rep.buddyAlloc_spec size
  refine ⟨free', S', ?_⟩
  generalize buddyAlloc b size = outcome at hrep hout ⊢
  obtain ⟨result, b'⟩ := outcome
  cases hout with
  | fail hsame =>
      refine ⟨hrep, h.nodup, fun ptr n hmem => ?_, fun a ha => ?_⟩
      · obtain ⟨a, ha, hptr, hfree, horder⟩ := h.of_live ptr n hmem
        exact ⟨a, hsame.taken_eq ▸ ha, hptr, by rwa [hsame.block_eq a ha],
          by rwa [hsame.block_eq a ha]⟩
      · rw [hsame.taken_eq] at ha
        exact h.of_taken a ha
  | success a hfresh htaken hblock hheader =>
      refine ⟨hrep, ?_, fun ptr n hmem => ?_, fun x hx => ?_⟩
      · refine List.nodup_cons.mpr ⟨fun hmem => ?_, h.nodup⟩
        obtain ⟨⟨ptr, n⟩, hlive, heq⟩ := List.mem_map.mp hmem
        obtain ⟨a', ha', hptr, -⟩ := h.of_live ptr n hlive
        obtain rfl : a' = a := by
          simp only at heq
          omega
        exact hfresh ha'
      · rcases List.mem_cons.mp hmem with heq | hmem
        · obtain ⟨rfl, rfl⟩ := Prod.mk.inj heq
          exact ⟨a, htaken ▸ Set.mem_insert _ _, rfl, by rw [hheader], by rw [hheader]⟩
        · obtain ⟨a', ha', hptr, hfree, horder⟩ := h.of_live ptr n hmem
          exact ⟨a', htaken ▸ Set.mem_insert_of_mem _ ha', hptr, by rwa [hblock a' ha'],
            by rwa [hblock a' ha']⟩
      · rw [htaken] at hx
        rcases Set.mem_insert_iff.mp hx with rfl | hx
        · exact ⟨size, List.mem_cons_self ..⟩
        · obtain ⟨n, hn⟩ := h.of_taken x hx
          exact ⟨n, List.mem_cons_of_mem _ hn⟩

theorem eq_of_fst_eq (h : Owned b live free S) {n m : ℕ} (hn : (ptr, n) ∈ live)
    (hm : (ptr, m) ∈ live) : n = m := by
  have := List.inj_on_of_nodup_map h.nodup hn hm rfl
  exact (Prod.mk.inj this).2

/-- `buddy_free` of a live pointer returns, and takes back the block of that pointer alone. -/
theorem release (h : Owned b live free S) (hlive : (ptr, size) ∈ live) :
    ∃ b' free' S', buddyFree b ptr = some b' ∧ Owned b' (live.erase (ptr, size)) free' S' := by
  obtain ⟨a, ha, rfl, hmarked, -⟩ := h.of_live ptr size hlive
  obtain ⟨b', free', S', heq, hrep, htaken, hblock⟩ := h.rep.buddyFree_spec ha hmarked
  have hnodup : live.Nodup := h.nodup.of_map
  refine ⟨b', free', S', heq, hrep, ?_, fun ptr n hmem => ?_, fun x hx => ?_⟩
  · exact h.nodup.sublist ((List.erase_sublist ..).map _)
  · rw [hnodup.mem_erase_iff] at hmem
    obtain ⟨a', ha', rfl, hfree, horder⟩ := h.of_live ptr n hmem.2
    have hne : a' ≠ a := by
      rintro rfl
      exact hmem.1 (by rw [h.eq_of_fst_eq hmem.2 hlive])
    refine ⟨a', ?_, rfl, by rwa [hblock a' ha' hne], by rwa [hblock a' ha' hne]⟩
    rw [htaken]
    exact ⟨ha', hne⟩
  · rw [htaken] at hx
    obtain ⟨n, hn⟩ := h.of_taken x hx.1
    refine ⟨n, ?_⟩
    rw [hnodup.mem_erase_iff]
    refine ⟨fun heq => hx.2 ?_, hn⟩
    have := (Prod.mk.inj heq).1
    simp only [Set.mem_singleton_iff]
    omega

/-- A payload meets no other block.  A request beyond 64 MB runs past the end of its block, but that
block is then the whole region. -/
theorem payload_apart (h : Owned b live free S) (hlive : (ptr, size) ∈ live) {x : ℕ} (hx : x ∈ S)
    (hne : ptr ≠ x + buddyHeaderSize) :
    ptr + size ≤ x ∨ x + orderToSize (b.block x).order ≤ ptr := by
  obtain ⟨a, ha, rfl, -, horder⟩ := h.of_live ptr size hlive
  have hle := h.rep.memory_le a ha.1
  have hle' := h.rep.memory_le x hx
  have hxa : x ≠ a := fun heq => hne (heq ▸ rfl)
  rcases le_orderToSize_sizeToOrder (size + buddyHeaderSize) with hfit | htop
  · have := h.rep.tiling.disjoint x hx a ha.1 hxa
    rw [← horder] at hfit
    omega
  · refine absurd (h.rep.tiling.eq_of_size_eq ha.1 hx ?_) hxa
    rw [horder, htop]

/-- A payload meets no header of a block. -/
theorem not_mem_payload (h : Owned b live free S) (hlive : (ptr, size) ∈ live) {x : ℕ} (hx : x ∈ S) :
    x ∉ payloadCells ptr size := by
  rintro ⟨hlow, hhigh⟩
  have hheader := buddyHeaderSize_le_orderToSize (b.block x).order
  by_cases hptr : ptr = x + buddyHeaderSize
  · omega
  · have := h.payload_apart hlive hx hptr
    omega

/-- Memory outside the headers of the blocks may change. -/
theorem congr (h : Owned b live free S) {contents : ℕ → BuddyBlock}
    (hkeep : ∀ x ∈ S, contents x = b.block x) : Owned { b with block := contents } live free S := by
  refine ⟨?_, h.nodup, fun p n hmem => ?_, h.of_taken⟩
  · exact h.rep.congr rfl rfl rfl (fun k x hx => hkeep x (h.rep.free_mem k x hx).1)
      fun x hx => by simp only [hkeep x hx]
  · obtain ⟨a, ha, hptr, hfree, horder⟩ := h.of_live p n hmem
    refine ⟨a, ha, hptr, ?_, ?_⟩ <;> simpa only [hkeep a ha.1]

/-- What a client writes into its payload changes no header of a block. -/
theorem write (h : Owned b live free S) (hlive : (ptr, size) ∈ live) {contents : ℕ → BuddyBlock}
    (hsame : ∀ x ∉ payloadCells ptr size, contents x = b.block x) :
    Owned { b with block := contents } live free S :=
  h.congr fun x hx => hsame x (h.not_mem_payload hlive hx)

end Owned

/-! ## The pool stays in place -/

theorem splitBlock_memory (b : Buddy) (order block : ℕ) :
    (splitBlock b order block).2.memory = b.memory := by
  unfold splitBlock
  simp only
  split <;> rfl

theorem buddySplit_memory (b : Buddy) (order : ℕ) : (buddySplit b order).2.memory = b.memory := by
  fun_induction buddySplit b order with
  | case1 => rfl
  | case2 => rfl
  | case3 => exact splitBlock_memory _ _ _
  | case4 _ _ _ _ b' hrec ih => rwa [hrec] at ih
  | case5 _ _ _ _ _ b' hrec _ ih => rwa [hrec] at ih
  | case6 _ _ _ _ _ b' hrec _ _ ih =>
      rw [hrec] at ih
      exact (splitBlock_memory _ _ _).trans ih

theorem takeBlock_memory (b : Buddy) (order block size : ℕ) :
    (takeBlock b order block size).2.memory = b.memory := by
  unfold takeBlock
  simp only
  split <;> rfl

theorem buddyAlloc_memory (b : Buddy) (size : ℕ) : (buddyAlloc b size).2.memory = b.memory := by
  have hsplit := buddySplit_memory b (sizeToOrder (size + buddyHeaderSize))
  fun_cases buddyAlloc b size with
  | case1 => rfl
  | case2 => rfl
  | case3 => rfl
  | case4 => exact takeBlock_memory _ _ _ _
  | case5 _ _ _ _ _ b' heq => rwa [heq] at hsplit
  | case6 _ _ _ _ _ _ b' heq =>
      rw [heq] at hsplit
      exact (takeBlock_memory _ _ _ _).trans hsplit

theorem unlinkFree_memory {b b' : Buddy} {order target fuel : ℕ} {link : Option ℕ}
    (h : unlinkFree b order target fuel link = some (some b')) : b'.memory = b.memory := by
  fun_induction unlinkFree b order target fuel link with
  | case1 => simp at h
  | case2 => simp at h
  | case3 _ link =>
      obtain rfl := Option.some.inj (Option.some.inj h)
      cases link <;> rfl
  | case4 _ _ _ _ _ ih => exact ih h

theorem buddyCoalesce_memory {b b' : Buddy} {fuel block merged : ℕ}
    (h : buddyCoalesce fuel b block = some (merged, b')) : b'.memory = b.memory := by
  fun_induction buddyCoalesce fuel b block with
  | case1 => simp at h
  | case5 => simp at h
  | case7 _ _ _ _ _ _ _ b₁ hunlink =>
      obtain ⟨-, rfl⟩ := Prod.mk.inj (Option.some.inj h)
      have hmemory := unlinkFree_memory hunlink
      exact hmemory
  | case8 _ _ _ _ _ _ _ b₁ hunlink _ _ _ _ ih =>
      have hmemory := unlinkFree_memory hunlink
      exact (ih h).trans hmemory
  | _ =>
      obtain ⟨-, rfl⟩ := Prod.mk.inj (Option.some.inj h)
      rfl

theorem buddyFree_memory {b b' : Buddy} {ptr : ℕ} (h : buddyFree b ptr = some b') :
    b'.memory = b.memory := by
  revert h
  fun_cases buddyFree b ptr with
  | case5 => simp
  | case6 _ _ _ _ _ _ _ merged b₃ hcoalesce =>
      intro h
      obtain rfl := Option.some.inj h
      have hmemory := buddyCoalesce_memory hcoalesce
      exact hmemory
  | case7 _ _ _ _ _ _ _ merged b₃ hcoalesce =>
      intro h
      obtain rfl := Option.some.inj h
      have hmemory := buddyCoalesce_memory hcoalesce
      exact hmemory
  | _ =>
      intro h
      obtain rfl := Option.some.inj h
      rfl

/-! ## Runs -/

/-- The allocator together with the live pointers and their requested sizes. -/
structure BuddyRun where
  buddy : Buddy
  live : List (ℕ × ℕ)

/-- One step of a run. -/
inductive BuddyStep : BuddyRun → BuddyRun → Prop
  | alloc (r : BuddyRun) (size : ℕ) :
      BuddyStep r
        ⟨(buddyAlloc r.buddy size).2, grant (buddyAlloc r.buddy size).1 size r.live⟩
  | free (r : BuddyRun) (ptr size : ℕ) (b' : Buddy) (hlive : (ptr, size) ∈ r.live)
      (hfree : buddyFree r.buddy ptr = some b') :
      BuddyStep r ⟨b', r.live.erase (ptr, size)⟩
  | write (r : BuddyRun) (ptr size : ℕ) (contents : ℕ → BuddyBlock) (hlive : (ptr, size) ∈ r.live)
      (hsame : ∀ x ∉ payloadCells ptr size, contents x = r.buddy.block x) :
      BuddyStep r ⟨{ r.buddy with block := contents }, r.live⟩

/-- The states of the runs that start with `buddy_init` on a pool at `memory`. -/
inductive BuddyReachable (memory : ℕ) : BuddyRun → Prop
  | init (contents : ℕ → BuddyBlock) (hmemory : memory ≠ 0) :
      BuddyReachable memory ⟨buddyInit memory contents, []⟩
  | step {r r' : BuddyRun} (hreach : BuddyReachable memory r) (hstep : BuddyStep r r') :
      BuddyReachable memory r'

theorem BuddyStep.owned {r r' : BuddyRun} {free : ℕ → List ℕ} {S : Set ℕ} (hstep : BuddyStep r r')
    (h : Owned r.buddy r.live free S) : ∃ free' S', Owned r'.buddy r'.live free' S' := by
  cases hstep with
  | alloc size => exact h.alloc size
  | free ptr size b' hlive hfree =>
      obtain ⟨b'', free', S', heq, howned⟩ := h.release hlive
      obtain rfl : b' = b'' := Option.some.inj (hfree.symm.trans heq)
      exact ⟨free', S', howned⟩
  | write ptr size contents hlive hsame => exact ⟨free, S, h.write hlive hsame⟩

theorem BuddyStep.memory_eq {r r' : BuddyRun} (hstep : BuddyStep r r') :
    r'.buddy.memory = r.buddy.memory := by
  cases hstep with
  | alloc size => exact buddyAlloc_memory r.buddy size
  | free ptr size b' hlive hfree => exact buddyFree_memory hfree
  | write ptr size contents hlive hsame => rfl

theorem BuddyReachable.memory_eq {memory : ℕ} {r : BuddyRun} (h : BuddyReachable memory r) :
    r.buddy.memory = memory := by
  induction h with
  | init contents hmemory => rfl
  | step _ hstep ih => exact hstep.memory_eq.trans ih

/-- In every reachable state the taken blocks are those of the live pointers. -/
theorem BuddyReachable.owned {memory : ℕ} {r : BuddyRun} (h : BuddyReachable memory r) :
    ∃ free S, Owned r.buddy r.live free S := by
  induction h with
  | init contents hmemory => exact ⟨_, _, Owned.init hmemory contents⟩
  | step _ hstep ih =>
      obtain ⟨free, S, howned⟩ := ih
      exact hstep.owned howned

/-! ## The partition of the region -/

/-- The bytes of the block at `a`. -/
def Buddy.span (b : Buddy) (a : ℕ) : Set ℕ :=
  Set.Ico a (a + orderToSize (b.block a).order)

/-- The blocks, free and allocated, partition the region; `free k` is what `free_lists[k]` holds. -/
structure Partitioned (r : BuddyRun) (blocks : Finset ℕ) (free : ℕ → List ℕ) : Prop where
  order_lt : ∀ a ∈ blocks, (r.buddy.block a).order < buddyNumOrders
  aligned : ∀ a ∈ blocks, orderToSize (r.buddy.block a).order ∣ a - r.buddy.memory
  disjoint : ∀ a ∈ blocks, ∀ a' ∈ blocks, a ≠ a' → r.buddy.span a ∩ r.buddy.span a' = ∅
  cover : ⋃ a ∈ blocks, r.buddy.span a = Set.Ico r.buddy.memory (r.buddy.memory + 2 ^ 26)
  sum_size : ∑ a ∈ blocks, orderToSize (r.buddy.block a).order = 2 ^ 26
  linked : ∀ k, Linked (fun a => (r.buddy.block a).next) (r.buddy.freeLists k) (free k)
  nodup : ∀ k, (free k).Nodup
  mem_free_iff : ∀ k a,
    a ∈ free k ↔ a ∈ blocks ∧ (r.buddy.block a).isFree = true ∧ (r.buddy.block a).order = k
  allocated_iff : ∀ a, a ∈ blocks ∧ (r.buddy.block a).isFree = false ↔
    ∃ size, (a + buddyHeaderSize, size) ∈ r.live
  free_returns : ∀ ptr size, (ptr, size) ∈ r.live → (buddyFree r.buddy ptr).isSome

theorem regionSize_eq : regionSize = 2 ^ 26 := by
  rw [regionSize, orderToSize_eq]
  simp [buddyNumOrders]

namespace Owned

variable {b : Buddy} {live : List (ℕ × ℕ)} {free : ℕ → List ℕ} {S : Set ℕ}

theorem finite (h : Owned b live free S) : S.Finite := by
  refine (Set.finite_Iio (b.memory + regionSize)).subset fun a ha => ?_
  have hinside := h.rep.tiling.inside a ha
  have hpos := h.rep.tiling.pos a ha
  have hle := h.rep.memory_le a ha
  simp only [Set.mem_Iio]
  omega

theorem mem_free_iff (h : Owned b live free S) {k a : ℕ} :
    a ∈ free k ↔ a ∈ S ∧ (b.block a).isFree = true ∧ (b.block a).order = k := by
  refine ⟨h.rep.free_mem k a, fun ⟨haS, hmarked, horder⟩ => ?_⟩
  by_contra hnot
  have ha : a ∈ taken free S := by
    refine ⟨haS, fun j hj => hnot ?_⟩
    have := (h.rep.free_mem j a hj).2.2
    rwa [show k = j by omega]
  obtain ⟨size, hlive⟩ := h.of_taken a ha
  obtain ⟨a', -, hptr, hfree, -⟩ := h.of_live _ _ hlive
  obtain rfl : a = a' := by omega
  rw [hmarked] at hfree
  exact Bool.noConfusion hfree

theorem allocated_iff (h : Owned b live free S) {a : ℕ} :
    a ∈ S ∧ (b.block a).isFree = false ↔ ∃ size, (a + buddyHeaderSize, size) ∈ live := by
  constructor
  · rintro ⟨haS, hmarked⟩
    refine h.of_taken a ⟨haS, fun k hk => ?_⟩
    rw [(h.rep.free_mem k a hk).2.1] at hmarked
    exact Bool.noConfusion hmarked
  · rintro ⟨size, hlive⟩
    obtain ⟨a', ha', hptr, hfree, -⟩ := h.of_live _ _ hlive
    obtain rfl : a = a' := by omega
    exact ⟨ha'.1, hfree⟩

theorem cover (h : Owned b live free S) :
    ⋃ a ∈ S, b.span a = Set.Ico b.memory (b.memory + regionSize) := by
  ext x
  simp only [Set.mem_iUnion, exists_prop, Buddy.span, Set.mem_Ico]
  constructor
  · rintro ⟨a, ha, hlow, hhigh⟩
    have hle := h.rep.memory_le a ha
    have hinside := h.rep.tiling.inside a ha
    omega
  · rintro ⟨hlow, hhigh⟩
    obtain ⟨a, ha, hle, hlt⟩ := h.rep.tiling.cover (x - b.memory) (by omega)
    have hmemory := h.rep.memory_le a ha
    exact ⟨a, ha, by omega, by omega⟩

theorem disjoint (h : Owned b live free S) {a a' : ℕ} (ha : a ∈ S) (ha' : a' ∈ S) (hne : a ≠ a') :
    b.span a ∩ b.span a' = ∅ := by
  refine Set.eq_empty_iff_forall_notMem.mpr fun x ⟨hx, hx'⟩ => hne ?_
  have hle := h.rep.memory_le a ha
  have hle' := h.rep.memory_le a' ha'
  simp only [Buddy.span, Set.mem_Ico] at hx hx'
  exact h.rep.tiling.eq_of_mem ha ha' (x := x - b.memory) ⟨by omega, by omega⟩ ⟨by omega, by omega⟩

end Owned

/-- In every reachable state the free blocks and the allocated blocks partition the 64 MB region. -/
theorem exists_partitioned_of_reachable {memory : ℕ} {r : BuddyRun} (h : BuddyReachable memory r) :
    r.buddy.memory = memory ∧ ∃ blocks free, Partitioned r blocks free := by
  obtain ⟨free, S, howned⟩ := h.owned
  obtain ⟨blocks, rfl⟩ : ∃ blocks : Finset ℕ, (blocks : Set ℕ) = S :=
    ⟨howned.finite.toFinset, howned.finite.coe_toFinset⟩
  refine ⟨h.memory_eq, blocks, free, ?_⟩
  constructor
  · exact howned.rep.order_lt
  · exact howned.rep.tiling.aligned
  · exact fun a ha a' ha' hne => howned.disjoint ha ha' hne
  · rw [← regionSize_eq]
    exact howned.cover
  · rw [← regionSize_eq]
    exact howned.rep.tiling.sum_size
  · exact howned.rep.linked
  · exact fun k => (howned.rep.linked k).nodup
  · exact fun k a => howned.mem_free_iff
  · exact fun a => howned.allocated_iff
  · intro ptr size hlive
    obtain ⟨b', -, -, heq, -⟩ := howned.release hlive
    simp [heq]

/-- One allocation of 5000 bytes, which splits the initial block down to order 1. -/
theorem partitioned_after_first_alloc :
    ∃ r : BuddyRun, BuddyReachable 4096 r ∧ r.live = [(4120, 5000)] ∧
      ∃ blocks free, Partitioned r blocks free := by
  have hresult : (buddyAlloc (buddyInit 4096 fun _ => ⟨none, 0, false⟩) 5000).1 = some 4120 := by
    decide +kernel
  have hreach := BuddyReachable.step (.init (fun _ => ⟨none, 0, false⟩) (by decide : 4096 ≠ 0))
    (.alloc _ 5000)
  refine ⟨_, hreach, ?_, (exists_partitioned_of_reachable hreach).2⟩
  simp only [hresult, grant]

end LgxRuntime.PersistentHeap
