import LgxRuntime.PersistentHeap.Buddy
import LgxRuntime.Lib.FreeLists
import LgxRuntime.Lib.Linked
import LgxRuntime.Lib.Tiling

/-!
# The representation invariant of the persistent heap's buddy allocator

`Rep b free S` ties the pointers of the allocator to two pieces of ghost state: the set `S` of block
addresses and, for each order, the list `free k` of the blocks that `free_lists[k]` reaches.  The
blocks tile the 64 MB that `buddy_init` starts from, and the lists hold blocks that are marked free
and have the order of their list.  A block of `S` that is on no list is *taken*: it is in the hands
of a client, or of `buddy_free` while it coalesces.

Each operation is described by what it does to the taken blocks: `buddyAlloc_spec` adds one,
`buddyFree_spec` removes one, and the headers of all the others stay as they were.
-/

namespace LgxRuntime.PersistentHeap

open Function (update update_self update_of_ne)
open FreeLists (taken mem_taken_prepend ne_pair_iff taken_remove)

/-! ## Orders and sizes -/

theorem orderToSize_eq (order : ℕ) : orderToSize order = 2 ^ 12 * 2 ^ order := by
  rw [orderToSize, Nat.shiftLeft_eq, Nat.one_mul, Nat.pow_add]

theorem orderToSize_succ (order : ℕ) : orderToSize (order + 1) = 2 * orderToSize order := by
  rw [orderToSize_eq, orderToSize_eq, Nat.pow_succ]
  ring

theorem orderToSize_pos (order : ℕ) : 0 < orderToSize order := by
  rw [orderToSize_eq]
  exact Nat.mul_pos (by omega) (Nat.two_pow_pos order)

theorem orderToSize_le {j k : ℕ} (h : j ≤ k) : orderToSize j ≤ orderToSize k := by
  rw [orderToSize_eq, orderToSize_eq]
  exact Nat.mul_le_mul_left _ (Nat.pow_le_pow_right (by omega) h)

theorem buddyHeaderSize_le_orderToSize (order : ℕ) : buddyHeaderSize ≤ orderToSize order := by
  have hpos : 0 < 2 ^ order := Nat.two_pow_pos order
  rw [orderToSize_eq, buddyHeaderSize]
  omega

theorem sizeToOrder_lt (size : ℕ) : sizeToOrder size < buddyNumOrders := by
  unfold sizeToOrder buddyNumOrders
  split
  · omega
  · exact Nat.lt_succ_of_le (fitLevel_le (by omega) (2 ^ 12))

/-- A request of at most 64 MB fits its order; a larger one is clamped to the largest order. -/
theorem le_orderToSize_sizeToOrder (size : ℕ) :
    size ≤ orderToSize (sizeToOrder size) ∨ sizeToOrder size = buddyNumOrders - 1 := by
  unfold sizeToOrder buddyNumOrders
  split
  · left
    rw [orderToSize_eq]
    omega
  · by_cases hsize : size ≤ 2 ^ 12 * 2 ^ 14
    · left
      rw [orderToSize_eq]
      exact @le_fitLevel 14 size (2 ^ 12) 0 hsize
    · right
      exact @fitLevel_eq_top 14 size (2 ^ 12) 0 (by omega) (by omega)

/-! ## The invariant -/

/-- The size of the region that the allocator manages: one block of the largest order. -/
abbrev regionSize : ℕ :=
  orderToSize (buddyNumOrders - 1)

/-- The allocator `b` represents the blocks `S`, those of `free k` being on the free list of order
`k`. -/
structure Rep (b : Buddy) (free : ℕ → List ℕ) (S : Set ℕ) : Prop where
  pool : b.totalSize = buddyPoolSize
  memory_pos : 0 < b.memory
  linked : ∀ k, Linked (fun a => (b.block a).next) (b.freeLists k) (free k)
  free_mem : ∀ k, ∀ a ∈ free k, a ∈ S ∧ (b.block a).isFree = true ∧ (b.block a).order = k
  order_lt : ∀ a ∈ S, (b.block a).order < buddyNumOrders
  memory_le : ∀ a ∈ S, b.memory ≤ a
  tiling : Tiling S (fun a => a - b.memory) (fun a => orderToSize (b.block a).order) regionSize

namespace Rep

variable {b b' : Buddy} {free : ℕ → List ℕ} {S : Set ℕ} {a : ℕ} {k : ℕ}

theorem not_mem_of_ne (h : Rep b free S) (ha : a ∈ free k) {j : ℕ} (hne : j ≠ k) : a ∉ free j := by
  intro hj
  exact hne ((h.free_mem j a hj).2.2.symm.trans (h.free_mem k a ha).2.2)

/-- Headers of taken blocks, and memory outside the blocks, may change as long as orders stay. -/
theorem congr (h : Rep b free S) (hmemory : b'.memory = b.memory)
    (htotal : b'.totalSize = b.totalSize) (hlists : b'.freeLists = b.freeLists)
    (hfree : ∀ k, ∀ a ∈ free k, b'.block a = b.block a)
    (horder : ∀ a ∈ S, (b'.block a).order = (b.block a).order) : Rep b' free S where
  pool := htotal.trans h.pool
  memory_pos := by
    rw [hmemory]
    exact h.memory_pos
  linked := fun k => by
    rw [hlists]
    exact (h.linked k).congr fun x hx => by rw [hfree k x hx]
  free_mem := fun k x hx => by
    rw [hfree k x hx]
    exact h.free_mem k x hx
  order_lt := fun x hx => by
    rw [horder x hx]
    exact h.order_lt x hx
  memory_le := fun x hx => by
    rw [hmemory]
    exact h.memory_le x hx
  tiling := h.tiling.congr (fun x _ => by rw [hmemory]) fun x hx => by rw [horder x hx]

/-- The header of a taken block is rewritten, its order kept. -/
theorem setBlock (h : Rep b free S) (ha : ∀ k, a ∉ free k) (header : BuddyBlock)
    (horder : header.order = (b.block a).order) : Rep (b.setBlock a header) free S := by
  refine h.congr rfl rfl rfl (fun k x hx => ?_) fun x hx => ?_
  · have hne : x ≠ a := fun heq => ha k (heq ▸ hx)
    simp [update_of_ne hne]
  · by_cases hxa : x = a
    · subst hxa
      simpa using horder
    · simp [update_of_ne hxa]

/-- The head of a free list is unlinked. -/
theorem pop {t : List ℕ} (h : Rep b free S) (hk : free k = a :: t) :
    Rep (b.setFreeList k (b.block a).next) (update free k t) S where
  pool := h.pool
  memory_pos := h.memory_pos
  linked := fun j => by
    by_cases hj : j = k
    · subst hj
      have hl := h.linked j
      rw [hk] at hl
      simpa using hl.2
    · simpa [update_of_ne hj] using h.linked j
  free_mem := fun j x hx => by
    refine h.free_mem j x ?_
    by_cases hj : j = k
    · subst hj
      rw [hk]
      exact List.mem_cons_of_mem _ (by simpa using hx)
    · simpa [update_of_ne hj] using hx
  order_lt := h.order_lt
  memory_le := h.memory_le
  tiling := h.tiling

/-- A taken block that is marked free is pushed on the list of its order. -/
theorem pushFree (h : Rep b free S) (ha : a ∈ taken free S) (hfree : (b.block a).isFree = true)
    (horder : (b.block a).order = k) :
    Rep (b.pushFree k a) (update free k (a :: free k)) S := by
  have hmid : Rep (b.setBlock a { b.block a with next := b.freeLists k }) free S :=
    h.setBlock ha.2 _ rfl
  constructor
  · exact hmid.pool
  · exact hmid.memory_pos
  · intro j
    by_cases hj : j = k
    · subst hj
      have hl := hmid.linked j
      simp only [Buddy.pushFree, Buddy.setFreeList_freeLists, Buddy.setFreeList_block,
        Buddy.setBlock_freeLists, update_self] at hl ⊢
      exact ⟨rfl, by simpa using hl⟩
    · simpa [Buddy.pushFree, update_of_ne hj] using hmid.linked j
  · intro j x hx
    by_cases hj : j = k
    · subst hj
      rw [update_self] at hx
      rcases List.mem_cons.mp hx with rfl | hx
      · simpa [Buddy.pushFree] using ⟨ha.1, hfree, horder⟩
      · exact hmid.free_mem j x hx
    · rw [update_of_ne hj] at hx
      exact hmid.free_mem j x hx
  · exact hmid.order_lt
  · exact hmid.memory_le
  · exact hmid.tiling

/-! ### Splitting -/

/-- The upper half of a block is not the address of a block. -/
theorem upper_half_not_mem (h : Rep b free S) (ha : a ∈ S) {half : ℕ}
    (hsize : orderToSize (b.block a).order = 2 * half) : a + half ∉ S := by
  intro hmem
  have hpos := orderToSize_pos (b.block a).order
  have hle := h.memory_le a ha
  have hsame : a + half = a := by
    refine h.tiling.eq_of_mem hmem ha (x := a + half - b.memory) ⟨le_rfl, ?_⟩ ⟨?_, ?_⟩
    · have := h.tiling.pos _ hmem
      omega
    · show a - b.memory ≤ _
      omega
    · show _ < a - b.memory + orderToSize (b.block a).order
      omega
  omega

/-- A taken block of order `k + 1` is replaced by its two halves, at the front of the list of order
`k`. -/
theorem addHalves (h : Rep b free S) (ha : a ∈ taken free S) (horder : (b.block a).order = k + 1) :
    Rep (PersistentHeap.addHalves b k a) (update free k (a :: (a + orderToSize k) :: free k))
      (insert (a + orderToSize k) S) := by
  set half := orderToSize k with hhalf
  have hsize : orderToSize (b.block a).order = 2 * half := by rw [horder, orderToSize_succ]
  have hnew : a + half ∉ S := h.upper_half_not_mem ha.1 hsize
  have hne : a + half ≠ a := fun heq => hnew (heq.symm ▸ ha.1)
  have hle := h.memory_le a ha.1
  have hlt : k < buddyNumOrders := by
    have := h.order_lt a ha.1
    omega
  have hother : ∀ x ∈ S, x ≠ a → (PersistentHeap.addHalves b k a).block x = b.block x := by
    intro x hx hxa
    have hxnew : x ≠ a + half := fun heq => hnew (heq ▸ hx)
    simp [PersistentHeap.addHalves, ← hhalf, update_of_ne hxa,
      update_of_ne hxnew]
  have hlow : (PersistentHeap.addHalves b k a).block a = ⟨some (a + half), k, true⟩ := by
    simp [PersistentHeap.addHalves, ← hhalf,
      update_of_ne hne.symm]
  have hhigh : (PersistentHeap.addHalves b k a).block (a + half) = ⟨b.freeLists k, k, true⟩ := by
    simp [PersistentHeap.addHalves, ← hhalf]
  have hfree : ∀ j, ∀ x ∈ free j, (PersistentHeap.addHalves b k a).block x = b.block x :=
    fun j x hx => hother x (h.free_mem j x hx).1 fun heq => ha.2 j (heq ▸ hx)
  have hold : ∀ j, Linked (fun x => ((PersistentHeap.addHalves b k a).block x).next)
      (b.freeLists j) (free j) :=
    fun j => (h.linked j).congr fun x hx => by rw [hfree j x hx]
  constructor
  · exact h.pool
  · exact h.memory_pos
  · intro j
    by_cases hj : j = k
    · subst hj
      rw [update_self]
      refine ⟨by simp [PersistentHeap.addHalves], ?_⟩
      simp only [hlow]
      refine ⟨rfl, ?_⟩
      simp only [hhigh]
      exact hold j
    · rw [update_of_ne hj]
      have hlists : (PersistentHeap.addHalves b k a).freeLists j = b.freeLists j := by
        simp [PersistentHeap.addHalves, update_of_ne hj]
      rw [hlists]
      exact hold j
  · intro j x hx
    by_cases hj : j = k
    · subst hj
      rw [update_self, List.mem_cons, List.mem_cons] at hx
      rcases hx with rfl | rfl | hx
      · exact ⟨Set.mem_insert_of_mem _ ha.1, by rw [hlow], by rw [hlow]⟩
      · exact ⟨Set.mem_insert _ _, by rw [hhigh], by rw [hhigh]⟩
      · rw [hfree j x hx]
        exact ⟨Set.mem_insert_of_mem _ (h.free_mem j x hx).1, (h.free_mem j x hx).2⟩
    · rw [update_of_ne hj] at hx
      rw [hfree j x hx]
      exact ⟨Set.mem_insert_of_mem _ (h.free_mem j x hx).1, (h.free_mem j x hx).2⟩
  · intro x hx
    by_cases hxa : x = a
    · rw [hxa, hlow]
      exact hlt
    · rcases Set.mem_insert_iff.mp hx with rfl | hx
      · rw [hhigh]
        exact hlt
      · rw [hother x hx hxa]
        exact h.order_lt x hx
  · intro x hx
    rcases Set.mem_insert_iff.mp hx with rfl | hx
    · exact hle.trans (Nat.le_add_right _ _)
    · exact h.memory_le x hx
  · refine h.tiling.split ha.1 hnew hsize (fun x _ => rfl) ?_ (by rw [hlow]) (by rw [hhigh])
      fun x hx hxa => by rw [hother x hx hxa]
    show a + half - b.memory = a - b.memory + half
    omega

/-- A block of order at most 14 ends inside the pool. -/
theorem block_le_pool (h : Rep b free S) (ha : a ∈ S) :
    a + orderToSize (b.block a).order ≤ b.memory + b.totalSize := by
  have hle := h.memory_le a ha
  have hinside : a - b.memory + orderToSize (b.block a).order ≤ regionSize := h.tiling.inside a ha
  have hregion : regionSize ≤ b.totalSize := by
    rw [h.pool, regionSize, orderToSize_eq]
    simp [buddyNumOrders, buddyPoolSize]
  omega

/-- What a change of the free lists leaves alone: the taken blocks and their headers. -/
structure SameTaken (b b' : Buddy) (free free' : ℕ → List ℕ) (S S' : Set ℕ) : Prop where
  taken_eq : taken free' S' = taken free S
  block_eq : ∀ x ∈ taken free S, b'.block x = b.block x

theorem SameTaken.trans {b'' : Buddy} {free' free'' : ℕ → List ℕ} {S' S'' : Set ℕ}
    (h : SameTaken b b' free free' S S') (h' : SameTaken b' b'' free' free'' S' S'') :
    SameTaken b b'' free free'' S S'' := by
  refine ⟨h'.taken_eq.trans h.taken_eq, fun x hx => ?_⟩
  rw [h'.block_eq x (by rwa [h.taken_eq]), h.block_eq x hx]

/-- Taking a block off its free list makes it taken. -/
theorem remove_taken {l₁ l₂ : List ℕ} (h : Rep b free S) (hk : free k = l₁ ++ a :: l₂) :
    taken (update free k (l₁ ++ l₂)) S = insert a (taken free S) := by
  have hafree : a ∈ free k := by simp [hk]
  have hnodup := (h.linked k).nodup
  rw [hk] at hnodup
  have hnot : a ∉ l₁ ++ l₂ := by
    have := (List.nodup_middle.mp hnodup)
    exact (List.nodup_cons.mp this).1
  refine taken_remove (h.free_mem k a hafree).1 (fun x => ?_) hnot
    fun j hj => h.not_mem_of_ne hafree hj
  rw [hk]
  simp only [List.mem_append, List.mem_cons]
  tauto

theorem pop_taken {t : List ℕ} (h : Rep b free S) (hk : free k = a :: t) :
    taken (update free k t) S = insert a (taken free S) :=
  @remove_taken b free S a k [] t h hk

theorem addHalves_block {x : ℕ} (hxa : x ≠ a) (hxnew : x ≠ a + orderToSize k) :
    (PersistentHeap.addHalves b k a).block x = b.block x := by
  simp [PersistentHeap.addHalves, update_of_ne hxa, update_of_ne hxnew]

/-- What `buddy_split` does when it finds a block: `a` and its upper half come to the front of the list of
order `k`; of the lists above, each loses blocks, or has a single one afterwards. -/
structure SplitTo (b b' : Buddy) (free free' : ℕ → List ℕ) (S S' : Set ℕ) (k a : ℕ) : Prop where
  rep : Rep b' free' S'
  same : SameTaken b b' free free' S S'
  pair : free' k = a :: (a + orderToSize k) :: free k
  below : ∀ j < k, free' j = free j
  above : ∀ j > k, (∀ x ∈ free' j, x ∈ free j) ∨ ∃ x, free' j = [x]
  source : ∃ j > k, free j ≠ []

/-- `splitBlock` replaces the head of the list of order `k + 1` by its two halves. -/
theorem splitBlock_spec {t : List ℕ} (h : Rep b free S) (hk : free (k + 1) = a :: t) :
    ∃ b' S', splitBlock b k a = (some a, b') ∧
      SplitTo b b' free (update (update free (k + 1) t) k (a :: (a + orderToSize k) :: free k)) S S' k a := by
  have hafree : a ∈ free (k + 1) := by simp [hk]
  obtain ⟨haS, -, horder⟩ := h.free_mem _ a hafree
  have hpool := h.block_le_pool haS
  rw [horder, orderToSize_succ] at hpool
  have hbounds : ¬ a + orderToSize k + orderToSize k > b.memory + b.totalSize := by omega
  have hnew : a + orderToSize k ∉ S := h.upper_half_not_mem haS (by rw [horder, orderToSize_succ])
  have hpop := h.pop hk
  have htaken := h.pop_taken hk
  have ha : a ∈ taken (update free (k + 1) t) S := by
    rw [htaken]
    exact Set.mem_insert _ _
  have hk' : update free (k + 1) t k = free k := update_of_ne (by omega) _ _
  rw [← hk']
  refine ⟨_, _, by simp [splitBlock, hbounds], hpop.addHalves ha horder, ⟨?_, ?_⟩, ?_, fun j hj => ?_,
    fun j hj => Or.inl fun x hx => ?_, k + 1, by omega, by simp [hk]⟩
  · ext x
    rw [show a :: (a + orderToSize k) :: update free (k + 1) t k =
      [a, a + orderToSize k] ++ update free (k + 1) t k from rfl, mem_taken_prepend]
    constructor
    · rintro ⟨⟨hx, hnot⟩, hl⟩
      simp only [List.mem_cons, List.not_mem_nil, or_false, not_or] at hl
      have hxS : x ∈ S := (Set.mem_insert_iff.mp hx).resolve_left hl.2
      have hmem : x ∈ taken (update free (k + 1) t) S := ⟨hxS, hnot⟩
      rw [htaken] at hmem
      exact (Set.mem_insert_iff.mp hmem).resolve_left hl.1
    · intro hx
      have hmem : x ∈ taken (update free (k + 1) t) S := by
        rw [htaken]
        exact Set.mem_insert_of_mem _ hx
      refine ⟨⟨Set.mem_insert_of_mem _ hx.1, hmem.2⟩, ?_⟩
      simp only [List.mem_cons, List.not_mem_nil, or_false, not_or]
      exact ⟨fun heq => hx.2 (k + 1) (heq ▸ hafree), fun heq => hnew (heq ▸ hx.1)⟩
  · intro x hx
    have hxa : x ≠ a := fun heq => hx.2 (k + 1) (heq ▸ hafree)
    have hxnew : x ≠ a + orderToSize k := fun heq => hnew (heq ▸ hx.1)
    rw [addHalves_block hxa hxnew]
    rfl
  · rw [update_self, hk']
  · rw [update_of_ne (by omega), update_of_ne (by omega)]
  · rw [update_of_ne (by omega)] at hx
    by_cases hjk : j = k + 1
    · subst hjk
      rw [update_self] at hx
      rw [hk]
      exact List.mem_cons_of_mem _ hx
    · rwa [update_of_ne hjk] at hx

/-- There are no free blocks of an order that does not exist. -/
theorem free_eq_nil (h : Rep b free S) (hk : buddyNumOrders ≤ k) : free k = [] := by
  rw [List.eq_nil_iff_forall_not_mem]
  intro x hx
  obtain ⟨hxS, -, horder⟩ := h.free_mem k x hx
  have := h.order_lt x hxS
  omega

theorem exists_cons_of_freeLists (h : Rep b free S) (hhead : b.freeLists k = some a) :
    ∃ t, free k = a :: t := by
  have hl := (h.linked k).head_eq
  rw [hhead] at hl
  cases hfree : free k with
  | nil => simp [hfree] at hl
  | cons x t =>
      rw [hfree] at hl
      simp only [List.head?_cons, Option.some.injEq] at hl
      exact ⟨t, by rw [hl]⟩

theorem free_eq_nil_of_freeLists (h : Rep b free S) (hhead : b.freeLists k = none) :
    free k = [] := by
  have hl := (h.linked k).head_eq
  rw [hhead] at hl
  exact List.head?_eq_none_iff.mp hl.symm

/-- `buddy_split` finds nothing and changes nothing when there is no larger free block; otherwise it
leaves its result at the head of the list of order `k`. -/
theorem buddySplit_spec (h : Rep b free S) :
    (buddySplit b k = (none, b) ∧ ∀ j, k < j → free j = []) ∨
      ∃ a b' free' S', buddySplit b k = (some a, b') ∧ SplitTo b b' free free' S S' k a := by
  have hstop : ∀ n, buddyNumOrders - 1 ≤ n → ∀ j, n < j → free j = [] := by
    intro n hn j hj
    exact h.free_eq_nil (by omega)
  fun_induction buddySplit b k with
  | case1 k hk => exact Or.inl ⟨rfl, hstop k (by omega)⟩
  | case2 k _ hk => exact Or.inl ⟨rfl, hstop k hk⟩
  | case3 k _ _ block hhead =>
      obtain ⟨t, ht⟩ := h.exists_cons_of_freeLists hhead
      obtain ⟨b', S', heq, hsplit⟩ := h.splitBlock_spec ht
      exact Or.inr ⟨_, _, _, _, heq, hsplit⟩
  | case4 k _ _ hhead b' hrec ih =>
      rcases ih with ⟨heq, hnil⟩ | ⟨_, _, _, _, heq, _⟩
      · rw [hrec] at heq
        obtain rfl : b' = b := (Prod.mk.inj heq).2
        refine Or.inl ⟨rfl, fun j hj => ?_⟩
        rcases Nat.lt_or_eq_of_le hj with hlt | rfl
        · exact hnil j hlt
        · exact h.free_eq_nil_of_freeLists hhead
      · rw [hrec] at heq
        simp at heq
  | case5 k _ _ _ c b' hrec hhead' ih =>
      rcases ih with ⟨heq, -⟩ | ⟨_, b'', free', S', heq, hsplit⟩
      · rw [hrec] at heq
        simp at heq
      · rw [hrec] at heq
        obtain rfl : b' = b'' := (Prod.mk.inj heq).2
        have hpair := hsplit.pair
        rw [hsplit.rep.free_eq_nil_of_freeLists hhead'] at hpair
        simp at hpair
  | case6 k _ _ hhead c b' hrec block hhead' ih =>
      rcases ih with ⟨heq, -⟩ | ⟨_, b'', free', S', heq, hsplit⟩
      · rw [hrec] at heq
        simp at heq
      · rw [hrec] at heq
        obtain ⟨hc, rfl⟩ := Prod.mk.inj heq
        obtain rfl := Option.some.inj hc
        have hpair := hsplit.pair
        rw [h.free_eq_nil_of_freeLists hhead] at hpair
        obtain ⟨t', ht'⟩ := hsplit.rep.exists_cons_of_freeLists hhead'
        obtain ⟨rfl, rfl⟩ := List.cons.inj (ht'.symm.trans hpair)
        obtain ⟨b₂, S₂, heq₂, hsplit₂⟩ := hsplit.rep.splitBlock_spec ht'
        refine Or.inr ⟨_, _, _, _, heq₂, hsplit₂.rep, hsplit.same.trans hsplit₂.same, ?_, fun j hj => ?_,
          fun j hj => ?_, ?_⟩
        · rw [hsplit₂.pair, hsplit.below k (by omega)]
        · rw [hsplit₂.below j hj, hsplit.below j (by omega)]
        · by_cases hjk : j = k + 1
          · -- the upper half of the block that was split is left alone on its list
            subst hjk
            exact Or.inr ⟨_, by rw [update_of_ne (by omega), update_self]⟩
          · rw [update_of_ne (by omega), update_of_ne hjk]
            exact hsplit.above j (by omega)
        · obtain ⟨j, hj, hne⟩ := hsplit.source
          exact ⟨j, by omega, hne⟩

/-! ### Allocating -/

/-- The outcome of an allocation: nothing was taken, or the block `a` was, and its header records the
order `k`. -/
inductive AllocOutcome (b b' : Buddy) (free free' : ℕ → List ℕ) (S S' : Set ℕ) (k : ℕ) :
    Option ℕ → Prop
  | fail (hsame : SameTaken b b' free free' S S') : AllocOutcome b b' free free' S S' k none
  | success (a : ℕ) (hfresh : a ∉ taken free S) (htaken : taken free' S' = insert a (taken free S))
      (hblock : ∀ x ∈ taken free S, b'.block x = b.block x)
      (hheader : b'.block a = { next := none, order := k, isFree := false }) :
      AllocOutcome b b' free free' S S' k (some (a + buddyHeaderSize))

theorem AllocOutcome.of_sameTaken {b₁ : Buddy} {free₁ free' : ℕ → List ℕ} {S₁ S' : Set ℕ}
    {result : Option ℕ} (hsame : SameTaken b b₁ free free₁ S S₁)
    (h : AllocOutcome b₁ b' free₁ free' S₁ S' k result) :
    AllocOutcome b b' free free' S S' k result := by
  cases h with
  | fail hsame' => exact .fail (hsame.trans hsame')
  | success a hfresh htaken hblock hheader =>
      rw [hsame.taken_eq] at hfresh htaken hblock
      exact .success a hfresh htaken (fun x hx => by rw [hblock x hx, hsame.block_eq x hx]) hheader

/-- `buddy_alloc` once it has found the head `a` of the list of order `k`. -/
theorem takeBlock_spec {t : List ℕ} (h : Rep b free S) (hk : free k = a :: t) (size : ℕ) :
    ∃ free', Rep (takeBlock b k a size).2 free' S ∧ (∀ j, ∀ x ∈ free' j, x ∈ free j) ∧
      AllocOutcome b (takeBlock b k a size).2 free free' S S k (takeBlock b k a size).1 := by
  have hafree : a ∈ free k := by simp [hk]
  obtain ⟨haS, hmarked, horder⟩ := h.free_mem k a hafree
  have htaken := h.pop_taken hk
  have hpop := h.pop hk
  have ha : a ∈ taken (update free k t) S := by
    rw [htaken]
    exact Set.mem_insert _ _
  have hnot : ∀ x ∈ taken free S, x ≠ a := fun x hx heq => hx.2 k (heq ▸ hafree)
  have hout := hpop.setBlock ha.2 { next := none, order := (b.block a).order, isFree := false } rfl
  unfold takeBlock
  simp only [Buddy.setFreeList_block, Buddy.setBlock_block, update_self]
  split
  · -- The range check failed: the block goes back on its list.
    have hmark := hout.setBlock ha.2 { next := none, order := (b.block a).order, isFree := true }
      (by simp)
    have hback := hmark.pushFree ha (by simp) (by simpa using horder)
    rw [update_self, Function.update_idem, ← hk, Function.update_eq_self] at hback
    refine ⟨free, hback, fun _ _ hx => hx, .fail ⟨rfl, fun x hx => ?_⟩⟩
    simp [Buddy.pushFree, update_of_ne (hnot x hx)]
  · refine ⟨update free k t, hout.congr rfl rfl rfl (fun _ _ _ => rfl) fun _ _ => rfl, fun j x hx => ?_,
      .success a (fun hmem => hnot a hmem rfl) htaken (fun x hx => ?_) ?_⟩
    · by_cases hj : j = k
      · subst hj
        rw [update_self] at hx
        rw [hk]
        exact List.mem_cons_of_mem _ hx
      · rwa [update_of_ne hj] at hx
    · simp [update_of_ne (hnot x hx)]
    · simp [horder]

/-- `buddy_alloc` keeps the invariant; it takes at most one block, whose order is the one computed for
the request. -/
theorem buddyAlloc_spec (h : Rep b free S) (size : ℕ) :
    ∃ free' S', Rep (buddyAlloc b size).2 free' S' ∧
      AllocOutcome b (buddyAlloc b size).2 free free' S S' (sizeToOrder (size + buddyHeaderSize))
        (buddyAlloc b size).1 := by
  have hsame : SameTaken b b free free S S := ⟨rfl, fun _ _ => rfl⟩
  unfold buddyAlloc
  split
  · exact ⟨free, S, h, .fail hsame⟩
  split
  · exact ⟨free, S, h, .fail hsame⟩
  simp only [if_neg (Nat.not_le.mpr (sizeToOrder_lt (size + buddyHeaderSize))), ge_iff_le]
  set order := sizeToOrder (size + buddyHeaderSize)
  cases hhead : b.freeLists order with
  | some block =>
      obtain ⟨t, ht⟩ := h.exists_cons_of_freeLists hhead
      obtain ⟨free', hrep, -, hout⟩ := h.takeBlock_spec ht size
      exact ⟨free', S, hrep, hout⟩
  | none =>
      rcases h.buddySplit_spec (k := order) with ⟨heq, -⟩ | ⟨a, b', free', S', heq, hsplit⟩
      · simp only [heq]
        exact ⟨free, S, h, .fail hsame⟩
      · obtain ⟨free₂, hrep₂, -, hout⟩ := hsplit.rep.takeBlock_spec hsplit.pair size
        simp only [heq]
        exact ⟨free₂, S', hrep₂, hout.of_sameTaken hsplit.same⟩

/-! ### Unlinking from the middle of a list -/

/-- A free list is never longer than the number of 4 KB blocks, so a list walk ends. -/
theorem length_free_lt (h : Rep b free S) (k : ℕ) : (free k).length < walkFuel b := by
  have hdvd : ∀ x ∈ S, 2 ^ 12 ∣ x - b.memory := by
    intro x hx
    refine Dvd.dvd.trans ?_ (h.tiling.aligned x hx)
    rw [orderToSize_eq]
    exact Dvd.intro _ rfl
  have hcard : (free k).toFinset.card ≤ (Finset.range (2 ^ 14)).card := by
    refine Finset.card_le_card_of_injOn (fun x => (x - b.memory) / 2 ^ 12) ?_ ?_
    · intro x hx
      have hxS := (h.free_mem k x (by simpa using hx)).1
      have hinside := h.tiling.inside x hxS
      have hpos := h.tiling.pos x hxS
      simp only [regionSize, orderToSize_eq, buddyNumOrders] at hinside hpos
      simp only [Finset.coe_range, Set.mem_Iio]
      omega
    · intro x hx y hy heq
      have hxS := (h.free_mem k x (by simpa using hx)).1
      have hyS := (h.free_mem k y (by simpa using hy)).1
      refine h.tiling.off_injOn hxS hyS ?_
      rw [← Nat.div_mul_cancel (hdvd x hxS), ← Nat.div_mul_cancel (hdvd y hyS)]
      exact congrArg (· * 2 ^ 12) heq
  rw [List.toFinset_card_of_nodup (h.linked k).nodup, Finset.card_range] at hcard
  rw [walkFuel, h.pool, buddyPoolSize]
  omega

/-- The list walk stops at the target and rewrites the link that led to it. -/
theorem unlinkFree_found {l₁ l₂ : List ℕ} {fuel : ℕ} {link : Option ℕ}
    (hlinked : Linked (fun x => (b.block x).next) (readLink b k link) (l₁ ++ a :: l₂))
    (hnot : a ∉ l₁) (hfuel : l₁.length < fuel) :
    unlinkFree b k a fuel link =
      some (some (writeLink b k (b.block a).next (l₁.getLast?.or link))) := by
  induction l₁ generalizing fuel link with
  | nil =>
      obtain ⟨fuel, rfl⟩ := Nat.exists_eq_succ_of_ne_zero (Nat.ne_of_gt hfuel)
      simp [unlinkFree, hlinked.1]
  | cons x l₁ ih =>
      obtain ⟨fuel, rfl⟩ := Nat.exists_eq_succ_of_ne_zero (Nat.ne_of_gt (Nat.zero_lt_of_lt hfuel))
      have hxa : x ≠ a := fun heq => hnot (heq ▸ List.mem_cons_self ..)
      rw [unlinkFree, hlinked.1]
      simp only [if_neg hxa]
      rw [@ih fuel (some x) hlinked.2 (fun hmem => hnot (List.mem_cons_of_mem _ hmem))
        (by simpa using hfuel)]
      cases l₁ with
      | nil => simp
      | cons y l₁ =>
          rw [List.getLast?_cons_cons, List.getLast?_eq_some_getLast (List.cons_ne_nil y l₁)]
          rfl

/-- The list walk reports a block that is not on the list. -/
theorem unlinkFree_not_found {l : List ℕ} {fuel : ℕ} {link : Option ℕ}
    (hlinked : Linked (fun x => (b.block x).next) (readLink b k link) l) (hnot : a ∉ l)
    (hfuel : l.length < fuel) : unlinkFree b k a fuel link = some none := by
  induction l generalizing fuel link with
  | nil =>
      obtain ⟨fuel, rfl⟩ := Nat.exists_eq_succ_of_ne_zero (Nat.ne_of_gt hfuel)
      rw [Linked.nil_iff] at hlinked
      simp [unlinkFree, hlinked]
  | cons x l ih =>
      obtain ⟨fuel, rfl⟩ := Nat.exists_eq_succ_of_ne_zero (Nat.ne_of_gt (Nat.zero_lt_of_lt hfuel))
      have hxa : x ≠ a := fun heq => hnot (heq ▸ List.mem_cons_self ..)
      rw [unlinkFree, hlinked.1]
      simp only [if_neg hxa]
      exact ih hlinked.2 (fun hmem => hnot (List.mem_cons_of_mem _ hmem)) (by simpa using hfuel)

/-- Unlinking a free block makes it taken; only the link before it is rewritten. -/
theorem unlinkFree_spec (h : Rep b free S) (ha : a ∈ free k) :
    ∃ b' free', unlinkFree b k a (walkFuel b) none = some (some b') ∧ Rep b' free' S ∧
      b'.memory = b.memory ∧ (∀ j, ∀ x ∈ free' j, x ∈ free j) ∧ taken free' S = insert a (taken free S) ∧
      (∀ x, (b'.block x).order = (b.block x).order ∧ (b'.block x).isFree = (b.block x).isFree) ∧
      (∀ x ∈ taken free S, b'.block x = b.block x) := by
  obtain ⟨l₁, l₂, hk⟩ := List.append_of_mem ha
  have hlist := h.linked k
  have hlength := h.length_free_lt k
  rw [hk] at hlist hlength
  have hnot : a ∉ l₁ := by
    intro hmem
    have hnodup := hlist.nodup
    rw [List.nodup_append] at hnodup
    exact hnodup.2.2 a hmem a (List.mem_cons_self ..) rfl
  have hshort : l₁.length < walkFuel b := by
    simp only [List.length_append, List.length_cons] at hlength
    omega
  have hwalk : unlinkFree b k a (walkFuel b) none = _ := unlinkFree_found hlist hnot hshort
  have htaken := h.remove_taken hk
  have hshrinks : ∀ j, ∀ x ∈ update free k (l₁ ++ l₂) j, x ∈ free j := by
    intro j x hx
    by_cases hj : j = k
    · subst hj
      rw [update_self, List.mem_append] at hx
      rw [hk, List.mem_append, List.mem_cons]
      exact hx.imp_right Or.inr
    · rwa [update_of_ne hj] at hx
  rcases List.eq_nil_or_concat l₁ with rfl | ⟨l₀, p, rfl⟩
  · refine ⟨_, update free k l₂, hwalk, ?_, rfl, hshrinks, htaken, fun x => ⟨rfl, rfl⟩, fun x _ => rfl⟩
    simpa [writeLink] using h.pop hk
  · -- The link of the predecessor `p` is rewritten; `p` is on no other list.
    rw [List.concat_eq_append] at *
    have hpk : p ∈ free k := by simp [hk]
    have hother : ∀ x, x ≠ p → (writeLink b k (b.block a).next (some p)).block x = b.block x := by
      intro x hx
      simp [writeLink, update_of_ne hx]
    have hfields : ∀ x, ((writeLink b k (b.block a).next (some p)).block x).order =
          (b.block x).order ∧
        ((writeLink b k (b.block a).next (some p)).block x).isFree = (b.block x).isFree := by
      intro x
      by_cases hx : x = p
      · simp [writeLink, hx]
      · rw [hother x hx]
        exact ⟨rfl, rfl⟩
    refine ⟨writeLink b k (b.block a).next (some p), update free k ((l₀ ++ [p]) ++ l₂),
      by simpa using hwalk, ?_, rfl, hshrinks, htaken, hfields, fun x hx => hother x fun heq => ?_⟩
    · constructor
      · exact h.pool
      · exact h.memory_pos
      · intro j
        by_cases hj : j = k
        · subst hj
          rw [update_self, List.append_assoc, List.singleton_append]
          have hlist' : Linked (fun x => (b.block x).next) (b.freeLists j)
              (l₀ ++ p :: a :: l₂) := by simpa using hlist
          exact hlist'.bypass (by simp [writeLink]) fun x hx => by rw [hother x hx]
        · rw [update_of_ne hj]
          exact (h.linked j).congr fun x hx => by
            rw [hother x fun heq => h.not_mem_of_ne hpk hj (heq ▸ hx)]
      · intro j x hx
        rw [(hfields x).1, (hfields x).2]
        exact h.free_mem j x (hshrinks j x hx)
      · intro x hx
        rw [(hfields x).1]
        exact h.order_lt x hx
      · exact h.memory_le
      · exact h.tiling.congr (fun _ _ => rfl) fun x _ => by rw [(hfields x).1]
    · exact hx.2 k (heq ▸ hpk)

/-! ### Merging two buddies -/

theorem getBuddyAddress_eq {a' : ℕ} (h : getBuddyAddress b a = some a') :
    a' = b.memory + ((a - b.memory) ^^^ orderToSize (b.block a).order) := by
  unfold getBuddyAddress at h
  simp only at h
  split_ifs at h
  exact (Option.some.inj h).symm

/-- Two taken buddies of order `k` below the largest are replaced by one block of order `k + 1`, at
the lower of their addresses. -/
theorem merge {a' : ℕ} (h : Rep b free S) (ha : a ∈ taken free S) (ha' : a' ∈ taken free S)
    (horder : (b.block a).order = k) (horder' : (b.block a').order = k)
    (hk : k < buddyNumOrders - 1)
    (hbuddy : a' = b.memory + ((a - b.memory) ^^^ orderToSize k)) :
    a' ≠ a ∧ Rep (b.setBlock (if a < a' then a else a') { next := none, order := k + 1, isFree := true })
      free (S \ {if a < a' then a' else a}) := by
  have hle := h.memory_le a ha.1
  have hle' := h.memory_le a' ha'.1
  have hpos := orderToSize_pos k
  have halign : orderToSize k ∣ a - b.memory := by
    have := h.tiling.aligned a ha.1
    rwa [horder] at this
  -- One of the two is the lower half of an aligned block of twice the size.
  have hpow : orderToSize k = 2 ^ (12 + k) := by rw [orderToSize_eq, Nat.pow_add]
  have hcases : (a' = a + orderToSize k ∧ 2 * orderToSize k ∣ a - b.memory) ∨
      (a = a' + orderToSize k ∧ 2 * orderToSize k ∣ a' - b.memory) := by
    rw [hpow] at halign hbuddy ⊢
    rcases xor_two_pow_cases halign with ⟨hdvd, hxor⟩ | ⟨hge, hxor, hdvd⟩
    · exact Or.inl ⟨by omega, hdvd⟩
    · right
      have haa : a = a' + 2 ^ (12 + k) := by omega
      refine ⟨haa, ?_⟩
      rwa [show a' - b.memory = a - b.memory - 2 ^ (12 + k) by omega]
  have hmerge : ∀ lo hi, lo ∈ taken free S → hi ∈ taken free S → hi = lo + orderToSize k →
      (b.block lo).order = k → (b.block hi).order = k → 2 * orderToSize k ∣ lo - b.memory →
      Rep (b.setBlock lo { next := none, order := k + 1, isFree := true }) free (S \ {hi}) := by
    intro lo hi hlo hhi hnext hlok hhik hdvd
    have hlomem := h.memory_le lo hlo.1
    have hother : ∀ x, x ≠ lo →
        (b.setBlock lo { next := none, order := k + 1, isFree := true }).block x = b.block x :=
      fun x hx => by simp [update_of_ne hx]
    constructor
    · exact h.pool
    · exact h.memory_pos
    · exact fun j => (h.linked j).congr fun x hx => by
        rw [hother x fun heq => hlo.2 j (heq ▸ hx)]
    · intro j x hx
      rw [hother x fun heq => hlo.2 j (heq ▸ hx)]
      exact ⟨⟨(h.free_mem j x hx).1, fun heq => hhi.2 j (heq ▸ hx)⟩, (h.free_mem j x hx).2⟩
    · rintro x ⟨hx, -⟩
      by_cases hxlo : x = lo
      · simp only [hxlo, Buddy.setBlock_block, update_self]
        omega
      · rw [hother x hxlo]
        exact h.order_lt x hx
    · exact fun x hx => h.memory_le x hx.1
    · refine h.tiling.merge hlo.1 hhi.1 (by omega) ?_ (by rw [hlok, hhik]) (by rwa [hlok])
        (fun _ _ _ => rfl) ?_ fun x _ hx _ => by rw [hother x hx]
      · show hi - b.memory = lo - b.memory + orderToSize (b.block lo).order
        rw [hlok]
        omega
      · simp only [Buddy.setBlock_block, update_self, hlok, orderToSize_succ]
  rcases hcases with ⟨hnext, hdvd⟩ | ⟨hnext, hdvd⟩
  · have hlt : a < a' := by omega
    simp only [if_pos hlt]
    exact ⟨by omega, hmerge a a' ha ha' hnext horder horder' hdvd⟩
  · have hlt : ¬ a < a' := by omega
    simp only [if_neg hlt]
    exact ⟨by omega, hmerge a' a ha' ha hnext horder' horder hdvd⟩

/-! ### Freeing -/

/-- The outcome of coalescing `a`: a taken block `m` that is marked free, all other taken blocks being
as they were. -/
structure Coalesced (b b' : Buddy) (free free' : ℕ → List ℕ) (S S' : Set ℕ) (a m : ℕ) : Prop where
  mem : m ∈ taken free' S'
  isFree : (b'.block m).isFree = true
  taken_eq : taken free' S' \ {m} = taken free S \ {a}
  block_eq : ∀ x ∈ taken free S, x ≠ a → b'.block x = b.block x

theorem Coalesced.trans {b'' : Buddy} {free' free'' : ℕ → List ℕ} {S' S'' : Set ℕ} {m m' : ℕ}
    (h : Coalesced b b' free free' S S' a m) (h' : Coalesced b' b'' free' free'' S' S'' m m') :
    Coalesced b b'' free free'' S S'' a m' := by
  refine ⟨h'.mem, h'.isFree, h'.taken_eq.trans h.taken_eq, fun x hx hxa => ?_⟩
  have hx' : x ∈ taken free' S' \ {m} := by
    rw [h.taken_eq]
    exact ⟨hx, hxa⟩
  rw [h'.block_eq x hx'.1 hx'.2, h.block_eq x hx hxa]

/-- A free buddy leaves its list, and the two become one block. -/
theorem absorbBuddy {a' : ℕ} (h : Rep b free S) (ha : a ∈ taken free S)
    (horder : (b.block a).order = k) (horder' : (b.block a').order = k) (hk : k < buddyNumOrders - 1)
    (haddr : getBuddyAddress b a = some a') (hmem : a' ∈ free k) :
    ∃ b₁ free₁ S₁, unlinkFree b k a' (walkFuel b) none = some (some b₁) ∧
      (b₁.block (if a < a' then a else a')).order = k ∧ (∀ j, ∀ x ∈ free₁ j, x ∈ free j) ∧
      let b₂ : Buddy :=
        { b₁.setBlock (if a < a' then a else a') { next := none, order := k + 1, isFree := true } with
          numCoalesces := b₁.numCoalesces + 1 }
      Rep b₂ free₁ S₁ ∧ Coalesced b b₂ free free₁ S S₁ a (if a < a' then a else a') := by
  obtain ⟨b₁, free₁, hunlink, hrep₁, hmemory, hshrinks, htaken₁, hfields, hblock₁⟩ :=
    h.unlinkFree_spec hmem
  have haT : a ∈ taken free₁ S := htaken₁ ▸ Set.mem_insert_of_mem _ ha
  have haT' : a' ∈ taken free₁ S := htaken₁ ▸ Set.mem_insert _ _
  obtain ⟨hne, hrep₂⟩ := hrep₁.merge haT haT' ((hfields a).1.trans horder)
    ((hfields a').1.trans horder') hk
    (by rw [hmemory, ← horder]; exact getBuddyAddress_eq haddr)
  set lo := if a < a' then a else a' with hlo
  set hi := if a < a' then a' else a with hhi
  have hpair : lo = a ∧ hi = a' ∨ lo = a' ∧ hi = a := by
    by_cases hlt : a < a'
    · exact Or.inl ⟨if_pos hlt, if_pos hlt⟩
    · exact Or.inr ⟨if_neg hlt, if_neg hlt⟩
  have hlohi : lo ∈ taken free₁ S ∧ lo ≠ hi ∧ (b₁.block lo).order = k := by
    rcases hpair with ⟨h₁, h₂⟩ | ⟨h₁, h₂⟩ <;> rw [h₁, h₂]
    · exact ⟨haT, hne.symm, (hfields a).1.trans horder⟩
    · exact ⟨haT', hne, (hfields a').1.trans horder'⟩
  have hother : ∀ x ∈ taken free S, x ≠ a' := by
    rintro x hx rfl
    exact hx.2 k hmem
  have hpart : ∀ x, x ∈ taken free₁ (S \ {hi}) ↔ x ∈ taken free₁ S ∧ x ≠ hi :=
    fun x => ⟨fun hx => ⟨⟨hx.1.1, hx.2⟩, hx.1.2⟩, fun hx => ⟨⟨hx.1.1, hx.2⟩, hx.1.2⟩⟩
  refine ⟨b₁, free₁, S \ {hi}, hunlink, hlohi.2.2, hshrinks, ?_, ?_, by simp, ?_, fun x hx hxa => ?_⟩
  · exact hrep₂.congr rfl rfl rfl (fun _ _ _ => rfl) fun _ _ => rfl
  · exact (hpart lo).mpr ⟨hlohi.1, hlohi.2.1⟩
  · ext x
    simp only [Set.mem_sdiff, Set.mem_singleton_iff, hpart, htaken₁, Set.mem_insert_iff]
    constructor
    · intro hx
      obtain ⟨hxa, hxa'⟩ := (ne_pair_iff hpair).mp ⟨hx.2, hx.1.2⟩
      exact ⟨hx.1.1.resolve_left hxa', hxa⟩
    · intro hx
      obtain ⟨hxlo, hxhi⟩ := (ne_pair_iff hpair).mpr ⟨hx.2, hother x hx.1⟩
      exact ⟨⟨Or.inr hx.1, hxhi⟩, hxlo⟩
  · have hxlo := ((ne_pair_iff hpair).mpr ⟨hxa, hother x hx⟩).1
    rw [← hblock₁ x hx]
    simp [update_of_ne hxlo]

/-- The other half of the block of twice the size is no free block of the same order. -/
def Alone (b : Buddy) (free : ℕ → List ℕ) (a : ℕ) : Prop :=
  (b.block a).order < buddyNumOrders - 1 → ∀ x ∈ free (b.block a).order,
    x - b.memory ≠ (a - b.memory) ^^^ orderToSize (b.block a).order

/-- `get_buddy_address` finds the other half if it is a block. -/
theorem getBuddyAddress_of_mem {a' : ℕ} (h : Rep b free S) (ha : a ∈ S) (ha' : a' ∈ S)
    (horder : (b.block a').order = (b.block a).order)
    (hbuddy : a' - b.memory = (a - b.memory) ^^^ orderToSize (b.block a).order) :
    getBuddyAddress b a = some a' := by
  have hle := h.memory_le a ha
  have hle' := h.memory_le a' ha'
  have hpool := h.block_le_pool ha
  have hpool' := h.block_le_pool ha'
  have hpos := orderToSize_pos (b.block a).order
  have hheader := buddyHeaderSize_le_orderToSize (b.block a).order
  rw [horder] at hpool'
  unfold getBuddyAddress
  simp only [← hbuddy]
  rw [if_neg (by omega), if_neg (by omega), if_neg (by omega), if_neg (by omega)]
  congr 1
  omega

/-- Coalescing ends, and it stops only where the other half is not free. -/
theorem buddyCoalesce_spec {fuel : ℕ} (h : Rep b free S) (ha : a ∈ taken free S)
    (hfree : (b.block a).isFree = true) (hfuel : buddyNumOrders ≤ (b.block a).order + fuel) :
    ∃ m b' free' S', buddyCoalesce fuel b a = some (m, b') ∧ Rep b' free' S' ∧
      Coalesced b b' free free' S S' a m ∧ (∀ j, ∀ x ∈ free' j, x ∈ free j) ∧ Alone b' free' m := by
  induction fuel generalizing b free S a with
  | zero =>
      have := h.order_lt a ha.1
      omega
  | succ fuel ih =>
      have hdone : Alone b free a → ∃ m b' free' S', some (a, b) = some (m, b') ∧ Rep b' free' S' ∧
          Coalesced b b' free free' S S' a m ∧ (∀ j, ∀ x ∈ free' j, x ∈ free j) ∧ Alone b' free' m :=
        fun halone =>
          ⟨a, b, free, S, rfl, h, ⟨ha, hfree, rfl, fun _ _ _ => rfl⟩, fun _ _ hx => hx, halone⟩
      -- a free block that is the other half is the one that `get_buddy_address` finds
      have hfinds : ∀ x ∈ free (b.block a).order,
          x - b.memory = (a - b.memory) ^^^ orderToSize (b.block a).order →
            getBuddyAddress b a = some x ∧ (b.block x).isFree = true ∧
              (b.block x).order = (b.block a).order := by
        intro x hx hbuddy
        obtain ⟨hxS, hmarked, horder⟩ := h.free_mem _ x hx
        exact ⟨h.getBuddyAddress_of_mem ha.1 hxS horder hbuddy, hmarked, horder⟩
      rw [buddyCoalesce]
      split
      · rename_i hlarge
        exact hdone fun hlt => absurd hlt (by omega)
      rename_i hlarge
      cases haddr : getBuddyAddress b a with
      | none =>
          refine hdone fun _ x hx hbuddy => ?_
          rw [(hfinds x hx hbuddy).1] at haddr
          cases haddr
      | some a' =>
          simp only
          split
          · rename_i hother
            refine hdone fun _ x hx hbuddy => ?_
            obtain ⟨hx', hmarked, horder⟩ := hfinds x hx hbuddy
            obtain rfl := Option.some.inj (hx'.symm.trans haddr)
            rcases hother with hother | hother
            · rw [hmarked] at hother
              cases hother
            · exact hother horder
          rename_i hsame
          push Not at hsame
          set k := (b.block a).order with hk
          by_cases hmem : a' ∈ free k
          · obtain ⟨b₁, free₁, S₁, hunlink, horder, hshrinks, hrep, hcoalesced⟩ :=
              h.absorbBuddy ha hk.symm hsame.2 (by omega) haddr hmem
            simp only [hunlink, horder]
            generalize (if a < a' then a else a') = lo at hrep hcoalesced ⊢
            split
            · rename_i htop
              refine ⟨lo, _, free₁, S₁, rfl, hrep, hcoalesced, hshrinks, fun hlt => absurd hlt ?_⟩
              exact Nat.not_lt.mpr htop
            · obtain ⟨m, b', free', S', heq, hrep', hc, hshrinks', halone⟩ :=
                ih hrep hcoalesced.mem hcoalesced.isFree (by simp; omega)
              exact ⟨m, b', free', S', heq, hrep', hcoalesced.trans hc,
                fun j x hx => hshrinks j x (hshrinks' j x hx), halone⟩
          · rw [unlinkFree_not_found (h.linked k) hmem (h.length_free_lt k)]
            refine hdone fun _ x hx hbuddy => hmem ?_
            obtain rfl := Option.some.inj ((hfinds x hx hbuddy).1.symm.trans haddr)
            exact hx

/-- `buddy_free` of a taken block that is not marked free marks it, coalesces it, and pushes the result on
the list of its order. -/
theorem buddyFree_eq (h : Rep b free S) (ha : a ∈ taken free S) (hlive : (b.block a).isFree = false) :
    ∃ m b₃ free₃ S₃,
      buddyFree b (a + buddyHeaderSize) = some (b₃.pushFree (b₃.block m).order m) ∧ Rep b₃ free₃ S₃ ∧
        m ∈ taken free₃ S₃ ∧ (b₃.block m).isFree = true ∧ taken free₃ S₃ \ {m} = taken free S \ {a} ∧
        (∀ x ∈ taken free S, x ≠ a → b₃.block x = b.block x) ∧ (∀ j, ∀ x ∈ free₃ j, x ∈ free j) ∧
        Alone b₃ free₃ m := by
  have hle := h.memory_le a ha.1
  have hpool := h.block_le_pool ha.1
  have hpos := orderToSize_pos (b.block a).order
  have hmemory := h.memory_pos
  have hlt := h.order_lt a ha.1
  set b₂ : Buddy :=
    { b.setBlock a { b.block a with isFree := true } with numFrees := b.numFrees + 1 } with hb₂
  have hrep₂ : Rep b₂ free S :=
    (h.setBlock ha.2 { b.block a with isFree := true } rfl).congr rfl rfl rfl (fun _ _ _ => rfl)
      fun _ _ => rfl
  obtain ⟨m, b₃, free₃, S₃, hcoalesce, hrep₃, hc, hshrinks, halone⟩ :=
    hrep₂.buddyCoalesce_spec ha (by simp [hb₂])
      (show buddyNumOrders ≤ (b₂.block a).order + buddyNumOrders by omega)
  have hlt₃ := hrep₃.order_lt m hc.mem.1
  refine ⟨m, b₃, free₃, S₃, ?_, hrep₃, hc.mem, hc.isFree, hc.taken_eq, fun x hx hxa => ?_, hshrinks, halone⟩
  · rw [buddyFree, if_neg (by omega)]
    simp only [Nat.add_sub_cancel]
    rw [if_neg (by omega), hlive, if_neg (by simp), if_neg (by omega)]
    have hstate : ({ b.setBlock a { b.block a with isFree := true } with
        numFrees := (b.setBlock a { b.block a with isFree := true }).numFrees + 1 } : Buddy) = b₂ :=
      rfl
    rw [hstate, hcoalesce]
    simp only [if_neg (Nat.not_le.mpr hlt₃), ge_iff_le]
  · rw [hc.block_eq x hx hxa]
    simp [hb₂, update_of_ne hxa]

/-- `buddy_free` of a taken block that is not marked free ends, keeps the invariant, and gives back
exactly that block. -/
theorem buddyFree_spec (h : Rep b free S) (ha : a ∈ taken free S)
    (hlive : (b.block a).isFree = false) :
    ∃ b' free' S', buddyFree b (a + buddyHeaderSize) = some b' ∧ Rep b' free' S' ∧
      taken free' S' = taken free S \ {a} ∧ ∀ x ∈ taken free S, x ≠ a → b'.block x = b.block x := by
  obtain ⟨m, b₃, free₃, S₃, heq, hrep₃, hmem, hmarked, htaken, hblock, -, -⟩ := h.buddyFree_eq ha hlive
  refine ⟨b₃.pushFree (b₃.block m).order m, _, S₃, heq, hrep₃.pushFree hmem hmarked rfl, ?_,
    fun x hx hxa => ?_⟩
  · rw [← htaken]
    ext x
    rw [show m :: free₃ (b₃.block m).order = [m] ++ free₃ (b₃.block m).order from rfl,
      mem_taken_prepend]
    simp
  · have hxm : x ≠ m := by
      have hx' : x ∈ taken free₃ S₃ \ {m} := htaken ▸ ⟨hx, hxa⟩
      exact hx'.2
    simp only [Buddy.pushFree, Buddy.setFreeList_block, Buddy.setBlock_block, update_of_ne hxm]
    exact hblock x hx hxa

end Rep

end LgxRuntime.PersistentHeap
