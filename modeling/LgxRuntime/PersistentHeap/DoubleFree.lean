import LgxRuntime.PersistentHeap.HeapPointers

/-!
# Freeing a pointer twice

A slot that is on a free list holds a list node where the header was, and no link of a node reads as the
magic number, because slots lie at multiples of 16.  `lgx_heap_free` therefore refuses such a pointer.

In a release build nothing is written over the header of a large allocation when it is freed.
`lgx_heap_free` still finds the magic number there, `buddy_free` ignores the call, and the statistics
are updated all the same.

A run is recorded with the pointers that have been freed and whose memory, from the header on, has not
been handed out again.
-/

namespace LgxRuntime.PersistentHeap

open Function (update update_self update_of_ne)

/-- Freeing the pointer changes nothing, except that an error is counted. -/
def HarmlessFree (h : Heap) (ptr : ℕ) : Prop :=
  lgxHeapFree h ptr = some { h with numValidationErrors := h.numValidationErrors + 1 }

/-! ## Runs -/

/-- The heap with the live pointers, and with the freed ones whose memory nobody has got since. -/
structure FreeRun where
  heap : Heap
  live : List (ℕ × ℕ)
  freed : List (ℕ × ℕ)

/-- Two allocations, each from its header on, do not overlap. -/
def AllocationsApart (e d : ℕ × ℕ) : Prop :=
  e.1 + e.2 + headerSize ≤ d.1 ∨ d.1 + d.2 + headerSize ≤ e.1

instance (e d : ℕ × ℕ) : Decidable (AllocationsApart e d) :=
  inferInstanceAs (Decidable (_ ∨ _))

/-- The freed pointers whose memory an allocation does not reuse. -/
def forget (result : Option ℕ) (size : ℕ) (freed : List (ℕ × ℕ)) : List (ℕ × ℕ) :=
  match result with
  | none => freed
  | some ptr => freed.filter fun e => AllocationsApart e (ptr, size)

/-- One step of a run.  The system hands out memory at multiples of 16, as `mmap` and `malloc` do.
Pointers to slots may be freed again. -/
inductive FreeStep : FreeRun → FreeRun → Prop
  | alloc (r : FreeRun) (hot : Bool) (slabMemory : Option ℕ) (size : ℕ)
      (hfresh : ∀ m, slabMemory = some m → FreshMemory r.heap m)
      (haligned : ∀ m, slabMemory = some m → 16 ∣ m) :
      FreeStep r
        ⟨(lgxHeapAlloc r.heap hot slabMemory size).2,
          grant (lgxHeapAlloc r.heap hot slabMemory size).1 size r.live,
          forget (lgxHeapAlloc r.heap hot slabMemory size).1 size r.freed⟩
  | free (r : FreeRun) (ptr size : ℕ) (h' : Heap) (hlive : (ptr, size) ∈ r.live)
      (hfree : lgxHeapFree r.heap ptr = some h') :
      FreeStep r ⟨h', r.live.erase (ptr, size), (ptr, size) :: r.freed⟩
  | freeAgain (r : FreeRun) (ptr size : ℕ) (h' : Heap) (hfreed : (ptr, size) ∈ r.freed)
      (hsmall : size + headerSize ≤ maxSizeClass) (hfree : lgxHeapFree r.heap ptr = some h') :
      FreeStep r ⟨h', r.live, r.freed⟩
  | write (r : FreeRun) (ptr size : ℕ) (cells : ℕ → Cell) (contents : ℕ → BuddyBlock)
      (hlive : (ptr, size) ∈ r.live)
      (hcells : ∀ x ∉ payloadCells ptr size, cells x = r.heap.cells x)
      (hcontents : ∀ x ∉ payloadCells ptr size, contents x = r.heap.buddy.block x) :
      FreeStep r
        ⟨{ r.heap with cells := cells, buddy := { r.heap.buddy with block := contents } }, r.live,
          r.freed⟩

/-- The states of the runs that start with `lgx_persistent_heap_init`. -/
inductive FreeReachable : FreeRun → Prop
  | init (memory : ℕ) (contents : ℕ → BuddyBlock) (cells : ℕ → Cell) (hmemory : memory ≠ 0)
      (huser : memory + buddyPoolSize ≤ userSpace) :
      FreeReachable ⟨persistentHeapInit memory contents cells, [], []⟩
  | step {r r' : FreeRun} (hreach : FreeReachable r) (hstep : FreeStep r r') : FreeReachable r'

/-! ## Links are not the magic number -/

/-- The slabs lie at multiples of 16. -/
def SlabsAligned (h : Heap) : Prop :=
  ∀ c < numSizeClasses, ∀ slab ∈ (h.sizeClasses c).slabs, 16 ∣ slab.memory

/-- The slots of aligned slabs are aligned. -/
theorem dvd_of_leftSlots {c : ℕ} {slabs : List Slab} (h : SlabsRep (classToSize c) slabs)
    (haligned : ∀ slab ∈ slabs, 16 ∣ slab.memory) {a : ℕ} (ha : a ∈ leftSlots slabs) : 16 ∣ a := by
  obtain ⟨slab, hslab, i, -, -, rfl⟩ := ha
  have hsize : 16 ∣ slab.objectSize := by
    rw [(h.wellFormed slab hslab).size_eq, classToSize_eq]
    exact Nat.dvd_mul_right ..
  exact dvd_add (haligned slab hslab) (hsize.mul_left i)

theorem magic_ne_of_dvd {cell : Cell} (h : 16 ∣ cell.word0) : cell.magic ≠ allocMagic := by
  simp only [Cell.magic, allocMagic]
  omega

namespace ClassRep

variable {c : ℕ} {s : ClassState} {free : List ℕ}

/-- The head of a free list is aligned, or the list is empty. -/
theorem dvd_head (h : ClassRep (classToSize c) s free)
    (haligned : ∀ slab ∈ s.allocator.slabs, 16 ∣ slab.memory) : 16 ∣ s.allocator.freeList.getD 0 := by
  cases hhead : s.allocator.freeList with
  | none => exact Nat.dvd_zero _
  | some a =>
      have hfirst := h.linked.head_eq
      rw [hhead] at hfirst
      exact dvd_of_leftSlots h.slabs haligned (h.free_mem a (List.mem_of_mem_head? hfirst.symm))

/-- A list node does not read as a header. -/
theorem magic_ne (h : ClassRep (classToSize c) s free)
    (haligned : ∀ slab ∈ s.allocator.slabs, 16 ∣ slab.memory) {a : ℕ} (ha : a ∈ free) :
    (s.cells a).magic ≠ allocMagic := by
  refine magic_ne_of_dvd ?_
  by_cases hzero : (s.cells a).word0 = 0
  · rw [hzero]
    exact Nat.dvd_zero _
  · have hnext : (s.cells a).next = some (s.cells a).word0 := if_neg hzero
    have hmem := h.linked.mem_of_next ha hnext
    exact dvd_of_leftSlots h.slabs haligned (h.free_mem _ hmem)

end ClassRep

theorem Located.dvd {slabs slabs' : List Slab} {slabMemory : Option ℕ}
    (h : Located slabs slabs' slabMemory) (hold : ∀ slab ∈ slabs, 16 ∣ slab.memory)
    (hnew : ∀ m, slabMemory = some m → 16 ∣ m) : ∀ slab ∈ slabs', 16 ∣ slab.memory := by
  intro slab hslab
  rcases h slab hslab with ⟨old, hmem, heq⟩ | heq
  · exact heq ▸ hold old hmem
  · exact hnew _ heq.symm

theorem SlabsAligned.of_sameMemory {h h' : Heap} {slabMemory : Option ℕ} (haligned : SlabsAligned h)
    (hsame : SameMemory h h' slabMemory) (hnew : ∀ m, slabMemory = some m → 16 ∣ m) :
    SlabsAligned h' :=
  fun c hc => (hsame.slabs c hc).dvd (haligned c hc) hnew

/-! ## What a call writes -/

namespace HeapRep

variable {h h' : Heap} {live large : List (ℕ × ℕ)} {slots free : ℕ → List ℕ} {S : Set ℕ}
  {a p n q m : ℕ}

/-- A cell is as it was before a size class has been asked, or it is a node of the new list. -/
theorem class_cells (hrep : HeapRep h live large slots free S) (haligned : SlabsAligned h) {c : ℕ}
    {result : Option ℕ} {s : ClassState} {slots' : List ℕ} {slabMemory : Option ℕ} (hpos : 0 < c)
    (hc : c < numSizeClasses)
    (halloc : ClassAlloc (classToSize c) slabMemory (h.classState c) (slots c) result s slots')
    (hfresh : ∀ m, slabMemory = some m → FreshMemory h m) (hslab : ∀ m, slabMemory = some m → 16 ∣ m)
    (x : ℕ) :
    s.cells x = h.cells x ∨ (s.cells x).magic ≠ allocMagic ∧ OutsidePool h.buddy x headerSize := by
  by_cases hx : x ∈ slots'
  · right
    refine ⟨halloc.rep.magic_ne (halloc.located.dvd (haligned c hc) hslab) hx, ?_⟩
    have hlayout := hrep.layout.setClassState hpos hc halloc.rep.slabs halloc.located hfresh
    have hself := h.setClassState_sizeClasses_self c s
    have hout := hlayout.slot_outsidePool hc (hself ▸ halloc.rep.free_mem x hx)
    have hroom := headerSize_le_classToSize hpos
    have hbuddy : (h.setClassState c s).buddy = h.buddy := rfl
    rw [hbuddy] at hout
    unfold OutsidePool at hout ⊢
    omega
  · exact Or.inl (halloc.cells_eq x hx)

/-- `lgx_heap_alloc` writes one header, and list nodes outside of the buddy pool. -/
theorem alloc_cells (hrep : HeapRep h live large slots free S) (haligned : SlabsAligned h) (hot : Bool)
    {slabMemory : Option ℕ} (hfresh : ∀ m, slabMemory = some m → FreshMemory h m)
    (hslab : ∀ m, slabMemory = some m → 16 ∣ m) (size x : ℕ) :
    (lgxHeapAlloc h hot slabMemory size).2.cells x = h.cells x ∨
      (lgxHeapAlloc h hot slabMemory size).1 = some (x + headerSize) ∨
      ((lgxHeapAlloc h hot slabMemory size).2.cells x).magic ≠ allocMagic ∧
        OutsidePool h.buddy x headerSize := by
  have hcases := hrep.alloc_cases hot hfresh size
  generalize lgxHeapAlloc h hot slabMemory size = outcome at hcases ⊢
  obtain ⟨result, h'⟩ := outcome
  cases hcases with
  | refused hbuddy hclasses hcells => exact Or.inl (congrFun hcells x)
  | noSlot hclass hpos hc halloc =>
      exact (hrep.class_cells haligned hpos hc halloc hfresh hslab x).imp_right Or.inr
  | @slot c ptr s slots' _ hclass hpos hc halloc hbuddy hclasses hcells =>
      by_cases hptr : x = ptr
      · subst hptr
        exact Or.inr (Or.inl rfl)
      · have hsame : h'.cells x = s.cells x := by rw [hcells, update_of_ne hptr]
        simp only [hsame]
        exact (hrep.class_cells haligned hpos hc halloc hfresh hslab x).imp_right Or.inr
  | noBlock hsize hbig hresult hbuddy hclasses hcells => exact Or.inl (congrFun hcells x)
  | @block q _ hsize hbig hresult hbuddy hclasses hcells =>
      by_cases hptr : x = q
      · subst hptr
        exact Or.inr (Or.inl rfl)
      · exact Or.inl ((congrFun hcells x).trans (update_of_ne hptr ..))

/-- What `lgx_heap_free` leaves of the header of a live pointer: a list node where there was a slot, and
the header where there was a block. -/
theorem free_cells (hrep : HeapRep h live large slots free S) (haligned : SlabsAligned h)
    (hlive : (a + headerSize, n) ∈ live) (hfree : lgxHeapFree h (a + headerSize) = some h') :
    (∀ x ≠ a, h'.cells x = h.cells x) ∧
      (n + headerSize ≤ maxSizeClass → (h'.cells a).magic ≠ allocMagic) ∧
      (maxSizeClass < n + headerSize → (h'.cells a).magic = allocMagic) := by
  obtain ⟨x, hx, heq⟩ := hrep.free_eq hlive
  obtain rfl := Nat.add_right_cancel hx
  rw [heq] at hfree
  by_cases hsmall : n + headerSize ≤ maxSizeClass
  · have hc := (sizeToClass_lt_iff _).mpr hsmall
    rw [if_pos hc] at hfree
    obtain rfl := Option.some.inj hfree
    refine ⟨fun y hy => update_of_ne hy .., fun _ => magic_ne_of_dvd ?_, fun hlt => by omega⟩
    have hnode : ((h.returnSlot (sizeToClass (n + headerSize)) a).countFree (n % 2 ^ 32)).cells a =
        { h.cells a with
          word0 := (h.sizeClasses (sizeToClass (n + headerSize))).freeList.getD 0
          word1 := (h.sizeClasses (sizeToClass (n + headerSize))).generation } := update_self ..
    rw [hnode]
    exact (hrep.classes _ hc).dvd_head (haligned _ hc)
  · rw [if_neg (mt (sizeToClass_lt_iff _).mp hsmall)] at hfree
    obtain ⟨b, -, rfl⟩ := Option.map_eq_some_iff.mp hfree
    obtain ⟨y, hy, hcell⟩ := hrep.header _ n hlive
    obtain rfl := Nat.add_right_cancel hy
    refine ⟨fun _ _ => rfl, fun hle => absurd hle hsmall, fun _ => ?_⟩
    exact (congrArg Cell.magic hcell).trans (allocationHeader_magic _ _)

/-- Live pointers have their memory apart, headers included. -/
theorem allocations_apart (hrep : HeapRep h live large slots free S) (hp : (p, n) ∈ live)
    (hq : (q, m) ∈ live) (hne : p ≠ q) : AllocationsApart (p, n) (q, m) := by
  obtain ⟨a, rfl, -⟩ := hrep.header p n hp
  obtain ⟨x, rfl, -⟩ := hrep.header q m hq
  have hpq := hrep.header_not_mem_payload hp hq
  have hqp := hrep.header_not_mem_payload hq hp
  simp only [AllocationsApart, payloadCells, Set.mem_ofPred_eq, not_and, not_lt, headerSize,
    buddyHeaderSize] at *
  omega

end HeapRep

/-! ## What is left of a freed allocation -/

/-- The cell before a freed pointer, as long as nobody has got its memory: a slot holds a list node, a
block still holds the header. -/
structure FreedRep (h : Heap) (live freed : List (ℕ × ℕ)) : Prop where
  offset : ∀ e ∈ freed, headerSize ≤ e.1
  apart : ∀ e ∈ freed, ∀ d ∈ live, AllocationsApart e d
  small : ∀ a n, (a + headerSize, n) ∈ freed → n + headerSize ≤ maxSizeClass →
    (h.cells a).magic ≠ allocMagic
  large : ∀ a n, (a + headerSize, n) ∈ freed → maxSizeClass < n + headerSize →
    (h.cells a).magic = allocMagic ∧ ¬ OutsidePool h.buddy a headerSize

namespace FreedRep

variable {h h' : Heap} {live live' freed large : List (ℕ × ℕ)} {slots free : ℕ → List ℕ} {S : Set ℕ}
  {p n : ℕ}

/-- The cells before the freed pointers stay as they are. -/
theorem congr (hfreed : FreedRep h live freed) (hmemory : h'.buddy.memory = h.buddy.memory)
    (hlive : ∀ d ∈ live', d ∈ live)
    (hcells : ∀ a n, (a + headerSize, n) ∈ freed → h'.cells a = h.cells a) :
    FreedRep h' live' freed := by
  refine ⟨hfreed.offset, fun e he d hd => hfreed.apart e he d (hlive d hd), fun a n hmem hle => ?_,
    fun a n hmem hlt => ?_⟩
  · rw [hcells a n hmem]
    exact hfreed.small a n hmem hle
  · rw [hcells a n hmem, OutsidePool, hmemory]
    exact hfreed.large a n hmem hlt

/-- `lgx_heap_alloc`. -/
theorem alloc (hfreed : FreedRep h live freed) (hrep : HeapRep h live large slots free S)
    (haligned : SlabsAligned h) (hot : Bool) {slabMemory : Option ℕ}
    (hfresh : ∀ m, slabMemory = some m → FreshMemory h m)
    (hslab : ∀ m, slabMemory = some m → 16 ∣ m) (size : ℕ) :
    FreedRep (lgxHeapAlloc h hot slabMemory size).2
      (grant (lgxHeapAlloc h hot slabMemory size).1 size live)
      (forget (lgxHeapAlloc h hot slabMemory size).1 size freed) := by
  have hcells := hrep.alloc_cells haligned hot hfresh hslab size
  have hmemory := (hrep.alloc_memory hot hfresh size).pool
  generalize lgxHeapAlloc h hot slabMemory size = outcome at hcells hmemory ⊢
  obtain ⟨result, h'⟩ := outcome
  have hsub : ∀ e ∈ forget result size freed, e ∈ freed := by
    cases result with
    | none => exact fun e he => he
    | some ptr => exact fun e he => List.mem_of_mem_filter he
  -- the new header is not before a pointer that is kept
  have hnew : ∀ a n, (a + headerSize, n) ∈ forget result size freed → result ≠ some (a + headerSize) := by
    rintro a n hmem rfl
    have hapart := of_decide_eq_true (List.mem_filter.mp hmem).2
    simp only [AllocationsApart, headerSize] at hapart
    omega
  refine ⟨fun e he => hfreed.offset e (hsub e he), fun e he d hd => ?_, fun a n hmem hle => ?_,
    fun a n hmem hlt => ?_⟩
  · cases result with
    | none => exact hfreed.apart e he d hd
    | some ptr =>
        rcases List.mem_cons.mp hd with rfl | hd
        · exact of_decide_eq_true (List.mem_filter.mp he).2
        · exact hfreed.apart e (hsub e he) d hd
  · rcases hcells a with hsame | hheader | ⟨hmagic, -⟩
    · rw [hsame]
      exact hfreed.small a n (hsub _ hmem) hle
    · exact absurd hheader (hnew a n hmem)
    · exact hmagic
  · obtain ⟨hmagic, hpool⟩ := hfreed.large a n (hsub _ hmem) hlt
    rcases hcells a with hsame | hheader | ⟨-, hout⟩
    · rw [hsame, OutsidePool, hmemory]
      exact ⟨hmagic, hpool⟩
    · exact absurd hheader (hnew a n hmem)
    · exact absurd hout hpool

/-- `lgx_heap_free` of a live pointer. -/
theorem release (hfreed : FreedRep h live freed) (hrep : HeapRep h live large slots free S)
    (haligned : SlabsAligned h) (hlive : (p, n) ∈ live) (hfree : lgxHeapFree h p = some h') :
    FreedRep h' (live.erase (p, n)) ((p, n) :: freed) := by
  obtain ⟨a, rfl, -⟩ := hrep.header p n hlive
  obtain ⟨hcells, hsmall, hlarge⟩ := hrep.free_cells haligned hlive hfree
  have hmemory := (lgxHeapFree_memory hfree).pool
  have hother : ∀ x m, (x + headerSize, m) ∈ freed → x ≠ a := by
    rintro x m hmem rfl
    have hapart := hfreed.apart _ hmem _ hlive
    simp only [AllocationsApart, headerSize] at hapart
    omega
  have hold : FreedRep h' (live.erase (a + headerSize, n)) freed :=
    hfreed.congr hmemory (fun d hd => List.mem_of_mem_erase hd) fun x m hmem => hcells x (hother x m hmem)
  refine ⟨List.forall_mem_cons.mpr ⟨Nat.le_add_left .., hold.offset⟩,
    List.forall_mem_cons.mpr ⟨fun d hd => ?_, hold.apart⟩, fun x m hmem hle => ?_,
    fun x m hmem hlt => ?_⟩
  · have hnodup : live.Nodup := hrep.nodup.of_map
    obtain ⟨hne, hd⟩ := hnodup.mem_erase_iff.mp hd
    refine hrep.allocations_apart hlive hd fun heq => hne ?_
    obtain ⟨q, m⟩ := d
    obtain rfl : a + headerSize = q := heq
    rw [hrep.eq_of_fst_eq hlive hd]
  · rcases List.mem_cons.mp hmem with heq | hmem
    · obtain ⟨hx, rfl⟩ := Prod.mk.inj heq
      obtain rfl := Nat.add_right_cancel hx
      exact hsmall hle
    · exact hold.small x m hmem hle
  · rcases List.mem_cons.mp hmem with heq | hmem
    · obtain ⟨hx, rfl⟩ := Prod.mk.inj heq
      obtain rfl := Nat.add_right_cancel hx
      refine ⟨hlarge hlt, ?_⟩
      have hbig := mt (sizeToClass_lt_iff (m + headerSize)).mp (by omega)
      obtain ⟨-, block, -, hptr, hle, hend⟩ := hrep.large_mem hlive (Nat.not_lt.mp hbig)
      simp only [OutsidePool, hmemory, headerSize, buddyHeaderSize, buddyPoolSize] at hptr hend ⊢
      omega
    · exact hold.large x m hmem hlt

/-- A client reaches no freed memory. -/
theorem write (hfreed : FreedRep h live freed) (hlive : (p, n) ∈ live) {cells : ℕ → Cell}
    {contents : ℕ → BuddyBlock} (hcells : ∀ x ∉ payloadCells p n, cells x = h.cells x) :
    FreedRep { h with cells := cells, buddy := { h.buddy with block := contents } } live freed := by
  refine hfreed.congr rfl (fun _ hd => hd) fun a m hmem => hcells a fun hreach => ?_
  have hapart := hfreed.apart _ hmem _ hlive
  simp only [AllocationsApart, payloadCells, Set.mem_ofPred_eq, headerSize, buddyHeaderSize] at hapart hreach
  omega

/-- A second free of a pointer to a slot is refused. -/
theorem harmless (hfreed : FreedRep h live freed) (hmem : (p, n) ∈ freed)
    (hsmall : n + headerSize ≤ maxSizeClass) : HarmlessFree h p := by
  obtain ⟨a, rfl⟩ : ∃ a, p = a + headerSize := ⟨p - headerSize, by
    have := hfreed.offset _ hmem
    omega⟩
  have hptr : ¬ a + headerSize = 0 := by
    simp only [headerSize]
    omega
  have hmagic := hfreed.small a n hmem hsmall
  rw [HarmlessFree, lgxHeapFree, if_neg hptr]
  simp only [Nat.add_sub_cancel, if_pos hmagic]

/-- A second free of a pointer to a block is counted as a free. -/
theorem not_harmless (hfreed : FreedRep h live freed) (hmem : (p, n) ∈ freed)
    (hlarge : maxSizeClass < n + headerSize) : ¬ HarmlessFree h p := by
  obtain ⟨a, rfl⟩ : ∃ a, p = a + headerSize := ⟨p - headerSize, by
    have := hfreed.offset _ hmem
    omega⟩
  intro hharmless
  have hptr : ¬ a + headerSize = 0 := by
    simp only [headerSize]
    omega
  obtain ⟨hmagic, -⟩ := hfreed.large a n hmem hlarge
  rw [HarmlessFree, lgxHeapFree, if_neg hptr] at hharmless
  simp only [Nat.add_sub_cancel, hmagic, ne_eq, not_true_eq_false, if_false] at hharmless
  obtain ⟨h₁, hreturned, heq⟩ := Option.map_eq_some_iff.mp hharmless
  -- the count of frees has gone up
  have htotal : h₁.totalFrees + 1 = h.totalFrees := congrArg Heap.totalFrees heq
  have hsame : h₁.totalFrees = h.totalFrees := by
    split at hreturned
    · rw [← Option.some.inj hreturned]
      rfl
    · obtain ⟨b, -, rfl⟩ := Option.map_eq_some_iff.mp hreturned
      rfl
  omega

end FreedRep

/-- The invariant of a run. -/
theorem FreeReachable.rep {r : FreeRun} (h : FreeReachable r) :
    ∃ large slots free S, HeapRep r.heap r.live large slots free S ∧ SlabsAligned r.heap ∧
      FreedRep r.heap r.live r.freed := by
  induction h with
  | init memory contents cells hmemory huser =>
      refine ⟨_, _, _, _, HeapRep.init hmemory huser contents cells, fun c _ slab hslab => ?_, ?_⟩
      · cases hslab
      · exact ⟨by simp, by simp, by simp, by simp⟩
  | step _ hstep ih =>
      obtain ⟨large, slots, free, S, hrep, haligned, hfreed⟩ := ih
      cases hstep with
      | alloc hot slabMemory size hfresh hslab =>
          obtain ⟨large', slots', free', S', hrep'⟩ := hrep.alloc hot hfresh size
          exact ⟨large', slots', free', S', hrep',
            haligned.of_sameMemory (hrep.alloc_memory hot hfresh size) hslab,
            hfreed.alloc hrep haligned hot hfresh hslab size⟩
      | free ptr size h' hlive hfree =>
          obtain ⟨h'', large', slots', free', S', heq, hrep'⟩ := hrep.release hlive
          obtain rfl := Option.some.inj (hfree.symm.trans heq)
          exact ⟨large', slots', free', S', hrep',
            haligned.of_sameMemory (lgxHeapFree_memory hfree) (by simp),
            hfreed.release hrep haligned hlive hfree⟩
      | freeAgain ptr size h' hmem hsmall hfree =>
          obtain rfl := Option.some.inj (hfree.symm.trans (hfreed.harmless hmem hsmall))
          exact ⟨large, slots, free, S, hrep.congr rfl rfl rfl, haligned,
            hfreed.congr rfl (fun _ hd => hd) fun _ _ _ => rfl⟩
      | write ptr size cells contents hlive hcells hcontents =>
          exact ⟨large, slots, free, S, hrep.write hlive hcells hcontents, haligned,
            hfreed.write hlive hcells⟩

/-- In every reachable state a second free is harmless exactly if the allocation, with its header, came
from a slab. -/
theorem harmlessFree_iff {r : FreeRun} (h : FreeReachable r) {p n : ℕ} (hmem : (p, n) ∈ r.freed) :
    HarmlessFree r.heap p ↔ n + headerSize ≤ maxSizeClass := by
  obtain ⟨large, slots, free, S, -, -, hfreed⟩ := h.rep
  refine ⟨fun hharmless => ?_, hfreed.harmless hmem⟩
  by_contra hlarge
  exact hfreed.not_harmless hmem (not_le.mp hlarge) hharmless

/-- A new heap, one request and the free of what it got. -/
theorem exists_run_after_free {slabMemory : Option ℕ} {size ptr : ℕ}
    (hslab : ∀ m, slabMemory = some m → m = 2 ^ 21)
    (hresult : (lgxHeapAlloc newHeap false slabMemory size).1 = some ptr) :
    ∃ r, FreeReachable r ∧ r.freed = [(ptr, size)] ∧
      lgxHeapFree (lgxHeapAlloc newHeap false slabMemory size).2 ptr = some r.heap := by
  have hinit : FreeReachable ⟨newHeap, [], []⟩ := .init _ _ _ (by decide) (by decide)
  have hfresh : ∀ m, slabMemory = some m → FreshMemory newHeap m := by
    intro m hm
    obtain rfl := hslab m hm
    exact freshMemory_newHeap
  have hreach := hinit.step (.alloc _ false slabMemory size hfresh fun m hm => by
    rw [hslab m hm]
    decide)
  have hlive : (ptr, size) ∈ grant (lgxHeapAlloc newHeap false slabMemory size).1 size [] := by
    rw [hresult, grant]
    exact List.mem_cons_self ..
  obtain ⟨large, slots, free, S, hrep, -⟩ := hreach.rep
  obtain ⟨h', -, -, -, -, heq, -⟩ := hrep.release hlive
  refine ⟨_, hreach.step (.free _ ptr size h' hlive heq), ?_, heq⟩
  simp only [hresult, forget, List.filter_nil]

/-- 1000 bytes at the start of a slab, freed twice. -/
theorem harmlessFree_slot :
    ∃ r, FreeReachable r ∧ r.freed = [(2 ^ 21 + 24, 1000)] ∧ HarmlessFree r.heap (2 ^ 21 + 24) := by
  have hresult : (lgxHeapAlloc newHeap false (some (2 ^ 21)) 1000).1 = some (2 ^ 21 + 24) := by
    decide +kernel
  obtain ⟨r, hreach, hfreed, -⟩ := exists_run_after_free (by simp) hresult
  exact ⟨r, hreach, hfreed,
    (harmlessFree_iff hreach (by rw [hfreed]; exact List.mem_cons_self ..)).mpr (by decide)⟩

/-- 5000 bytes, freed twice: the count of live allocations goes below zero. -/
theorem not_harmlessFree_block :
    ∃ r h', FreeReachable r ∧ r.freed = [(2 ^ 30 + 48, 5000)] ∧ r.heap.numActiveAllocations = 0 ∧
      lgxHeapFree r.heap (2 ^ 30 + 48) = some h' ∧ h'.numActiveAllocations = 2 ^ 64 - 1 ∧
      ¬ HarmlessFree r.heap (2 ^ 30 + 48) := by
  have hresult : (lgxHeapAlloc newHeap false none 5000).1 = some (2 ^ 30 + 48) := by decide +kernel
  obtain ⟨r, hreach, hfreed, heq⟩ := exists_run_after_free (by simp) hresult
  have hcounts : (((lgxHeapFree (lgxHeapAlloc newHeap false none 5000).2 (2 ^ 30 + 48)).bind fun h =>
      (lgxHeapFree h (2 ^ 30 + 48)).map fun h' => (h.numActiveAllocations, h'.numActiveAllocations))) =
        some (0, 2 ^ 64 - 1) := by
    decide +kernel
  rw [heq, Option.bind_some] at hcounts
  obtain ⟨h', hfree, hcounts⟩ := Option.map_eq_some_iff.mp hcounts
  obtain ⟨hzero, hbelow⟩ := Prod.mk.inj hcounts
  refine ⟨r, h', hreach, hfreed, hzero, hfree, hbelow, fun hharmless => ?_⟩
  rw [HarmlessFree, hfree] at hharmless
  obtain rfl := Option.some.inj hharmless
  exact absurd (hzero.symm.trans hbelow) (by decide)

end LgxRuntime.PersistentHeap
