import LgxRuntime.PersistentHeap.BuddyRun
import LgxRuntime.PersistentHeap.SlabInvariant

/-!
# The invariant of the persistent heap

The slabs of the size classes and the buddy pool do not overlap (`Layout`).  `HeapRep` says that the
slots that are taken, class by class, and the blocks of the buddy allocator that are taken are exactly
those of the live pointers, and that the header before each live pointer is the one `lgx_heap_alloc`
wrote.  A client that writes into its own allocation reaches no header and no list node, so the three
kinds of steps of a run keep the invariant.
-/

namespace LgxRuntime.PersistentHeap

open Function (update update_self update_of_ne)

/-! ## Size classes -/

theorem classToSize_eq (c : ℕ) : classToSize c = 16 * 2 ^ c := by
  rw [classToSize, minSizeClass, Nat.shiftLeft_eq]

theorem sizeToClass_lt_iff (size : ℕ) : sizeToClass size < numSizeClasses ↔ size ≤ maxSizeClass := by
  unfold sizeToClass
  split
  · rename_i hmin
    exact iff_of_true (by decide) (hmin.trans (by decide))
  · split
    · rename_i hmax
      exact iff_of_false (Nat.lt_irrefl _) (Nat.not_le.mpr hmax)
    · rename_i hmax
      have hle : fitLevel (numSizeClasses - 1) size minSizeClass 0 ≤ numSizeClasses - 1 :=
        fitLevel_le (Nat.zero_le _) _
      exact iff_of_true (Nat.lt_of_le_of_lt hle (by decide)) (Nat.not_lt.mp hmax)

/-- The class of a small request has room for it. -/
theorem le_classToSize_sizeToClass {size : ℕ} (hsize : size ≤ maxSizeClass) :
    size ≤ classToSize (sizeToClass size) := by
  rw [classToSize_eq, sizeToClass]
  split
  · rename_i hmin
    exact hmin
  · rw [if_neg (Nat.not_lt.mpr hsize)]
    exact @le_fitLevel 15 size 16 0 (hsize.trans (by decide))

/-- With its header no request is as small as the smallest class. -/
theorem sizeToClass_pos {size : ℕ} (hsize : minSizeClass < size) : 0 < sizeToClass size := by
  by_cases hmax : size ≤ maxSizeClass
  · refine Nat.pos_of_ne_zero fun hzero => ?_
    have hfit := le_classToSize_sizeToClass hmax
    rw [hzero] at hfit
    exact absurd hfit (Nat.not_le.mpr hsize)
  · have hclass := mt (sizeToClass_lt_iff size).mp hmax
    exact Nat.lt_of_lt_of_le (by decide) (Nat.not_lt.mp hclass)

theorem headerSize_le_classToSize {c : ℕ} (hc : 0 < c) : headerSize ≤ classToSize c := by
  have hpow : 2 ^ 1 ≤ 2 ^ c := Nat.pow_le_pow_right (by omega) hc
  rw [classToSize_eq, headerSize]
  omega

/-- The size class that the header of a request of `size` bytes records. -/
def headerClass (size : ℕ) : ℤ :=
  if sizeToClass (size + headerSize) < numSizeClasses then sizeToClass (size + headerSize) else -1

namespace Heap

@[simp]
theorem setClassState_sizeClasses_self (h : Heap) (c : ℕ) (s : ClassState) :
    (h.setClassState c s).sizeClasses c = s.allocator :=
  update_self ..

theorem setClassState_sizeClasses_of_ne (h : Heap) {c c' : ℕ} (s : ClassState) (hne : c' ≠ c) :
    (h.setClassState c s).sizeClasses c' = h.sizeClasses c' :=
  update_of_ne hne ..

end Heap

/-! ## Where slabs and blocks lie -/

/-- User-space addresses have at most 56 bits. -/
def userSpace : ℕ := 2 ^ 56

/-- The range `[lo, lo + length)` does not meet the buddy pool. -/
def OutsidePool (b : Buddy) (lo length : ℕ) : Prop :=
  lo + length ≤ b.memory ∨ b.memory + buddyPoolSize ≤ lo

/-- The slabs of the classes and the buddy pool lie apart from each other.  Class 0, whose slots
would be too small for a header, has no slabs. -/
structure Layout (h : Heap) : Prop where
  userSpace : h.buddy.memory + buddyPoolSize ≤ userSpace
  slabs : ∀ c < numSizeClasses, SlabsRep (classToSize c) (h.sizeClasses c).slabs
  class_zero : (h.sizeClasses 0).slabs = []
  apart : ∀ c < numSizeClasses, ∀ c' < numSizeClasses, c ≠ c' →
    ∀ slab ∈ (h.sizeClasses c).slabs, ∀ slab' ∈ (h.sizeClasses c').slabs, Apart slab slab'
  pool : ∀ c < numSizeClasses, ∀ slab ∈ (h.sizeClasses c).slabs,
    OutsidePool h.buddy slab.memory slabSize

/-- Memory that the system may hand out for a new slab. -/
structure FreshMemory (h : Heap) (memory : ℕ) : Prop where
  pos : 0 < memory
  slabs : ∀ c < numSizeClasses, ∀ slab ∈ (h.sizeClasses c).slabs,
    memory + slabSize ≤ slab.memory ∨ slab.memory + slabSize ≤ memory
  pool : OutsidePool h.buddy memory slabSize

instance : Std.Symm Apart := ⟨fun _ _ hapart => hapart.symm⟩

/-- Distinct slots of one class do not overlap. -/
theorem SlabsRep.slots_apart {objectSize a x : ℕ} {slabs : List Slab} (h : SlabsRep objectSize slabs)
    (ha : a ∈ leftSlots slabs) (hx : x ∈ leftSlots slabs) (hne : a ≠ x) :
    a + objectSize ≤ x ∨ x + objectSize ≤ a := by
  obtain ⟨slab, hslab, i, hi, -, rfl⟩ := ha
  obtain ⟨slab', hslab', j, hj, -, rfl⟩ := hx
  have hwf := h.wellFormed slab hslab
  have hwf' := h.wellFormed slab' hslab'
  have hle := hwf.slot_le hi
  have hle' := hwf'.slot_le hj
  by_cases hsame : slab = slab'
  · subst hsame
    have hij : i ≠ j := fun heq => hne (heq ▸ rfl)
    rw [Slab.slot, Slab.slot, hwf.size_eq]
    rcases Nat.lt_or_gt_of_ne hij with hlt | hlt
    · have := Nat.mul_le_mul_right objectSize (show i + 1 ≤ j from hlt)
      rw [Nat.add_mul] at this
      omega
    · have := Nat.mul_le_mul_right objectSize (show j + 1 ≤ i from hlt)
      rw [Nat.add_mul] at this
      omega
  · have hapart : Apart slab slab' := h.apart.forall hslab hslab' hsame
    have hlow := (hwf.slot_mem hi).1
    have hlow' := (hwf'.slot_mem hj).1
    unfold Apart at hapart
    omega

namespace Layout

variable {h : Heap} {c c' a x : ℕ}

theorem pos_of_leftSlots (hlayout : Layout h) (ha : a ∈ leftSlots (h.sizeClasses c).slabs) :
    0 < c := by
  refine Nat.pos_of_ne_zero ?_
  rintro rfl
  obtain ⟨slab, hslab, -⟩ := ha
  rw [hlayout.class_zero] at hslab
  simp at hslab

/-- A slot lies inside a slab of its class. -/
theorem slot_inside (hlayout : Layout h) (hc : c < numSizeClasses)
    (ha : a ∈ leftSlots (h.sizeClasses c).slabs) :
    ∃ slab ∈ (h.sizeClasses c).slabs,
      slab.memory ≤ a ∧ a + classToSize c ≤ slab.memory + slabSize := by
  obtain ⟨slab, hslab, i, hi, -, rfl⟩ := ha
  have hwf := (hlayout.slabs c hc).wellFormed slab hslab
  exact ⟨slab, hslab, (hwf.slot_mem hi).1, hwf.slot_le hi⟩

theorem slots_apart (hlayout : Layout h) (hc : c < numSizeClasses) (hc' : c' < numSizeClasses)
    (ha : a ∈ leftSlots (h.sizeClasses c).slabs) (hx : x ∈ leftSlots (h.sizeClasses c').slabs)
    (hne : a ≠ x ∨ c ≠ c') : a + classToSize c ≤ x ∨ x + classToSize c' ≤ a := by
  by_cases hcc : c = c'
  · subst hcc
    exact (hlayout.slabs c hc).slots_apart ha hx (hne.resolve_right fun hne => hne rfl)
  · obtain ⟨slab, hslab, hlow, hhigh⟩ := hlayout.slot_inside hc ha
    obtain ⟨slab', hslab', hlow', hhigh'⟩ := hlayout.slot_inside hc' hx
    have hapart := hlayout.apart c hc c' hc' hcc slab hslab slab' hslab'
    unfold Apart at hapart
    omega

/-- A slot belongs to one class only. -/
theorem class_unique (hlayout : Layout h) (hc : c < numSizeClasses) (hc' : c' < numSizeClasses)
    (ha : a ∈ leftSlots (h.sizeClasses c).slabs) (ha' : a ∈ leftSlots (h.sizeClasses c').slabs) :
    c = c' := by
  by_contra hne
  have hapart := hlayout.slots_apart hc hc' ha ha' (Or.inr hne)
  have hroom := headerSize_le_classToSize (hlayout.pos_of_leftSlots ha)
  have hroom' := headerSize_le_classToSize (hlayout.pos_of_leftSlots ha')
  unfold headerSize at hroom hroom'
  omega

theorem slot_outsidePool (hlayout : Layout h) (hc : c < numSizeClasses)
    (ha : a ∈ leftSlots (h.sizeClasses c).slabs) : OutsidePool h.buddy a (classToSize c) := by
  obtain ⟨slab, hslab, hlow, hhigh⟩ := hlayout.slot_inside hc ha
  have hpool := hlayout.pool c hc slab hslab
  unfold OutsidePool at hpool ⊢
  omega

/-- The slabs of one class may be replaced by slabs at the same places and a new slab. -/
theorem setClassState {s : ClassState} {slabMemory : Option ℕ} (hlayout : Layout h) (hpos : 0 < c)
    (hlt : c < numSizeClasses) (hslabs : SlabsRep (classToSize c) s.allocator.slabs)
    (hlocated : Located (h.sizeClasses c).slabs s.allocator.slabs slabMemory)
    (hfresh : ∀ m, slabMemory = some m → FreshMemory h m) : Layout (h.setClassState c s) := by
  have hself := h.setClassState_sizeClasses_self c s
  have hsame := fun c' (hne : c' ≠ c) => h.setClassState_sizeClasses_of_ne s hne
  have hapart : ∀ c' < numSizeClasses, c' ≠ c → ∀ slab ∈ s.allocator.slabs,
      ∀ slab' ∈ (h.sizeClasses c').slabs, Apart slab slab' := by
    intro c' hc' hne slab hslab slab' hslab'
    rcases hlocated slab hslab with ⟨old, hold, heq⟩ | heq
    · have := hlayout.apart c hlt c' hc' (Ne.symm hne) old hold slab' hslab'
      rwa [Apart, heq] at this
    · exact (hfresh _ heq.symm).slabs c' hc' slab' hslab'
  refine ⟨hlayout.userSpace, ?_, ?_, ?_, ?_⟩
  · intro c' hc'
    by_cases hcc : c' = c
    · subst hcc
      rwa [hself]
    · rw [hsame c' hcc]
      exact hlayout.slabs c' hc'
  · rw [hsame 0 (by omega)]
    exact hlayout.class_zero
  · intro c₁ hc₁ c₂ hc₂ hne slab hslab slab' hslab'
    by_cases h₁ : c₁ = c
    · subst h₁
      rw [hself] at hslab
      rw [hsame c₂ (Ne.symm hne)] at hslab'
      exact hapart c₂ hc₂ (Ne.symm hne) slab hslab slab' hslab'
    · rw [hsame c₁ h₁] at hslab
      by_cases h₂ : c₂ = c
      · subst h₂
        rw [hself] at hslab'
        exact (hapart c₁ hc₁ h₁ slab' hslab' slab hslab).symm
      · rw [hsame c₂ h₂] at hslab'
        exact hlayout.apart c₁ hc₁ c₂ hc₂ hne slab hslab slab' hslab'
  · intro c' hc' slab hslab
    by_cases hcc : c' = c
    · subst hcc
      rw [hself] at hslab
      rcases hlocated slab hslab with ⟨old, hold, heq⟩ | heq
      · exact heq ▸ hlayout.pool c' hc' old hold
      · exact (hfresh _ heq.symm).pool
    · rw [hsame c' hcc] at hslab
      exact hlayout.pool c' hc' slab hslab

end Layout

/-! ## The invariant -/

/-- The heap `h` with the live pointers `live`, each with its requested size.  `large` lists what the
buddy allocator has handed out for them, `slots c` the free list of class `c`; `free` and `S` are the
free lists and the blocks of the buddy allocator. -/
structure HeapRep (h : Heap) (live large : List (ℕ × ℕ)) (slots free : ℕ → List ℕ) (S : Set ℕ) :
    Prop where
  layout : Layout h
  classes : ∀ c < numSizeClasses, ClassRep (classToSize c) (h.classState c) (slots c)
  taken_iff : ∀ c < numSizeClasses, ∀ a, a ∈ takenSlots (h.classState c) (slots c) ↔
    ∃ n, (a + headerSize, n) ∈ live ∧ sizeToClass (n + headerSize) = c
  buddy : Owned h.buddy large free S
  large_iff : ∀ q m, (q, m) ∈ large ↔ ∃ n, m = n + headerSize ∧ (q + headerSize, n) ∈ live ∧
    numSizeClasses ≤ sizeToClass (n + headerSize)
  large_le : ∀ q m, (q, m) ∈ large → q + m ≤ h.buddy.memory + buddyPoolSize
  nodup : (live.map Prod.fst).Nodup
  header : ∀ p n, (p, n) ∈ live →
    ∃ a, p = a + headerSize ∧ h.cells a = allocationHeader n (headerClass n)

namespace HeapRep

variable {h h' : Heap} {live large : List (ℕ × ℕ)} {slots free : ℕ → List ℕ} {S : Set ℕ}
variable {a n p x c : ℕ}

/-- The statistics do not matter. -/
theorem congr (hrep : HeapRep h live large slots free S) (hclasses : h'.sizeClasses = h.sizeClasses)
    (hbuddy : h'.buddy = h.buddy) (hcells : h'.cells = h.cells) :
    HeapRep h' live large slots free S := by
  obtain ⟨sizeClasses, buddy, cells⟩ := h'
  obtain rfl : sizeClasses = h.sizeClasses := hclasses
  obtain rfl : buddy = h.buddy := hbuddy
  obtain rfl : cells = h.cells := hcells
  obtain ⟨huser, hslabs, hzero, hapart, hpool⟩ := hrep.layout
  refine ⟨⟨huser, hslabs, hzero, hapart, hpool⟩, fun c hc => ?_, hrep.taken_iff, hrep.buddy,
    hrep.large_iff, hrep.large_le, hrep.nodup, hrep.header⟩
  exact (hrep.classes c hc).congr (hrep.classes c hc).objectSize_eq rfl rfl fun _ _ => rfl

/-- A live pointer of a small request follows a slot of the class of the request. -/
theorem small_mem (hrep : HeapRep h live large slots free S) (hlive : (a + headerSize, n) ∈ live)
    (hsmall : sizeToClass (n + headerSize) < numSizeClasses) :
    a ∈ takenSlots (h.classState (sizeToClass (n + headerSize)))
      (slots (sizeToClass (n + headerSize))) :=
  (hrep.taken_iff _ hsmall a).mpr ⟨n, hlive, rfl⟩

/-- A live pointer of a large request lies in the buddy pool, behind a block header. -/
theorem large_mem (hrep : HeapRep h live large slots free S) (hlive : (a + headerSize, n) ∈ live)
    (hbig : numSizeClasses ≤ sizeToClass (n + headerSize)) :
    (a, n + headerSize) ∈ large ∧ ∃ block ∈ S, a = block + buddyHeaderSize ∧
      h.buddy.memory ≤ block ∧ a + (n + headerSize) ≤ h.buddy.memory + buddyPoolSize := by
  have hmem : (a, n + headerSize) ∈ large := (hrep.large_iff _ _).mpr ⟨n, rfl, hlive, hbig⟩
  obtain ⟨block, hblock, hptr, -⟩ := hrep.buddy.of_live _ _ hmem
  exact ⟨hmem, block, hblock.1, hptr, hrep.buddy.rep.memory_le block hblock.1,
    hrep.large_le _ _ hmem⟩

theorem eq_of_fst_eq (hrep : HeapRep h live large slots free S) {m : ℕ} (hn : (p, n) ∈ live)
    (hm : (p, m) ∈ live) : n = m :=
  (Prod.mk.inj (List.inj_on_of_nodup_map hrep.nodup hn hm rfl)).2

/-- What a small request reserves has room for it. -/
theorem small_room (hsmall : sizeToClass (n + headerSize) < numSizeClasses) :
    n + headerSize ≤ classToSize (sizeToClass (n + headerSize)) :=
  le_classToSize_sizeToClass ((sizeToClass_lt_iff _).mp hsmall)

/-! ### What a client can reach -/

/-- A client reaches no slot but its own, and of that not the header. -/
theorem slot_not_mem_payload (hrep : HeapRep h live large slots free S) (hlive : (p, n) ∈ live)
    (hc : c < numSizeClasses) (hx : x ∈ leftSlots (h.sizeClasses c).slabs) :
    x ∉ payloadCells p n := by
  rintro ⟨hlow, hhigh⟩
  obtain ⟨a, rfl, -⟩ := hrep.header p n hlive
  have hheader := headerSize_le_classToSize (hrep.layout.pos_of_leftSlots hx)
  have hne : a ≠ x := by
    rintro rfl
    simp only [buddyHeaderSize, headerSize] at hlow
    omega
  simp only [buddyHeaderSize] at hlow
  by_cases hsmall : sizeToClass (n + headerSize) < numSizeClasses
  · have hroom := small_room hsmall
    have hapart := hrep.layout.slots_apart hsmall hc (hrep.small_mem hlive hsmall).1 hx (Or.inl hne)
    simp only [headerSize] at hlow hhigh hheader hroom hapart
    omega
  · obtain ⟨-, block, -, hptr, hle, hend⟩ := hrep.large_mem hlive (Nat.not_lt.mp hsmall)
    have hout := hrep.layout.slot_outsidePool hc hx
    simp only [OutsidePool, headerSize, buddyHeaderSize] at hlow hhigh hheader hptr hend hout
    omega

/-- A client reaches no header of a block. -/
theorem block_not_mem_payload (hrep : HeapRep h live large slots free S) (hlive : (p, n) ∈ live)
    (hx : x ∈ S) : x ∉ payloadCells p n := by
  rintro ⟨hlow, hhigh⟩
  obtain ⟨a, rfl, -⟩ := hrep.header p n hlive
  by_cases hsmall : sizeToClass (n + headerSize) < numSizeClasses
  · have hroom := small_room hsmall
    have hout := hrep.layout.slot_outsidePool hsmall (hrep.small_mem hlive hsmall).1
    have hle := hrep.buddy.rep.memory_le x hx
    have hpool := hrep.buddy.rep.block_le_pool hx
    have hblock := buddyHeaderSize_le_orderToSize (h.buddy.block x).order
    simp only [OutsidePool, buddyHeaderSize, headerSize] at hlow hhigh hroom hout hpool hblock
    rw [hrep.buddy.rep.pool] at hpool
    omega
  · obtain ⟨hmem, -⟩ := hrep.large_mem hlive (Nat.not_lt.mp hsmall)
    refine hrep.buddy.not_mem_payload hmem hx ⟨?_, ?_⟩
    · omega
    · omega

/-- A client reaches no header of a live pointer. -/
theorem header_not_mem_payload (hrep : HeapRep h live large slots free S) (hlive : (p, n) ∈ live)
    {m : ℕ} (hlive' : (x + headerSize, m) ∈ live) : x ∉ payloadCells p n := by
  by_cases hsmall : sizeToClass (m + headerSize) < numSizeClasses
  · exact hrep.slot_not_mem_payload hlive hsmall (hrep.small_mem hlive' hsmall).1
  · rintro ⟨hlow, hhigh⟩
    obtain ⟨-, block, hblock, hptr, hle, hend⟩ := hrep.large_mem hlive' (Nat.not_lt.mp hsmall)
    obtain ⟨a, rfl, -⟩ := hrep.header p n hlive
    by_cases hsmall' : sizeToClass (n + headerSize) < numSizeClasses
    · have hroom := small_room hsmall'
      have hout := hrep.layout.slot_outsidePool hsmall' (hrep.small_mem hlive hsmall').1
      simp only [OutsidePool, buddyHeaderSize, headerSize] at hlow hhigh hroom hout hptr hend
      omega
    · obtain ⟨hmem, -⟩ := hrep.large_mem hlive (Nat.not_lt.mp hsmall')
      have hbig := orderToSize_le (Nat.zero_le (h.buddy.block block).order)
      rw [orderToSize_eq 0] at hbig
      by_cases heq : a = block + buddyHeaderSize
      · simp only [buddyHeaderSize, headerSize] at hlow heq hptr
        omega
      · have hapart := hrep.buddy.payload_apart hmem hblock heq
        simp only [buddyHeaderSize, headerSize] at hlow hhigh hapart hptr
        omega

/-- What a client writes into its own allocation keeps the invariant. -/
theorem write (hrep : HeapRep h live large slots free S) (hlive : (p, n) ∈ live) {cells : ℕ → Cell}
    {contents : ℕ → BuddyBlock} (hcells : ∀ x ∉ payloadCells p n, cells x = h.cells x)
    (hcontents : ∀ x ∉ payloadCells p n, contents x = h.buddy.block x) :
    HeapRep { h with cells := cells, buddy := { h.buddy with block := contents } } live large slots
      free S := by
  obtain ⟨huser, hslabs, hzero, hapart, hpool⟩ := hrep.layout
  refine ⟨⟨huser, hslabs, hzero, hapart, hpool⟩, fun c hc => ?_, hrep.taken_iff,
    hrep.buddy.congr fun x hx => hcontents x (hrep.block_not_mem_payload hlive hx), hrep.large_iff,
    hrep.large_le, hrep.nodup, fun q m hlive' => ?_⟩
  · refine (hrep.classes c hc).congr (hrep.classes c hc).objectSize_eq rfl rfl fun x hx => ?_
    exact hcells x (hrep.slot_not_mem_payload hlive hc ((hrep.classes c hc).free_mem x hx))
  · obtain ⟨a, rfl, hheader⟩ := hrep.header q m hlive'
    exact ⟨a, rfl, (hcells a (hrep.header_not_mem_payload hlive hlive')).trans hheader⟩

end HeapRep

end LgxRuntime.PersistentHeap
