import LgxRuntime.PersistentHeap.Heap
import LgxRuntime.Lib.Linked
import Mathlib.Data.Finset.Card
import Mathlib.Data.List.TakeWhile
import Mathlib.Data.Finset.Range
import Mathlib.Data.Set.Insert

/-!
# The invariant of the segregated-fit path

A slot of a slab whose bit is set has left the bitmap: it is on the free list of its class or in the
hands of a client.  `ClassRep` says that the slabs of a class are well formed and disjoint and that the
free list holds slots that have left the bitmap; the others of these are *taken*.  As for the buddy
allocators, each operation is described by what it does to the taken slots.
-/

namespace LgxRuntime.PersistentHeap

open Function (update update_self update_of_ne)

/-! ## One slab -/

namespace Slab

theorem isSet_eq (slab : Slab) (i : ℕ) :
    slab.isSet i = (slab.allocationBitmap (i / 8)).getLsbD (i % 8) := by
  unfold isSet
  rw [BitVec.and_twoPow]
  cases hbit : (slab.allocationBitmap (i / 8)).getLsbD (i % 8)
  · simp
  · have hlt : i % 8 < 8 := Nat.mod_lt _ (by omega)
    simp only [if_true, bne_iff_ne, ne_eq]
    intro hzero
    have hget := congrArg (fun v => BitVec.getLsbD v (i % 8)) hzero
    simp [hlt] at hget

theorem isSet_setBit (slab : Slab) (i j : ℕ) :
    (slab.setBit i).isSet j = (decide (j = i) || slab.isSet j) := by
  rw [isSet_eq, isSet_eq, setBit]
  by_cases hbyte : j / 8 = i / 8
  · simp only [hbyte, update_self, BitVec.getLsbD_or, BitVec.getLsbD_twoPow]
    have hlt : i % 8 < 8 := Nat.mod_lt _ (by omega)
    have hiff : (i % 8 = j % 8) ↔ j = i := by omega
    by_cases hji : j = i
    · subst hji
      simp [hlt]
    · have hne : i % 8 ≠ j % 8 := fun heq => hji (hiff.mp heq)
      simp [hji, hne]
  · have hji : j ≠ i := fun heq => hbyte (heq ▸ rfl)
    simp [update_of_ne hbyte, hji]

/-- The scan runs over the whole bitmap. -/
theorem findFree_eq (slab : Slab) :
    slab.findFree = (List.range slab.capacity).find? fun i => !slab.isSet i := by
  unfold findFree
  rw [List.takeWhile_eq_self_iff.mpr]
  intro i hi
  have hlt := List.mem_range.mp hi
  simp only [decide_eq_true_eq]
  omega

/-- The slots that have left the bitmap. -/
def setSlots (slab : Slab) : Finset ℕ :=
  (Finset.range slab.capacity).filter fun i => slab.isSet i = true

/-- A slab of objects of the given size, whose counter is right. -/
structure WellFormed (slab : Slab) (objectSize : ℕ) : Prop where
  memory_pos : 0 < slab.memory
  size_pos : 0 < objectSize
  size_eq : slab.objectSize = objectSize
  capacity_eq : slab.capacity = slabSize / objectSize
  used_eq : slab.used = slab.setSlots.card

/-- The address of slot `i`. -/
def slot (slab : Slab) (i : ℕ) : ℕ :=
  slab.memory + i * slab.objectSize

variable {slab : Slab} {objectSize i j : ℕ}

namespace WellFormed

/-- A slot ends inside the slab. -/
theorem slot_le (h : slab.WellFormed objectSize) (hi : i < slab.capacity) :
    slab.slot i + objectSize ≤ slab.memory + slabSize := by
  have hmul : (i + 1) * objectSize ≤ slabSize := by
    refine (Nat.mul_le_mul_right objectSize hi).trans ?_
    rw [h.capacity_eq]
    exact Nat.div_mul_le_self _ _
  rw [slot, h.size_eq]
  rw [Nat.add_mul] at hmul
  omega

theorem slot_injective (h : slab.WellFormed objectSize) (hij : slab.slot i = slab.slot j) : i = j := by
  unfold slot at hij
  rw [h.size_eq] at hij
  exact Nat.eq_of_mul_eq_mul_right h.size_pos (by omega)

end WellFormed

end Slab

open Slab (WellFormed)

/-- What a successful `slab_alloc` does: slot `i` leaves the bitmap. -/
structure SlotTaken (slab slab' : Slab) (objectSize i : ℕ) : Prop where
  lt : i < slab.capacity
  wasClear : slab.isSet i = false
  memory_eq : slab'.memory = slab.memory
  capacity_eq : slab'.capacity = slab.capacity
  isSet_iff : ∀ j, slab'.isSet j = true ↔ j = i ∨ slab.isSet j = true
  wellFormed : slab'.WellFormed objectSize

theorem slabAlloc_spec {slab : Slab} {objectSize : ℕ} (h : slab.WellFormed objectSize) :
    (slabAlloc slab = (none, slab) ∧ ∀ i < slab.capacity, slab.isSet i = true) ∨
      ∃ i slab', slabAlloc slab = (some (slab.slot i), slab') ∧ SlotTaken slab slab' objectSize i := by
  by_cases hfull : slab.used ≥ slab.capacity
  · left
    rw [slabAlloc, if_pos hfull]
    refine ⟨rfl, fun i hi => ?_⟩
    have hall : slab.setSlots = Finset.range slab.capacity := by
      refine Finset.eq_of_subset_of_card_le (Finset.filter_subset _ _) ?_
      rw [Finset.card_range, ← h.used_eq]
      exact hfull
    have hmem : i ∈ slab.setSlots := by
      rw [hall]
      exact Finset.mem_range.mpr hi
    exact (Finset.mem_filter.mp hmem).2
  · have hsize : ¬ slab.objectSize = 0 := by
      rw [h.size_eq]
      exact Nat.ne_of_gt h.size_pos
    rw [slabAlloc, if_neg hfull, if_neg hsize, Slab.findFree_eq]
    cases hfind : (List.range slab.capacity).find? fun i => !slab.isSet i with
    | none =>
        left
        refine ⟨rfl, fun i hi => ?_⟩
        simpa using List.find?_eq_none.mp hfind i (List.mem_range.mpr hi)
    | some i =>
        right
        have hlt : i < slab.capacity := List.mem_range.mp (List.mem_of_find?_eq_some hfind)
        have hclear : slab.isSet i = false := by simpa using List.find?_some hfind
        have hinside := h.slot_le hlt
        rw [Slab.slot, h.size_eq] at hinside
        refine ⟨i, { slab.setBit i with used := slab.used + 1 }, ?_, hlt, hclear, rfl, rfl, ?_, ?_⟩
        · simp only
          rw [if_neg]
          · rfl
          · show ¬ (slab.memory + i * slab.objectSize < slab.memory ∨
              slab.memory + i * slab.objectSize + slab.objectSize > slab.memory + slabSize)
            rw [h.size_eq]
            omega
        · intro j
          have hset := slab.isSet_setBit i j
          show (slab.setBit i).isSet j = true ↔ _
          simp [hset]
        · refine ⟨h.memory_pos, h.size_pos, h.size_eq, h.capacity_eq, ?_⟩
          have hinsert : Slab.setSlots { slab.setBit i with used := slab.used + 1 } =
              insert i slab.setSlots := by
            ext j
            simp only [Slab.setSlots, Finset.mem_filter, Finset.mem_range, Finset.mem_insert]
            show j < slab.capacity ∧ (slab.setBit i).isSet j = true ↔ _
            rw [slab.isSet_setBit i j, Bool.or_eq_true, decide_eq_true_eq]
            constructor
            · rintro ⟨hj, rfl | hset⟩
              · exact Or.inl rfl
              · exact Or.inr ⟨hj, hset⟩
            · rintro (rfl | ⟨hj, hset⟩)
              · exact ⟨hlt, Or.inl rfl⟩
              · exact ⟨hj, Or.inr hset⟩
          rw [hinsert, Finset.card_insert_of_notMem (by simp [Slab.setSlots, hclear]), ← h.used_eq]

/-! ## The slabs of a class -/

/-- The addresses of the slots that have left the bitmaps of the slabs. -/
def leftSlots (slabs : List Slab) : Set ℕ :=
  { a | ∃ slab ∈ slabs, ∃ i < slab.capacity, slab.isSet i = true ∧ a = slab.slot i }

/-- Two slabs do not overlap. -/
def Apart (slab slab' : Slab) : Prop :=
  slab.memory + slabSize ≤ slab'.memory ∨ slab'.memory + slabSize ≤ slab.memory

/-- The slabs of a class are well formed and do not overlap. -/
structure SlabsRep (objectSize : ℕ) (slabs : List Slab) : Prop where
  wellFormed : ∀ slab ∈ slabs, slab.WellFormed objectSize
  apart : slabs.Pairwise Apart

theorem mem_leftSlots_append {l₁ l₂ : List Slab} {a : ℕ} :
    a ∈ leftSlots (l₁ ++ l₂) ↔ a ∈ leftSlots l₁ ∨ a ∈ leftSlots l₂ := by
  simp only [leftSlots, Set.mem_ofPred_eq, List.mem_append]
  constructor
  · rintro ⟨slab, hslab | hslab, h⟩
    · exact Or.inl ⟨slab, hslab, h⟩
    · exact Or.inr ⟨slab, hslab, h⟩
  · rintro (⟨slab, hslab, h⟩ | ⟨slab, hslab, h⟩)
    · exact ⟨slab, Or.inl hslab, h⟩
    · exact ⟨slab, Or.inr hslab, h⟩

theorem mem_leftSlots_singleton {slab : Slab} {a : ℕ} :
    a ∈ leftSlots [slab] ↔ ∃ i < slab.capacity, slab.isSet i = true ∧ a = slab.slot i := by
  simp [leftSlots]

/-- A slot lies in the memory of its slab. -/
theorem Slab.WellFormed.slot_mem {slab : Slab} {objectSize i : ℕ} (h : slab.WellFormed objectSize)
    (hi : i < slab.capacity) : slab.memory ≤ slab.slot i ∧ slab.slot i < slab.memory + slabSize := by
  have hle := h.slot_le hi
  have hpos := h.size_pos
  exact ⟨Nat.le_add_right _ _, by omega⟩

theorem SlabsRep.mem_range {objectSize : ℕ} {slabs : List Slab} (h : SlabsRep objectSize slabs) {a : ℕ}
    (ha : a ∈ leftSlots slabs) :
    ∃ slab ∈ slabs, slab.memory ≤ a ∧ a < slab.memory + slabSize := by
  obtain ⟨slab, hslab, i, hi, -, rfl⟩ := ha
  exact ⟨slab, hslab, (h.wellFormed slab hslab).slot_mem hi⟩

theorem Apart.disjoint {slab slab' : Slab} (h : Apart slab slab') {a : ℕ}
    (ha : slab.memory ≤ a ∧ a < slab.memory + slabSize)
    (ha' : slab'.memory ≤ a ∧ a < slab'.memory + slabSize) : False := by
  unfold Apart at h
  omega

theorem SlabsRep.apart_of_append {objectSize : ℕ} {l₁ l₂ : List Slab} {slab : Slab}
    (h : SlabsRep objectSize (l₁ ++ slab :: l₂)) : ∀ other ∈ l₁ ++ l₂, Apart slab other := by
  have hpairwise := h.apart
  rw [List.pairwise_append, List.pairwise_cons] at hpairwise
  intro other hother
  rcases List.mem_append.mp hother with hleft | hright
  · exact (hpairwise.2.2 other hleft slab (List.mem_cons_self ..)).symm
  · exact hpairwise.2.1.1 other hright

/-- Taking a slot of one slab of the list. -/
theorem SlabsRep.replace {objectSize i : ℕ} {l₁ l₂ : List Slab} {slab slab' : Slab}
    (h : SlabsRep objectSize (l₁ ++ slab :: l₂)) (htaken : SlotTaken slab slab' objectSize i) :
    SlabsRep objectSize (l₁ ++ slab' :: l₂) ∧ slab.slot i ∉ leftSlots (l₁ ++ slab :: l₂) ∧
      leftSlots (l₁ ++ slab' :: l₂) = insert (slab.slot i) (leftSlots (l₁ ++ slab :: l₂)) := by
  have hslab := h.wellFormed slab (by simp)
  have hapart := h.apart_of_append
  have hslot : ∀ j, slab'.slot j = slab.slot j := by
    intro j
    rw [Slab.slot, Slab.slot, htaken.memory_eq, htaken.wellFormed.size_eq, hslab.size_eq]
  have hsplit : ∀ (s : Slab) (a : ℕ), a ∈ leftSlots (l₁ ++ s :: l₂) ↔
      a ∈ leftSlots [s] ∨ a ∈ leftSlots (l₁ ++ l₂) := by
    intro s a
    rw [← List.singleton_append, mem_leftSlots_append, mem_leftSlots_append, mem_leftSlots_append]
    tauto
  have hothers : ∀ other ∈ l₁ ++ l₂, other.WellFormed objectSize := by
    intro other hother
    refine h.wellFormed other ?_
    simp only [List.mem_append, List.mem_cons] at hother ⊢
    tauto
  have hfresh : slab.slot i ∉ leftSlots (l₁ ++ l₂) := by
    rintro ⟨other, hother, j, hj, -, heq⟩
    refine (hapart other hother).disjoint (hslab.slot_mem htaken.lt) ?_
    rw [heq]
    exact (hothers other hother).slot_mem hj
  refine ⟨⟨fun s hs => ?_, ?_⟩, ?_, ?_⟩
  · rcases List.mem_append.mp hs with hs | hs
    · exact hothers s (List.mem_append_left _ hs)
    · rcases List.mem_cons.mp hs with rfl | hs
      · exact htaken.wellFormed
      · exact hothers s (List.mem_append_right _ hs)
  · have hpairwise := h.apart
    rw [List.pairwise_append, List.pairwise_cons] at hpairwise ⊢
    simp only [Apart, htaken.memory_eq, List.mem_cons, forall_eq_or_imp] at hpairwise ⊢
    exact hpairwise
  · rw [hsplit]
    rintro (hmem | hmem)
    · obtain ⟨j, -, hset, heq⟩ := mem_leftSlots_singleton.mp hmem
      obtain rfl := hslab.slot_injective heq
      rw [htaken.wasClear] at hset
      exact Bool.noConfusion hset
    · exact hfresh hmem
  · ext a
    rw [Set.mem_insert_iff, hsplit, hsplit, mem_leftSlots_singleton, mem_leftSlots_singleton,
      htaken.capacity_eq]
    simp only [htaken.isSet_iff, hslot]
    constructor
    · rintro (⟨j, hj, rfl | hset, rfl⟩ | hmem)
      · exact Or.inl rfl
      · exact Or.inr (Or.inl ⟨j, hj, hset, rfl⟩)
      · exact Or.inr (Or.inr hmem)
    · rintro (rfl | ⟨j, hj, hset, rfl⟩ | hmem)
      · exact Or.inl ⟨i, htaken.lt, Or.inl rfl, rfl⟩
      · exact Or.inl ⟨j, hj, Or.inr hset, rfl⟩
      · exact Or.inr hmem

/-- The walk over the slabs takes one slot of the first slab that has a clear bit. -/
theorem slabsAlloc_spec {objectSize : ℕ} {slabs : List Slab}
    (h : ∀ slab ∈ slabs, slab.WellFormed objectSize) :
    (slabsAlloc slabs).1 = none ∧ (slabsAlloc slabs).2 = slabs ∨
      ∃ l₁ slab l₂ i slab', slabs = l₁ ++ slab :: l₂ ∧
        slabsAlloc slabs = (some (slab.slot i), l₁ ++ slab' :: l₂) ∧
        SlotTaken slab slab' objectSize i := by
  induction slabs with
  | nil => exact Or.inl ⟨rfl, rfl⟩
  | cons slab slabs ih =>
      rcases slabAlloc_spec (h slab (List.mem_cons_self ..)) with ⟨hnone, -⟩ |
        ⟨i, slab', hsome, htaken⟩
      · rcases ih fun s hs => h s (List.mem_cons_of_mem _ hs) with ⟨hresult, hsame⟩ |
          ⟨l₁, s, l₂, i, s', rfl, heq, htaken⟩
        · left
          simp only [slabsAlloc, hnone]
          exact ⟨hresult, by rw [hsame]⟩
        · right
          refine ⟨slab :: l₁, s, l₂, i, s', rfl, ?_, htaken⟩
          simp only [slabsAlloc, hnone, heq]
          rfl
      · right
        refine ⟨[], slab, slabs, i, slab', rfl, ?_, htaken⟩
        simp only [slabsAlloc, hsome]
        rfl

/-! ## The class -/

/-- The slabs and the free list of a size class. -/
structure ClassRep (objectSize : ℕ) (s : ClassState) (free : List ℕ) : Prop where
  objectSize_eq : s.allocator.objectSize = objectSize
  slabs : SlabsRep objectSize s.allocator.slabs
  linked : Linked (fun a => (s.cells a).next) s.allocator.freeList free
  free_mem : ∀ a ∈ free, a ∈ leftSlots s.allocator.slabs

/-- The slots that have left the bitmaps and are not on the free list. -/
def takenSlots (s : ClassState) (free : List ℕ) : Set ℕ :=
  { a | a ∈ leftSlots s.allocator.slabs ∧ a ∉ free }

theorem SlabsRep.pos {objectSize : ℕ} {slabs : List Slab} (h : SlabsRep objectSize slabs) {a : ℕ}
    (ha : a ∈ leftSlots slabs) : 0 < a := by
  obtain ⟨slab, hslab, hle, -⟩ := h.mem_range ha
  have := (h.wellFormed slab hslab).memory_pos
  omega

namespace ClassRep

variable {objectSize : ℕ} {s s' : ClassState} {free : List ℕ} {a : ℕ}

/-- Cells off the free list may change. -/
theorem congr (h : ClassRep objectSize s free) (hsize : s'.allocator.objectSize = objectSize)
    (hslabs : s'.allocator.slabs = s.allocator.slabs)
    (hhead : s'.allocator.freeList = s.allocator.freeList)
    (hcells : ∀ a ∈ free, s'.cells a = s.cells a) : ClassRep objectSize s' free := by
  refine ⟨hsize, hslabs ▸ h.slabs, ?_, fun a ha => hslabs ▸ h.free_mem a ha⟩
  rw [hhead]
  exact h.linked.congr fun a ha => by rw [hcells a ha]

/-- The head of the free list becomes taken. -/
theorem popFree (h : ClassRep objectSize s free) (hhead : s.allocator.freeList = some a) :
    ∃ free', s.popFree = (some a,
        { s with allocator := { s.allocator with freeList := (s.cells a).next } }) ∧
      free = a :: free' ∧
      ClassRep objectSize
        { s with allocator := { s.allocator with freeList := (s.cells a).next } } free' := by
  have hpop : s.popFree = (some a,
      { s with allocator := { s.allocator with freeList := (s.cells a).next } }) := by
    simp [ClassState.popFree, hhead]
  have hlinked := h.linked
  cases free with
  | nil =>
      rw [Linked.nil_iff, hhead] at hlinked
      exact absurd hlinked (by simp)
  | cons x free' =>
      rw [hhead] at hlinked
      obtain rfl : a = x := Option.some.inj hlinked.1
      exact ⟨free', hpop, rfl, h.objectSize_eq, h.slabs, hlinked.2,
        fun y hy => h.free_mem y (List.mem_cons_of_mem _ hy)⟩

/-- A taken slot is pushed on the free list. -/
theorem pushFree (h : ClassRep objectSize s free) (ha : a ∈ takenSlots s free) :
    ClassRep objectSize (s.pushFree a) (a :: free) := by
  refine ⟨h.objectSize_eq, h.slabs, ⟨rfl, ?_⟩, fun x hx => ?_⟩
  · have hnext : ((s.pushFree a).cells a).next = s.allocator.freeList := by
      cases hhead : s.allocator.freeList with
      | none => simp [ClassState.pushFree, Cell.next, hhead]
      | some x =>
          have hmem : x ∈ free := by
            have hlinked := h.linked.head_eq
            rw [hhead] at hlinked
            exact List.mem_of_mem_head? hlinked.symm
          have hpos := h.slabs.pos (h.free_mem x hmem)
          simp [ClassState.pushFree, Cell.next, hhead, Nat.ne_of_gt hpos]
    simp only [hnext]
    refine h.linked.congr fun x hx => ?_
    have hxa : x ≠ a := fun heq => ha.2 (heq ▸ hx)
    simp [ClassState.pushFree, update_of_ne hxa]
  · rcases List.mem_cons.mp hx with rfl | hx
    · exact ha.1
    · exact h.free_mem x hx

theorem mem_takenSlots_push (s : ClassState) (free : List ℕ) (a : ℕ) {x : ℕ} :
    x ∈ takenSlots (s.pushFree a) (a :: free) ↔ x ∈ takenSlots s free ∧ x ≠ a := by
  simp only [takenSlots, Set.mem_ofPred_eq, List.mem_cons, ClassState.pushFree]
  tauto

/-- A slot leaves the bitmap of a slab of the class and becomes taken. -/
theorem takeSlot {i : ℕ} {l₁ l₂ : List Slab} {slab slab' : Slab} (h : ClassRep objectSize s free)
    (s' : ClassState) (hslabs : s.allocator.slabs = l₁ ++ slab :: l₂)
    (htaken : SlotTaken slab slab' objectSize i) (hsize : s'.allocator.objectSize = objectSize)
    (hslabs' : s'.allocator.slabs = l₁ ++ slab' :: l₂)
    (hhead : s'.allocator.freeList = s.allocator.freeList) (hcells : s'.cells = s.cells) :
    ClassRep objectSize s' free ∧ slab.slot i ∉ takenSlots s free ∧
      takenSlots s' free = insert (slab.slot i) (takenSlots s free) := by
  have hrep := h.slabs
  rw [hslabs] at hrep
  obtain ⟨hrep', hfresh, hleft⟩ := hrep.replace htaken
  rw [← hslabs'] at hrep' hleft
  rw [← hslabs] at hfresh hleft
  have hnot : slab.slot i ∉ free := fun hmem => hfresh (h.free_mem _ hmem)
  refine ⟨⟨hsize, hrep', ?_, fun a ha => ?_⟩, fun hmem => hfresh hmem.1, ?_⟩
  · rw [hhead, hcells]
    exact h.linked
  · rw [hleft]
    exact Set.mem_insert_of_mem _ (h.free_mem a ha)
  · ext a
    simp only [takenSlots, Set.mem_ofPred_eq, hleft, Set.mem_insert_iff]
    constructor
    · rintro ⟨rfl | ha, hfree⟩
      · exact Or.inl rfl
      · exact Or.inr ⟨ha, hfree⟩
    · rintro (rfl | ⟨ha, hfree⟩)
      · exact ⟨Or.inl rfl, hnot⟩
      · exact ⟨Or.inr ha, hfree⟩

/-- The batch refill moves slots of the new slab to the free list and takes none. -/
theorem refill_spec {slab : Slab} (count : ℕ) (h : ClassRep objectSize (s.addSlab slab) free) :
    ∃ slab' s' free', s.refill slab count = (slab', s') ∧
      ClassRep objectSize (s'.addSlab slab') free' ∧
      takenSlots (s'.addSlab slab') free' = takenSlots (s.addSlab slab) free ∧
      slab'.memory = slab.memory ∧ s'.allocator.slabs = s.allocator.slabs ∧
      (∀ x ∈ free, x ∈ free') ∧ ∀ x ∉ free', s'.cells x = s.cells x := by
  induction count generalizing s slab free with
  | zero => exact ⟨slab, s, free, rfl, h, rfl, rfl, rfl, fun _ hx => hx, fun _ _ => rfl⟩
  | succ count ih =>
      rcases slabAlloc_spec (h.slabs.wellFormed slab (List.mem_cons_self ..)) with ⟨hnone, -⟩ |
        ⟨i, slab₁, hsome, htaken⟩
      · refine ⟨slab, s, free, ?_, h, rfl, rfl, rfl, fun _ hx => hx, fun _ _ => rfl⟩
        simp only [ClassState.refill, hnone]
      · obtain ⟨h₁, hfresh, htaken₁⟩ := h.takeSlot (s.addSlab slab₁) (List.nil_append _).symm htaken
          h.objectSize_eq rfl rfl rfl
        have hmem : slab.slot i ∈ takenSlots (s.addSlab slab₁) free := by
          rw [htaken₁]
          exact Set.mem_insert _ _
        have h₂ : ClassRep objectSize ((s.pushFree (slab.slot i)).addSlab slab₁)
            (slab.slot i :: free) := h₁.pushFree hmem
        obtain ⟨slab', s', free', heq, hrep, htaken', hmemory, hslabs, hsub, hcells⟩ := ih h₂
        refine ⟨slab', s', free', ?_, hrep, htaken'.trans ?_, hmemory.trans htaken.memory_eq, hslabs,
          fun x hx => hsub x (List.mem_cons_of_mem _ hx), fun x hx => ?_⟩
        · simp only [ClassState.refill, hsome]
          exact heq
        · ext x
          have hpush := mem_takenSlots_push (s.addSlab slab₁) free (slab.slot i) (x := x)
          rw [htaken₁, Set.mem_insert_iff] at hpush
          refine hpush.trans ⟨fun hx => hx.1.resolve_left hx.2, fun hx => ⟨Or.inr hx, ?_⟩⟩
          rintro rfl
          exact hfresh hx
        · have hxa : x ≠ slab.slot i := fun heq => hx (hsub x (heq ▸ List.mem_cons_self ..))
          rw [hcells x hx]
          simp [ClassState.pushFree, update_of_ne hxa]

end ClassRep

/-! ## Allocation -/

/-- The object sizes that `allocate_slab` accepts. -/
theorem allocateSlab_spec {objectSize memory : ℕ} {slab : Slab} (hmemory : 0 < memory)
    (h : allocateSlab objectSize (some memory) = some slab) :
    slab.memory = memory ∧ slab.WellFormed objectSize ∧ 0 < slab.capacity ∧
      ∀ i, slab.isSet i = false := by
  unfold allocateSlab at h
  split at h
  · simp at h
  rename_i hsize
  split at h
  · simp at h
  split at h
  · simp at h
  simp only at h
  split at h
  · simp at h
  rename_i hcapacity
  split at h
  · simp at h
  obtain rfl := Option.some.inj h
  have hclear : ∀ i, Slab.isSet ⟨memory, objectSize, slabSize / objectSize, 0, fun _ => 0⟩ i = false := by
    intro i
    simp [Slab.isSet]
  refine ⟨rfl, ⟨hmemory, by omega, rfl, rfl, ?_⟩, ?_, hclear⟩
  · refine (Finset.card_eq_zero.mpr (Finset.filter_eq_empty_iff.mpr fun i _ => ?_)).symm
    rw [hclear i]
    exact Bool.false_ne_true
  · exact Nat.pos_of_ne_zero fun hzero => hcapacity (Or.inl hzero)

/-- The slabs of a list lie where those of another list or the new slab lie. -/
def Located (slabs slabs' : List Slab) (memory : Option ℕ) : Prop :=
  ∀ slab' ∈ slabs', (∃ slab ∈ slabs, slab.memory = slab'.memory) ∨ some slab'.memory = memory

/-- What the segregated-fit path does to a class: it takes no slot, or one that nobody had. -/
structure ClassAlloc (objectSize : ℕ) (memory : Option ℕ) (s : ClassState) (free : List ℕ)
    (result : Option ℕ) (s' : ClassState) (free' : List ℕ) : Prop where
  rep : ClassRep objectSize s' free'
  located : Located s.allocator.slabs s'.allocator.slabs memory
  cells_eq : ∀ x ∉ free', s'.cells x = s.cells x
  taken_none : result = none → takenSlots s' free' = takenSlots s free
  taken_some : ∀ a, result = some a →
    a ∉ takenSlots s free ∧ takenSlots s' free' = insert a (takenSlots s free)

namespace ClassRep

variable {objectSize : ℕ} {s : ClassState} {free : List ℕ}

/-- A new slab, whose bits are clear, takes nothing. -/
theorem addSlab {slab : Slab} (h : ClassRep objectSize s free) (hslab : slab.WellFormed objectSize)
    (hclear : ∀ i, slab.isSet i = false) (hapart : ∀ other ∈ s.allocator.slabs, Apart slab other) :
    ClassRep objectSize (s.addSlab slab) free ∧
      takenSlots (s.addSlab slab) free = takenSlots s free := by
  have hleft : leftSlots (s.addSlab slab).allocator.slabs = leftSlots s.allocator.slabs := by
    ext a
    show a ∈ leftSlots ([slab] ++ s.allocator.slabs) ↔ _
    rw [mem_leftSlots_append, mem_leftSlots_singleton]
    refine ⟨fun ha => ha.resolve_left ?_, Or.inr⟩
    rintro ⟨i, -, hset, -⟩
    rw [hclear i] at hset
    exact Bool.noConfusion hset
  refine ⟨⟨h.objectSize_eq, ⟨?_, ?_⟩, h.linked, fun a ha => hleft ▸ h.free_mem a ha⟩, ?_⟩
  · intro other hother
    rcases List.mem_cons.mp hother with rfl | hother
    · exact hslab
    · exact h.slabs.wellFormed other hother
  · exact List.pairwise_cons.mpr ⟨hapart, h.slabs.apart⟩
  · simp only [takenSlots, hleft]

theorem growAlloc_spec {memory : Option ℕ} (hot : Bool) (h : ClassRep objectSize s free)
    (hpos : ∀ m, memory = some m → 0 < m)
    (hfresh : ∀ m, memory = some m → ∀ slab ∈ s.allocator.slabs,
      m + slabSize ≤ slab.memory ∨ slab.memory + slabSize ≤ m) :
    ∃ free', ClassAlloc objectSize memory s free (s.growAlloc hot memory).1
      (s.growAlloc hot memory).2 free' := by
  cases hnew : allocateSlab s.allocator.objectSize memory with
  | none =>
      refine ⟨free, ?_⟩
      simp only [ClassState.growAlloc, hnew]
      exact ⟨h.congr h.objectSize_eq rfl rfl fun _ _ => rfl, fun slab hslab => Or.inl ⟨slab, hslab, rfl⟩,
        fun _ _ => rfl, fun _ => rfl, fun _ hsome => by simp at hsome⟩
  | some slab =>
      obtain ⟨m, rfl⟩ : ∃ m, memory = some m := by
        cases memory with
        | none =>
            unfold allocateSlab at hnew
            simp at hnew
        | some m => exact ⟨m, rfl⟩
      rw [h.objectSize_eq] at hnew
      obtain ⟨hmemory, hslab, hcapacity, hclear⟩ := allocateSlab_spec (hpos m rfl) hnew
      obtain ⟨h₁, htaken₁⟩ := h.addSlab hslab hclear fun other hother => by
        rw [Apart, hmemory]
        exact hfresh m rfl other hother
      -- a new slab has a clear bit, so that it serves the request
      rcases slabAlloc_spec hslab with ⟨-, hfull⟩ | ⟨i, slab₁, hsome, hslot⟩
      · have hset := hfull 0 hcapacity
        rw [hclear 0] at hset
        exact Bool.noConfusion hset
      obtain ⟨h₂, hnot, htaken₂⟩ := h₁.takeSlot (s.addSlab slab₁) (List.nil_append _).symm hslot
        h.objectSize_eq rfl rfl rfl
      obtain ⟨slab₂, s₂, free', heq, h₃, htaken₃, hmemory₃, hslabs₃, hsub, hcells⟩ :=
        h₂.refill_spec (ClassState.batchSize hot slab₁.capacity)
      refine ⟨free', ?_⟩
      simp only [ClassState.growAlloc, h.objectSize_eq, hnew, hsome, heq]
      refine ⟨h₃, ?_, hcells, fun hnone => by simp at hnone, ?_⟩
      · intro slab' hslab'
        rcases List.mem_cons.mp hslab' with rfl | hslab'
        · exact Or.inr (by rw [hmemory₃, hslot.memory_eq, hmemory])
        · rw [hslabs₃] at hslab'
          exact Or.inl ⟨slab', hslab', rfl⟩
      · intro a ha
        obtain rfl := Option.some.inj ha
        rw [← htaken₁]
        exact ⟨hnot, htaken₃.trans htaken₂⟩

/-- The segregated-fit path. -/
theorem alloc_spec {memory : Option ℕ} (hot : Bool) (h : ClassRep objectSize s free)
    (hpos : ∀ m, memory = some m → 0 < m)
    (hfresh : ∀ m, memory = some m → ∀ slab ∈ s.allocator.slabs,
      m + slabSize ≤ slab.memory ∨ slab.memory + slabSize ≤ m) :
    ∃ free', ClassAlloc objectSize memory s free (s.alloc hot memory).1 (s.alloc hot memory).2
      free' := by
  cases hhead : s.allocator.freeList with
  | some a =>
      obtain ⟨free', hpop, rfl, h'⟩ := h.popFree hhead
      refine ⟨free', ?_⟩
      have hnot : a ∉ free' := (List.nodup_cons.mp h.linked.nodup).1
      simp only [ClassState.alloc, hpop]
      refine ⟨h', fun slab hslab => Or.inl ⟨slab, hslab, rfl⟩, fun _ _ => rfl,
        fun hnone => by simp at hnone, fun x hx => ?_⟩
      obtain rfl := Option.some.inj hx
      refine ⟨fun hmem => hmem.2 (List.mem_cons_self ..), ?_⟩
      ext x
      simp only [takenSlots, Set.mem_ofPred_eq, Set.mem_insert_iff, List.mem_cons]
      have hleft := h.free_mem a (List.mem_cons_self ..)
      constructor
      · rintro ⟨hx, hfree⟩
        by_cases hxa : x = a
        · exact Or.inl hxa
        · exact Or.inr ⟨hx, by tauto⟩
      · rintro (rfl | ⟨hx, hfree⟩)
        · exact ⟨hleft, hnot⟩
        · exact ⟨hx, by tauto⟩
  | none =>
      have hpop : s.popFree = (none, s) := by simp [ClassState.popFree, hhead]
      rcases slabsAlloc_spec h.slabs.wellFormed with ⟨hnone, hsame⟩ |
        ⟨l₁, slab, l₂, i, slab', hslabs, heq, hslot⟩
      · have heq : slabsAlloc s.allocator.slabs = (none, s.allocator.slabs) :=
          Prod.ext hnone hsame
        have hself : s.alloc hot memory = s.growAlloc hot memory := by
          simp only [ClassState.alloc, hpop, heq]
        rw [hself]
        exact h.growAlloc_spec hot hpos hfresh
      · refine ⟨free, ?_⟩
        simp only [ClassState.alloc, hpop, heq]
        obtain ⟨h', hnot, htaken⟩ := h.takeSlot { s with
          allocator := { s.allocator with slabs := l₁ ++ slab' :: l₂ } } hslabs hslot
          h.objectSize_eq rfl rfl rfl
        refine ⟨h', ?_, fun _ _ => rfl, fun hnone => by simp at hnone, fun a ha => ?_⟩
        · intro other hother
          simp only [List.mem_append, List.mem_cons] at hother
          rw [hslabs]
          rcases hother with hother | rfl | hother
          · exact Or.inl ⟨other, by simp [hother], rfl⟩
          · exact Or.inl ⟨slab, by simp, hslot.memory_eq.symm⟩
          · exact Or.inl ⟨other, by simp [hother], rfl⟩
        · obtain rfl := Option.some.inj ha
          exact ⟨hnot, htaken⟩

end ClassRep

end LgxRuntime.PersistentHeap
