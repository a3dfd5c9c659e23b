import LgxRuntime.PersistentHeap.HeapRun

/-!
# Pointers of the persistent heap

The memory of the heap is the buddy pool and its slabs.  Every live pointer has its bytes in there, apart
from those of the other live pointers, and `lgx_heap_is_heap_pointer` recognizes it.  A request of more
than 64 MB ends outside of its block, but still in the pool, whose rest nobody gets.
-/

namespace LgxRuntime.PersistentHeap

open Function (update update_self update_of_ne)

/-- The bytes `[p, p + n)` lie in the buddy pool or in one slab. -/
def InsideMemory (h : Heap) (p n : ℕ) : Prop :=
  (h.buddy.memory ≤ p ∧ p + n ≤ h.buddy.memory + buddyPoolSize) ∨
    ∃ c < numSizeClasses, ∃ slab ∈ (h.sizeClasses c).slabs,
      slab.memory ≤ p ∧ p + n ≤ slab.memory + slabSize

theorem InsideMemory.mono {h : Heap} {p n m : ℕ} (hin : InsideMemory h p n) (hm : m ≤ n) :
    InsideMemory h p m := by
  rcases hin with ⟨hlow, hhigh⟩ | ⟨c, hc, slab, hslab, hlow, hhigh⟩
  · exact Or.inl ⟨hlow, by omega⟩
  · exact Or.inr ⟨c, hc, slab, hslab, hlow, by omega⟩

/-- The pool stays where it is, and so do the slabs, but for one at `slabMemory`. -/
structure SameMemory (h h' : Heap) (slabMemory : Option ℕ) : Prop where
  pool : h'.buddy.memory = h.buddy.memory
  slabs : ∀ c < numSizeClasses, Located (h.sizeClasses c).slabs (h'.sizeClasses c).slabs slabMemory

theorem Located.refl (slabs : List Slab) (slabMemory : Option ℕ) : Located slabs slabs slabMemory :=
  fun slab hslab => Or.inl ⟨slab, hslab, rfl⟩

theorem SameMemory.of_eq {h h' : Heap} (hpool : h'.buddy.memory = h.buddy.memory)
    (hclasses : h'.sizeClasses = h.sizeClasses) (slabMemory : Option ℕ) :
    SameMemory h h' slabMemory := by
  refine ⟨hpool, fun c _ => ?_⟩
  rw [hclasses]
  exact Located.refl _ _

/-- One class is replaced. -/
theorem SameMemory.of_class {h h' : Heap} {c : ℕ} {s : SizeClassAllocator} {slabMemory : Option ℕ}
    (hpool : h'.buddy.memory = h.buddy.memory) (hclasses : h'.sizeClasses = update h.sizeClasses c s)
    (hlocated : Located (h.sizeClasses c).slabs s.slabs slabMemory) : SameMemory h h' slabMemory := by
  refine ⟨hpool, fun c' _ => ?_⟩
  rw [hclasses]
  by_cases hcc : c' = c
  · subst hcc
    rwa [update_self]
  · rw [update_of_ne hcc]
    exact Located.refl _ _

namespace HeapRep

variable {h : Heap} {live large : List (ℕ × ℕ)} {slots free : ℕ → List ℕ} {S : Set ℕ} {p n : ℕ}

theorem alloc_memory (hrep : HeapRep h live large slots free S) (hot : Bool) {slabMemory : Option ℕ}
    (hfresh : ∀ m, slabMemory = some m → FreshMemory h m) (size : ℕ) :
    SameMemory h (lgxHeapAlloc h hot slabMemory size).2 slabMemory := by
  have hmemory := buddyAlloc_memory h.buddy (size + headerSize)
  have hcases := hrep.alloc_cases hot hfresh size
  generalize lgxHeapAlloc h hot slabMemory size = outcome at hcases ⊢
  obtain ⟨result, h'⟩ := outcome
  cases hcases with
  | refused hbuddy hclasses hcells => exact .of_eq (congrArg Buddy.memory hbuddy) hclasses _
  | noSlot hclass hpos hc halloc => exact .of_class rfl rfl halloc.located
  | slot hclass hpos hc halloc hbuddy hclasses hcells =>
      exact .of_class (congrArg Buddy.memory hbuddy) hclasses halloc.located
  | noBlock hsize hbig hresult hbuddy hclasses hcells =>
      exact .of_eq ((congrArg Buddy.memory hbuddy).trans hmemory) hclasses _
  | block hsize hbig hresult hbuddy hclasses hcells =>
      exact .of_eq ((congrArg Buddy.memory hbuddy).trans hmemory) hclasses _

/-- A live pointer has its bytes in the memory of the heap. -/
theorem insideMemory (hrep : HeapRep h live large slots free S) (hlive : (p, n) ∈ live) :
    InsideMemory h p n := by
  obtain ⟨a, rfl, -⟩ := hrep.header p n hlive
  by_cases hsmall : sizeToClass (n + headerSize) < numSizeClasses
  · have hroom := small_room hsmall
    obtain ⟨slab, hslab, hlow, hhigh⟩ := hrep.layout.slot_inside hsmall (hrep.small_mem hlive hsmall).1
    exact Or.inr ⟨_, hsmall, slab, hslab, by omega, by omega⟩
  · obtain ⟨-, block, -, hptr, hle, hend⟩ := hrep.large_mem hlive (Nat.not_lt.mp hsmall)
    exact Or.inl ⟨by omega, by omega⟩

/-- Live pointers have their bytes apart. -/
theorem ranges_apart (hrep : HeapRep h live large slots free S) {q m : ℕ} (hp : (p, n) ∈ live)
    (hq : (q, m) ∈ live) (hne : p ≠ q) : p + n ≤ q ∨ q + m ≤ p := by
  obtain ⟨a, rfl, -⟩ := hrep.header p n hp
  obtain ⟨x, rfl, -⟩ := hrep.header q m hq
  -- neither client reaches the header of the other, which lies right before its bytes
  have hpq := hrep.header_not_mem_payload hp hq
  have hqp := hrep.header_not_mem_payload hq hp
  simp only [payloadCells, Set.mem_ofPred_eq, not_and, not_lt, headerSize, buddyHeaderSize] at *
  omega

/-- `lgx_heap_is_heap_pointer` recognizes every live pointer. -/
theorem isHeapPointer (hrep : HeapRep h live large slots free S) (hlive : (p, n) ∈ live)
    (hn : 0 < n) : lgxHeapIsHeapPointer h p = true := by
  obtain ⟨a, hptr, hcell⟩ := hrep.header p n hlive
  have hmagic : ((h.cells (p - headerSize)).magic == allocMagic) = true := by
    rw [hptr, Nat.add_sub_cancel, hcell, allocationHeader_magic]
    exact beq_self_eq_true _
  have hpos : p ≠ 0 := by
    simp only [headerSize] at hptr
    omega
  unfold lgxHeapIsHeapPointer
  rw [if_neg hpos]
  split
  · exact hmagic
  · rename_i hout
    rw [hrep.buddy.rep.pool] at hout
    rcases hrep.insideMemory hlive with hin | ⟨c, hc, slab, hslab, hlow, hhigh⟩
    · exact absurd ⟨hin.1, by omega⟩ hout
    · cases hfind : ((List.range numSizeClasses).flatMap fun c => (h.sizeClasses c).slabs).find?
          fun slab => decide (slab.memory ≤ p ∧ p < slab.memory + slabSize) with
      | none =>
          have hnone := List.find?_eq_none.mp hfind slab
            (List.mem_flatMap.mpr ⟨c, List.mem_range.mpr hc, hslab⟩)
          simp only [decide_eq_true_eq] at hnone
          exact absurd ⟨hlow, by omega⟩ hnone
      | some found => exact hmagic

end HeapRep

theorem lgxHeapFree_memory {h h' : Heap} {ptr : ℕ} (hfree : lgxHeapFree h ptr = some h') :
    SameMemory h h' none := by
  unfold lgxHeapFree at hfree
  split at hfree
  · obtain rfl := Option.some.inj hfree
    apply SameMemory.of_eq <;> rfl
  simp only at hfree
  split at hfree
  · obtain rfl := Option.some.inj hfree
    apply SameMemory.of_eq <;> rfl
  split at hfree
  · obtain rfl := Option.some.inj hfree
    apply SameMemory.of_class
    · rfl
    · rfl
    · exact Located.refl _ _
  · cases hb : buddyFree h.buddy (ptr - headerSize) with
    | none => simp [hb] at hfree
    | some b =>
        rw [hb] at hfree
        obtain rfl := Option.some.inj hfree
        apply SameMemory.of_eq
        · exact buddyFree_memory hb
        · rfl

end LgxRuntime.PersistentHeap
