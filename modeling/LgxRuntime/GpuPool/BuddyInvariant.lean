import LgxRuntime.GpuPool.Buddy
import LgxRuntime.Lib.FreeLists
import LgxRuntime.Lib.ListFamily
import LgxRuntime.Lib.Tiling

/-!
# The representation invariant of the GPU pool's buddy allocator

`Rep m a free dead S` ties the table of block records to three pieces of ghost state: the set `S` of
slots that hold a block, for each level `l` the list `free l` of the slots that `free_lists[l]`
reaches, and the list `dead` of the slots on the stack of dead slots.  The level `m` is the one of the
initial block.  The blocks of `S` tile the `256 * 2^m` bytes of that level; this is the size that the
levels stand for, and not always the size of the Vulkan memory.

As for the persistent heap, a slot of `S` on no free list is *taken*, and each operation is described
by what it does to the taken slots.
-/

namespace LgxRuntime.GpuPool

open Function (update update_self update_of_ne)
open FreeLists (taken mem_taken_prepend taken_remove)

/-! ## Levels and sizes -/

theorem levelToSize_eq (level : ℕ) : levelToSize level = 256 * 2 ^ level := by
  rw [levelToSize, Nat.shiftLeft_eq, minBlockSize]

theorem levelToSize_succ (level : ℕ) : levelToSize (level + 1) = 2 * levelToSize level := by
  rw [levelToSize_eq, levelToSize_eq, Nat.pow_succ]
  ring

theorem levelToSize_pos (level : ℕ) : 0 < levelToSize level := by
  rw [levelToSize_eq]
  exact Nat.mul_pos (by omega) (Nat.two_pow_pos level)

theorem levelToSize_le {j k : ℕ} (h : j ≤ k) : levelToSize j ≤ levelToSize k := by
  rw [levelToSize_eq, levelToSize_eq]
  exact Nat.mul_le_mul_left _ (Nat.pow_le_pow_right (by omega) h)

theorem levelToSize_lt {j k : ℕ} (h : j < k) : levelToSize j < levelToSize k := by
  have hle := levelToSize_le (Nat.succ_le_of_lt h)
  have hpos := levelToSize_pos j
  rw [Nat.succ_eq_add_one, levelToSize_succ] at hle
  omega

theorem sizeToLevel_lt (size : ℕ) : sizeToLevel size < numBuddyLevels := by
  unfold sizeToLevel numBuddyLevels
  split
  · omega
  · exact Nat.lt_succ_of_le (fitLevel_le (by omega) minBlockSize)

theorem le_levelToSize_sizeToLevel {size : ℕ} (h : size ≤ maxBlockSize) :
    size ≤ levelToSize (sizeToLevel size) := by
  unfold sizeToLevel
  rw [levelToSize_eq]
  split
  · rename_i hle
    simpa [minBlockSize] using hle
  · refine @le_fitLevel (numBuddyLevels - 1) size 256 0 (h.trans ?_)
    simp [maxBlockSize, numBuddyLevels]

theorem lt_of_lt_sizeToLevel {k size : ℕ} (h : k < sizeToLevel size) : levelToSize k < size := by
  unfold sizeToLevel at h
  rw [levelToSize_eq]
  split at h
  · omega
  · exact @lt_of_lt_fitLevel (numBuddyLevels - 1) size 256 0 k (Nat.zero_le k) h

theorem sizeToLevel_levelToSize {m : ℕ} (hm : m < numBuddyLevels) :
    sizeToLevel (levelToSize m) = m := by
  have hmax : levelToSize m ≤ maxBlockSize :=
    (levelToSize_le (Nat.le_sub_one_of_lt hm)).trans (by decide)
  rcases Nat.lt_trichotomy (sizeToLevel (levelToSize m)) m with hlt | heq | hlt
  · have hle := le_levelToSize_sizeToLevel hmax
    have := levelToSize_lt hlt
    omega
  · exact heq
  · have := lt_of_lt_sizeToLevel hlt
    omega

theorem requestLevel_levelToSize {k : ℕ} (hk : k < numBuddyLevels) :
    requestLevel (levelToSize k) 0 = k := by
  unfold requestLevel
  simp only [Nat.not_lt_zero, if_false, sizeToLevel_levelToSize hk]
  rw [alignLevel]
  simp

/-! ## What the list surgery does -/

namespace Allocator

/-- The forward pointers of the table. -/
def next (a : Allocator) : ℕ → Option ℕ :=
  fun i => (a.allBlocks i).next

/-- The back pointers of the table. -/
def prev (a : Allocator) : ℕ → Option ℕ :=
  fun i => (a.allBlocks i).prev

/-- The records of the table, without their list pointers. -/
def data (a : Allocator) : ℕ → BuddyBlock :=
  fun i => { a.allBlocks i with next := none, prev := none }

section Views

variable (a : Allocator) (i : ℕ) (v : Option ℕ)

@[simp] theorem setNext_next : (a.setNext i v).next = update a.next i v := by
  funext x
  by_cases hx : x = i
  · simp [setNext, next, hx]
  · simp [setNext, next, update_of_ne hx]

@[simp] theorem setNext_prev : (a.setNext i v).prev = a.prev := by
  funext x
  by_cases hx : x = i
  · simp [setNext, prev, hx]
  · simp [setNext, prev, update_of_ne hx]

@[simp] theorem setNext_data : (a.setNext i v).data = a.data := by
  funext x
  by_cases hx : x = i
  · simp [setNext, data, hx]
  · simp [setNext, data, update_of_ne hx]

@[simp] theorem setNext_freeLists : (a.setNext i v).freeLists = a.freeLists := rfl

@[simp] theorem setPrev_next : (a.setPrev i v).next = a.next := by
  funext x
  by_cases hx : x = i
  · simp [setPrev, next, hx]
  · simp [setPrev, next, update_of_ne hx]

@[simp] theorem setPrev_prev : (a.setPrev i v).prev = update a.prev i v := by
  funext x
  by_cases hx : x = i
  · simp [setPrev, prev, hx]
  · simp [setPrev, prev, update_of_ne hx]

@[simp] theorem setPrev_data : (a.setPrev i v).data = a.data := by
  funext x
  by_cases hx : x = i
  · simp [setPrev, data, hx]
  · simp [setPrev, data, update_of_ne hx]

@[simp] theorem setPrev_freeLists : (a.setPrev i v).freeLists = a.freeLists := rfl

@[simp] theorem setFreeList_next : (a.setFreeList i v).next = a.next := rfl

@[simp] theorem setFreeList_prev : (a.setFreeList i v).prev = a.prev := rfl

@[simp] theorem setFreeList_heads : (a.setFreeList i v).freeLists = update a.freeLists i v := rfl

@[simp] theorem setFreeList_data : (a.setFreeList i v).data = a.data := rfl

theorem allBlocks_next : (a.allBlocks i).next = a.next i := rfl

theorem allBlocks_prev : (a.allBlocks i).prev = a.prev i := rfl

theorem allBlocks_offset : (a.allBlocks i).offset = (a.data i).offset := rfl

theorem allBlocks_size : (a.allBlocks i).size = (a.data i).size := rfl

theorem allBlocks_isFree : (a.allBlocks i).isFree = (a.data i).isFree := rfl

theorem allBlocks_level : (a.allBlocks i).level = (a.data i).level := rfl

end Views

end Allocator

open Allocator

/-- Everything that counts or sizes is as before. -/
structure SameCounters (a a' : Allocator) : Prop where
  totalSize : a'.totalSize = a.totalSize
  numBlocks : a'.numBlocks = a.numBlocks
  maxBlocks : a'.maxBlocks = a.maxBlocks
  deadBlocks : a'.deadBlocks = a.deadBlocks
  allocatedBytes : a'.allocatedBytes = a.allocatedBytes

namespace SameCounters

theorem refl (a : Allocator) : SameCounters a a :=
  ⟨rfl, rfl, rfl, rfl, rfl⟩

theorem trans {a a' a'' : Allocator} (h : SameCounters a a') (h' : SameCounters a' a'') :
    SameCounters a a'' :=
  ⟨h'.totalSize.trans h.totalSize, h'.numBlocks.trans h.numBlocks, h'.maxBlocks.trans h.maxBlocks,
    h'.deadBlocks.trans h.deadBlocks, h'.allocatedBytes.trans h.allocatedBytes⟩

variable {a a' : Allocator}

theorem setNext (h : SameCounters a a') (i : ℕ) (v : Option ℕ) : SameCounters a (a'.setNext i v) :=
  h.trans ⟨rfl, rfl, rfl, rfl, rfl⟩

theorem setPrev (h : SameCounters a a') (i : ℕ) (v : Option ℕ) : SameCounters a (a'.setPrev i v) :=
  h.trans ⟨rfl, rfl, rfl, rfl, rfl⟩

theorem setFreeList (h : SameCounters a a') (i : ℕ) (v : Option ℕ) :
    SameCounters a (a'.setFreeList i v) :=
  h.trans ⟨rfl, rfl, rfl, rfl, rfl⟩

end SameCounters

/-- Everything of an allocator except the table and the free lists. -/
structure SameRest (a a' : Allocator) : Prop where
  totalSize : a'.totalSize = a.totalSize
  numBlocks : a'.numBlocks = a.numBlocks
  maxBlocks : a.maxBlocks ≤ a'.maxBlocks
  deadBlocks : a'.deadBlocks = a.deadBlocks

variable {a : Allocator} {i : ℕ}

/-- `unlink` edits the pointers around the slot and nothing else. -/
theorem unlink_spec (hself : a.prev i ≠ some i) :
    (unlink a i).next = unlinkNext a.next a.prev i ∧
      (unlink a i).prev = unlinkPrev a.next a.prev i ∧
      (unlink a i).freeLists = unlinkHeads a.next a.prev a.freeLists (a.data i).level i ∧
      (unlink a i).data = a.data ∧ SameRest a (unlink a i) := by
  unfold unlink
  simp only [allBlocks_next, allBlocks_prev, allBlocks_level]
  cases hp : a.prev i with
  | none =>
      simp only [setFreeList_next, setFreeList_prev, hp]
      cases hn : a.next i with
      | none =>
          refine ⟨?_, ?_, ?_, ?_, ⟨rfl, rfl, le_rfl, rfl⟩⟩ <;>
            simp [unlinkNext, unlinkPrev, unlinkHeads, hp, hn]
      | some n =>
          refine ⟨?_, ?_, ?_, ?_, ⟨rfl, rfl, le_rfl, rfl⟩⟩ <;>
            simp [unlinkNext, unlinkPrev, unlinkHeads, hp, hn]
  | some p =>
      have hne : i ≠ p := fun heq => hself (heq ▸ hp)
      simp only [setNext_next, setNext_prev, update_of_ne hne, hp]
      cases hn : a.next i with
      | none =>
          refine ⟨?_, ?_, ?_, ?_, ⟨rfl, rfl, le_rfl, rfl⟩⟩ <;>
            simp [unlinkNext, unlinkPrev, unlinkHeads, hp, hn]
      | some n =>
          refine ⟨?_, ?_, ?_, ?_, ⟨rfl, rfl, le_rfl, rfl⟩⟩ <;>
            simp [unlinkNext, unlinkPrev, unlinkHeads, hp, hn]

/-- `pushFree` edits the pointers of the slot and the head of the list of its level. -/
theorem pushFree_spec (a : Allocator) (i : ℕ) :
    (pushFree a i).next = update a.next i (a.freeLists (a.data i).level) ∧
      (pushFree a i).prev = pushPrev a.prev (a.freeLists (a.data i).level) i ∧
      (pushFree a i).freeLists = update a.freeLists (a.data i).level (some i) ∧
      (pushFree a i).data = a.data ∧ SameRest a (pushFree a i) := by
  unfold pushFree
  simp only [allBlocks_level, setPrev_data, setNext_data, setPrev_freeLists, setNext_freeLists]
  cases hhead : a.freeLists (a.data i).level with
  | none => refine ⟨?_, ?_, ?_, ?_, ⟨rfl, rfl, le_rfl, rfl⟩⟩ <;> simp [pushPrev]
  | some x => refine ⟨?_, ?_, ?_, ?_, ⟨rfl, rfl, le_rfl, rfl⟩⟩ <;> simp [pushPrev]

/-! ## The invariant -/

/-- The table of `a` holds the blocks `S`; those of `free l` are on the free list of level `l`, and the
slots `dead` are on the stack of dead slots. -/
structure Rep (m : ℕ) (a : Allocator) (free : ℕ → List ℕ) (dead : List ℕ) (S : Set ℕ) : Prop where
  level_lt : m < numBuddyLevels
  family : ListFamily a.next a.prev a.freeLists free
  free_mem : ∀ l, ∀ i ∈ free l, i ∈ S ∧ (a.data i).isFree = true ∧ (a.data i).level = l
  deadLinked : Linked a.next a.deadBlocks dead
  dead_mem : ∀ i ∈ dead, i ∉ S ∧ (a.data i).isFree = false
  slots : ∀ i, i < a.numBlocks ↔ i ∈ S ∨ i ∈ dead
  capacity : 0 < a.maxBlocks ∧ a.numBlocks ≤ a.maxBlocks
  level_le : ∀ i ∈ S, (a.data i).level ≤ m
  size_eq : ∀ i ∈ S, 0 < m ∧ (a.data i).size = levelToSize (a.data i).level ∨
    (a.data i).level = m ∧ (a.data i).size = a.totalSize
  tiling : Tiling S (fun i => (a.data i).offset) (fun i => levelToSize (a.data i).level)
    (levelToSize m)

namespace Rep

variable {m : ℕ} {a a' : Allocator} {free : ℕ → List ℕ} {dead : List ℕ} {S : Set ℕ} {i l : ℕ}

theorem not_dead (h : Rep m a free dead S) (hi : i ∈ S) : i ∉ dead :=
  fun hdead => (h.dead_mem i hdead).1 hi

theorem not_free_of_dead (h : Rep m a free dead S) (hi : i ∈ dead) : ∀ l, i ∉ free l :=
  fun l hl => (h.dead_mem i hi).1 (h.free_mem l i hl).1

theorem taken_unlink (h : Rep m a free dead S) (hi : i ∈ free l) :
    taken (update free l ((free l).erase i)) S = insert i (taken free S) := by
  have hnodup := h.family.nodup l
  refine taken_remove (h.free_mem l i hi).1 (fun x => ?_) hnodup.not_mem_erase
    fun j hj hmem => hj (h.family.disjoint j l i hmem hi)
  rw [hnodup.mem_erase_iff]
  constructor
  · intro hx
    by_cases hxi : x = i
    · exact Or.inl hxi
    · exact Or.inr ⟨hxi, hx⟩
  · rintro (rfl | ⟨-, hx⟩)
    · exact hi
    · exact hx

/-- The lists may be edited as long as the records stay. -/
theorem relist {free' : ℕ → List ℕ} (h : Rep m a free dead S)
    (hdata : ∀ i, i < a.numBlocks → a'.data i = a.data i) (hrest : SameRest a a')
    (hfamily : ListFamily a'.next a'.prev a'.freeLists free')
    (hmem : ∀ l, ∀ i ∈ free' l, i ∈ S ∧ (a.data i).isFree = true ∧ (a.data i).level = l)
    (hdead : ∀ i ∈ dead, a'.next i = a.next i) : Rep m a' free' dead S := by
  have hS : ∀ i ∈ S, a'.data i = a.data i := fun i hi => hdata i ((h.slots i).mpr (Or.inl hi))
  constructor
  · exact h.level_lt
  · exact hfamily
  · intro l i hi
    obtain ⟨hiS, hmarked, hlevel⟩ := hmem l i hi
    rw [hS i hiS]
    exact ⟨hiS, hmarked, hlevel⟩
  · rw [hrest.deadBlocks]
    exact h.deadLinked.congr hdead
  · intro i hi
    rw [hdata i ((h.slots i).mpr (Or.inr hi))]
    exact h.dead_mem i hi
  · rw [hrest.numBlocks]
    exact h.slots
  · rw [hrest.numBlocks]
    have hmax := hrest.maxBlocks
    have hcapacity := h.capacity
    omega
  · intro i hi
    rw [hS i hi]
    exact h.level_le i hi
  · intro i hi
    rw [hS i hi, hrest.totalSize]
    exact h.size_eq i hi
  · exact h.tiling.congr (fun i hi => by rw [hS i hi]) fun i hi => by rw [hS i hi]

/-- The invariant does not see the statistics. -/
theorem of_eq (h : Rep m a free dead S) (hblocks : a'.allBlocks = a.allBlocks)
    (hlists : a'.freeLists = a.freeLists) (hrest : SameRest a a') : Rep m a' free dead S := by
  have hnext : a'.next = a.next := by
    unfold Allocator.next
    rw [hblocks]
  have hprev : a'.prev = a.prev := by
    unfold Allocator.prev
    rw [hblocks]
  have hdata : a'.data = a.data := by
    unfold data
    rw [hblocks]
  refine h.relist (fun i _ => by rw [hdata]) hrest ?_ h.free_mem fun i _ => by rw [hnext]
  rw [hnext, hprev, hlists]
  exact h.family

/-- A free block is taken off its list. -/
theorem unlink (h : Rep m a free dead S) (hi : i ∈ free l) :
    Rep m (GpuPool.unlink a i) (update free l ((free l).erase i)) dead S := by
  obtain ⟨hnext, hprev, hheads, hdata, hrest⟩ := unlink_spec (h.family.prev_ne_self hi)
  rw [(h.free_mem l i hi).2.2] at hheads
  refine h.relist (fun x _ => by rw [hdata]) hrest ?_ (fun j x hx => h.free_mem j x ?_)
    fun x hx => ?_
  · rw [hnext, hprev, hheads]
    exact h.family.unlink hi
  · by_cases hj : j = l
    · subst hj
      rw [update_self] at hx
      exact List.mem_of_mem_erase hx
    · rwa [update_of_ne hj] at hx
  · rw [hnext]
    exact h.family.unlinkNext_of_not_mem hi (h.not_free_of_dead hx l)

/-- A taken block that is marked free is put on the list of its level. -/
theorem pushFree (h : Rep m a free dead S) (hi : i ∈ taken free S)
    (hfree : (a.data i).isFree = true) (hlevel : (a.data i).level = l) :
    Rep m (GpuPool.pushFree a i) (update free l (i :: free l)) dead S := by
  obtain ⟨hnext, hprev, hheads, hdata, hrest⟩ := pushFree_spec a i
  rw [hlevel] at hnext hprev hheads
  refine h.relist (fun x _ => by rw [hdata]) hrest ?_ (fun j x hx => ?_) fun x hx => ?_
  · rw [hnext, hprev, hheads]
    exact h.family.push hi.2 l
  · by_cases hj : j = l
    · subst hj
      rw [update_self] at hx
      rcases List.mem_cons.mp hx with rfl | hx
      · exact ⟨hi.1, hfree, hlevel⟩
      · exact h.free_mem j x hx
    · rw [update_of_ne hj] at hx
      exact h.free_mem j x hx
  · rw [hnext]
    refine update_of_ne ?_ _ _
    rintro rfl
    exact h.not_dead hi.1 hx

/-! ### Growing the table -/

end Rep

theorem SameCounters.sameRest {a a' : Allocator} (h : SameCounters a a') : SameRest a a' :=
  ⟨h.totalSize, h.numBlocks, h.maxBlocks.ge, h.deadBlocks⟩

theorem SameRest.trans {a a' a'' : Allocator} (h : SameRest a a') (h' : SameRest a' a'') :
    SameRest a a'' :=
  ⟨h'.totalSize.trans h.totalSize, h'.numBlocks.trans h.numBlocks, h.maxBlocks.trans h'.maxBlocks,
    h'.deadBlocks.trans h.deadBlocks⟩

/-- One round of the rebuilding loop puts slot `i` on the list of its level if it is marked free. -/
theorem rebuildBlock_spec {lists : ℕ → List ℕ} (h : ListFamily a.next a.prev a.freeLists lists)
    (hi : ∀ l, i ∉ lists l) :
    ∃ lists', ListFamily (rebuildBlock a i).next (rebuildBlock a i).prev
        (rebuildBlock a i).freeLists lists' ∧
      (rebuildBlock a i).data = a.data ∧ SameRest a (rebuildBlock a i) ∧
      ∀ l x, x ∈ lists' l ↔
        x ∈ lists l ∨ x = i ∧ (a.data i).isFree = true ∧ (a.data i).level = l := by
  by_cases hfree : (a.data i).isFree = true
  · have hround : rebuildBlock a i = pushFree a i := if_pos hfree
    rw [hround]
    obtain ⟨hnext, hprev, hheads, hdata, hrest⟩ := pushFree_spec a i
    refine ⟨update lists (a.data i).level (i :: lists (a.data i).level), ?_, hdata, hrest,
      fun l x => ?_⟩
    · rw [hnext, hprev, hheads]
      exact h.push hi _
    · by_cases hl : l = (a.data i).level
      · subst hl
        rw [update_self, List.mem_cons]
        tauto
      · rw [update_of_ne hl]
        have : (a.data i).level ≠ l := fun heq => hl heq.symm
        tauto
  · have hround : rebuildBlock a i = (a.setNext i none).setPrev i none := if_neg hfree
    rw [hround]
    have hne : ∀ l, ∀ x ∈ lists l, x ≠ i := fun l x hx heq => hi l (heq ▸ hx)
    refine ⟨lists, ?_, by simp, ⟨rfl, rfl, le_rfl, rfl⟩,
      fun l x => (or_iff_left fun hmarked => hfree hmarked.2.1).symm⟩
    refine h.congr (fun l x hx => ?_) fun l x hx => ?_
    · simp [update_of_ne (hne l x hx)]
    · simp [update_of_ne (hne l x hx)]

theorem foldl_rebuildBlock {slots : List ℕ} {lists : ℕ → List ℕ}
    (h : ListFamily a.next a.prev a.freeLists lists) (hnodup : slots.Nodup)
    (hnot : ∀ i ∈ slots, ∀ l, i ∉ lists l) :
    ∃ lists', ListFamily (slots.foldl rebuildBlock a).next (slots.foldl rebuildBlock a).prev
        (slots.foldl rebuildBlock a).freeLists lists' ∧
      (slots.foldl rebuildBlock a).data = a.data ∧ SameRest a (slots.foldl rebuildBlock a) ∧
      ∀ l x, x ∈ lists' l ↔
        x ∈ lists l ∨ x ∈ slots ∧ (a.data x).isFree = true ∧ (a.data x).level = l := by
  induction slots generalizing a lists with
  | nil => exact ⟨lists, h, rfl, ⟨rfl, rfl, le_rfl, rfl⟩, fun l x => by simp⟩
  | cons i slots ih =>
      obtain ⟨hfresh, hnodup⟩ := List.nodup_cons.mp hnodup
      obtain ⟨lists₁, hfamily, hdata, hrest, hmem⟩ :=
        rebuildBlock_spec h (hnot i (List.mem_cons_self ..))
      have hnot₁ : ∀ x ∈ slots, ∀ l, x ∉ lists₁ l := by
        intro x hx l hxl
        rcases (hmem l x).mp hxl with hold | ⟨rfl, -⟩
        · exact hnot x (List.mem_cons_of_mem _ hx) l hold
        · exact hfresh hx
      obtain ⟨lists₂, hfamily₂, hdata₂, hrest₂, hmem₂⟩ := ih hfamily hnodup hnot₁
      refine ⟨lists₂, hfamily₂, hdata₂.trans hdata, hrest.trans hrest₂, fun l x => ?_⟩
      rw [hmem₂, hmem, hdata, List.mem_cons]
      by_cases hx : x = i
      · subst hx
        tauto
      · tauto

/-- The rebuilt lists hold exactly the slots that are marked free, by level. -/
theorem buddyRebuildFreeLists_spec (a : Allocator) :
    ∃ lists, ListFamily (buddyRebuildFreeLists a).next (buddyRebuildFreeLists a).prev
        (buddyRebuildFreeLists a).freeLists lists ∧
      (buddyRebuildFreeLists a).data = a.data ∧ SameRest a (buddyRebuildFreeLists a) ∧
      ∀ l x, x ∈ lists l ↔
        x < a.numBlocks ∧ (a.data x).isFree = true ∧ (a.data x).level = l := by
  set a₀ : Allocator := { a with freeLists := fun _ => none } with ha₀
  have hempty : ListFamily a₀.next a₀.prev a₀.freeLists (fun _ => []) :=
    ⟨fun _ => rfl, fun _ _ _ hx => absurd hx (List.not_mem_nil)⟩
  obtain ⟨lists, hfamily, hdata, hrest, hmem⟩ :=
    foldl_rebuildBlock hempty (List.nodup_range (n := a.numBlocks)) (by simp)
  refine ⟨lists, hfamily, hdata, ?_, fun l x => ?_⟩
  · exact ⟨hrest.totalSize, hrest.numBlocks, hrest.maxBlocks, hrest.deadBlocks⟩
  · rw [hmem]
    simp only [List.not_mem_nil, List.mem_range, false_or]
    rfl

namespace Rep

variable {m : ℕ} {a a' : Allocator} {free : ℕ → List ℕ} {dead : List ℕ} {S : Set ℕ} {i l : ℕ}

/-- Growing the table, or not having to, keeps the records and the sets of free and taken blocks. -/
theorem ensureCapacity_spec (h : Rep m a free dead S)
    (hmarked : ∀ i ∈ taken free S, (a.data i).isFree = false) (realloc : Option Moved) :
    ensureCapacity a realloc = none ∧ realloc = none ∨
      ∃ a₁ free₁, ensureCapacity a realloc = some a₁ ∧ Rep m a₁ free₁ dead S ∧
        a₁.totalSize = a.totalSize ∧ (∀ l x, x ∈ free₁ l ↔ x ∈ free l) ∧ (∀ i ∈ S, a₁.data i = a.data i) ∧
        (a₁.deadBlocks = none → a₁.numBlocks < a₁.maxBlocks) := by
  unfold ensureCapacity
  by_cases hfull : a.deadBlocks = none ∧ a.numBlocks ≥ a.maxBlocks
  · rw [if_pos hfull]
    cases realloc with
    | none => exact Or.inl ⟨rfl, rfl⟩
    | some moved =>
        right
        set a₀ := moveBlocks a moved (a.maxBlocks * 2) with ha₀
        obtain ⟨lists, hfamily, hdata, hrest, hmem⟩ := buddyRebuildFreeLists_spec a₀
        have hdata₀ : ∀ i, i < a.numBlocks → a₀.data i = a.data i := by
          intro i hi
          have hlt : i < a.maxBlocks := by
            have := h.capacity.2
            omega
          simp [ha₀, moveBlocks, data, hlt]
        have hS : ∀ i ∈ S, i < a.numBlocks := fun i hi => (h.slots i).mpr (Or.inl hi)
        have hdead : dead = [] := by
          have hlinked := h.deadLinked.head_eq
          rw [hfull.1] at hlinked
          exact List.head?_eq_none_iff.mp hlinked.symm
        have hiff : ∀ l x, x ∈ lists l ↔ x ∈ free l := by
          intro l x
          rw [hmem]
          show x < a.numBlocks ∧ _ ↔ _
          constructor
          · rintro ⟨hx, hfree, hlevel⟩
            rw [hdata₀ x hx] at hfree hlevel
            by_contra hnot
            have hxS : x ∈ S := by
              rcases (h.slots x).mp hx with hxS | hxd
              · exact hxS
              · simp [hdead] at hxd
            have htaken : x ∈ taken free S := by
              refine ⟨hxS, fun j hj => hnot ?_⟩
              rwa [← hlevel, (h.free_mem j x hj).2.2]
            rw [hmarked x htaken] at hfree
            exact Bool.noConfusion hfree
          · intro hx
            obtain ⟨hxS, hfree, hlevel⟩ := h.free_mem l x hx
            rw [hdata₀ x (hS x hxS)]
            exact ⟨hS x hxS, hfree, hlevel⟩
        have hsame : SameRest a (buddyRebuildFreeLists a₀) := by
          have hmax : a.maxBlocks ≤ a₀.maxBlocks := by
            show a.maxBlocks ≤ a.maxBlocks * 2
            omega
          exact ⟨hrest.totalSize, hrest.numBlocks, hmax.trans hrest.maxBlocks, hrest.deadBlocks⟩
        have hdata₁ : ∀ i, i < a.numBlocks → (buddyRebuildFreeLists a₀).data i = a.data i := by
          intro i hi
          rw [hdata, hdata₀ i hi]
        refine ⟨buddyRebuildFreeLists a₀, lists, rfl, ?_, hsame.totalSize, hiff,
          fun i hi => hdata₁ i (hS i hi), ?_⟩
        · exact h.relist hdata₁ hsame hfamily (fun l x hx => h.free_mem l x ((hiff l x).mp hx))
            (by simp [hdead])
        · intro _
          have hmax : a.maxBlocks * 2 ≤ (buddyRebuildFreeLists a₀).maxBlocks := hrest.maxBlocks
          have hcapacity := h.capacity
          rw [hsame.numBlocks]
          omega
  · rw [if_neg hfull]
    refine Or.inr ⟨a, free, rfl, h, rfl, fun _ _ => Iff.rfl, fun _ _ => rfl, fun hnone => ?_⟩
    by_contra hge
    exact hfull ⟨hnone, by omega⟩

end Rep

/-! ### Splitting -/

theorem addHalves_counters (a : Allocator) (i buddy : ℕ) : SameCounters a (addHalves a i buddy) := by
  have hlinks : ∀ next, SameCounters a
      ((((a.setNext i (some buddy)).setPrev i none).setNext buddy next).setPrev buddy (some i)) :=
    fun next => ((((SameCounters.refl a).setNext ..).setPrev ..).setNext ..).setPrev ..
  unfold addHalves
  dsimp only
  split
  · exact ((hlinks _).setPrev ..).setFreeList ..
  · exact (hlinks _).setFreeList ..

/-- Adding the two halves has the effect of pushing the upper one and then the lower one. -/
theorem addHalves_spec {buddy level : ℕ} (hlevel : (a.data i).level = level) (hne : i ≠ buddy)
    (hhead : a.freeLists level ≠ some i) (hhead' : a.freeLists level ≠ some buddy) :
    (addHalves a i buddy).next = update (update a.next buddy (a.freeLists level)) i (some buddy) ∧
      (addHalves a i buddy).prev =
        pushPrev (pushPrev a.prev (a.freeLists level) buddy) (some buddy) i ∧
      (addHalves a i buddy).freeLists = update a.freeLists level (some i) ∧
      (addHalves a i buddy).data = a.data ∧ SameRest a (addHalves a i buddy) := by
  suffices hlists : (addHalves a i buddy).next =
        update (update a.next buddy (a.freeLists level)) i (some buddy) ∧
      (addHalves a i buddy).prev =
        pushPrev (pushPrev a.prev (a.freeLists level) buddy) (some buddy) i ∧
      (addHalves a i buddy).freeLists = update a.freeLists level (some i) ∧
      (addHalves a i buddy).data = a.data by
    obtain ⟨hnext, hprev, hheads, hdata⟩ := hlists
    exact ⟨hnext, hprev, hheads, hdata, (addHalves_counters a i buddy).sameRest⟩
  unfold addHalves
  simp only [allBlocks_level, hlevel, setPrev_freeLists, setNext_freeLists]
  have hnext : update (update a.next i (some buddy)) buddy (a.freeLists level) =
      update (update a.next buddy (a.freeLists level)) i (some buddy) :=
    Function.update_comm hne ..
  cases hx : a.freeLists level with
  | none =>
      rw [hx] at hnext
      refine ⟨by simpa using hnext, ?_, by simp, by simp⟩
      simp only [setFreeList_prev, setPrev_prev, setNext_prev, pushPrev]
      have hswap : update (update a.prev buddy none) i none = update (update a.prev i none) buddy none :=
        Function.update_comm hne.symm ..
      rw [hswap, Function.update_idem]
  | some x =>
      rw [hx] at hnext hhead hhead'
      have hxi : i ≠ x := fun heq => hhead (heq ▸ rfl)
      have hxb : buddy ≠ x := fun heq => hhead' (heq ▸ rfl)
      refine ⟨by simpa using hnext, ?_, by simp, by simp⟩
      simp only [setFreeList_prev, setPrev_prev, setNext_prev, pushPrev]
      funext y
      by_cases hyx : y = x
      · subst hyx
        simp [update_of_ne hxi.symm, update_of_ne hxb.symm]
      · by_cases hyb : y = buddy
        · subst hyb
          simp [update_of_ne hyx]
        · by_cases hyi : y = i
          · subst hyi
            simp [update_of_ne hyx, update_of_ne hyb]
          · simp [update_of_ne hyx, update_of_ne hyb, update_of_ne hyi]

/-- The slot `j` has been taken from the dead slots or from the end of the table; `a'` is the allocator
without it. -/
structure NewSlot (a a' : Allocator) (dead dead' : List ℕ) (S : Set ℕ) (j : ℕ) : Prop where
  not_mem : j ∉ S
  allBlocks : a'.allBlocks = a.allBlocks
  freeLists : a'.freeLists = a.freeLists
  totalSize : a'.totalSize = a.totalSize
  capacity : 0 < a'.maxBlocks ∧ a'.numBlocks ≤ a'.maxBlocks
  deadLinked : Linked a.next a'.deadBlocks dead'
  dead_mem : ∀ x ∈ dead', x ∈ dead ∧ x ≠ j
  slots : ∀ x, x < a'.numBlocks ↔ x ∈ S ∨ x = j ∨ x ∈ dead'

namespace NewSlot

variable {a a' : Allocator} {dead dead' : List ℕ} {S : Set ℕ} {j : ℕ}

theorem data_eq (h : NewSlot a a' dead dead' S j) : a'.data = a.data := by
  funext x
  simp only [data, h.allBlocks]

theorem next_eq (h : NewSlot a a' dead dead' S j) : a'.next = a.next := by
  funext x
  simp only [next, h.allBlocks]

theorem prev_eq (h : NewSlot a a' dead dead' S j) : a'.prev = a.prev := by
  funext x
  simp only [prev, h.allBlocks]

end NewSlot

namespace Rep

variable {m : ℕ} {a a' : Allocator} {free : ℕ → List ℕ} {dead : List ℕ} {S : Set ℕ} {i l : ℕ}

theorem takeSlot_spec (h : Rep m a free dead S)
    (hroom : a.deadBlocks = none → a.numBlocks < a.maxBlocks) :
    ∃ dead', NewSlot a (takeSlot a).2 dead dead' S (takeSlot a).1 := by
  have hlinked := h.deadLinked
  cases dead with
  | nil =>
      rw [Linked.nil_iff] at hlinked
      have hslot : takeSlot a = (a.numBlocks, { a with numBlocks := a.numBlocks + 1 }) := by
        simp [takeSlot, hlinked]
      have hsplit : ∀ x, x < a.numBlocks ↔ x ∈ S := by simpa using h.slots
      have hlt := hroom hlinked
      rw [hslot]
      refine ⟨[], fun hmem => ?_, rfl, rfl, rfl, ⟨h.capacity.1, hlt⟩, hlinked, by simp, fun x => ?_⟩
      · exact Nat.lt_irrefl _ ((hsplit _).mpr hmem)
      · show x < a.numBlocks + 1 ↔ _
        rw [← hsplit]
        simp only [List.not_mem_nil, or_false]
        omega
  | cons j dead' =>
      have hslot : takeSlot a = (j, { a with deadBlocks := a.next j }) := by
        simp [takeSlot, hlinked.1, Allocator.next]
      have hfresh := (List.nodup_cons.mp hlinked.nodup).1
      rw [hslot]
      refine ⟨dead', (h.dead_mem j (List.mem_cons_self ..)).1, rfl, rfl, rfl, h.capacity, hlinked.2,
        fun x hx => ⟨List.mem_cons_of_mem _ hx, ?_⟩, fun x => ?_⟩
      · rintro rfl
        exact hfresh hx
      · rw [← List.mem_cons]
        exact h.slots x

end Rep

/-- The records after a split. -/
theorem halve_spec {k : ℕ} (a : Allocator) {block buddy : ℕ} (hne : block ≠ buddy)
    (hlevel : (a.data block).level = k + 1) :
    (halve a block buddy).data =
        update (update a.data block { a.data block with level := k, size := levelToSize k }) buddy
          { next := none, prev := none, offset := (a.data block).offset + levelToSize k,
            size := levelToSize k, isFree := true, level := k } ∧
      (∀ x, x ≠ buddy → (halve a block buddy).next x = a.next x ∧
        (halve a block buddy).prev x = a.prev x) ∧
      (halve a block buddy).freeLists = a.freeLists ∧ SameRest a (halve a block buddy) := by
  have hlevel' : (a.allBlocks block).level - 1 = k := by
    rw [allBlocks_level, hlevel, Nat.add_sub_cancel]
  unfold halve
  simp only [hlevel']
  refine ⟨?_, fun x hx => ?_, rfl, ⟨rfl, rfl, le_rfl, rfl⟩⟩
  · funext x
    by_cases hxj : x = buddy
    · subst hxj
      simp [data]
    · by_cases hxi : x = block
      · subst hxi
        simp [data, update_of_ne hxj]
      · simp [data, update_of_ne hxj, update_of_ne hxi]
  · by_cases hxi : x = block
    · subst hxi
      simp [next, prev, update_of_ne hx]
    · simp [next, prev, update_of_ne hx, update_of_ne hxi]

namespace Rep

variable {m : ℕ} {a a' : Allocator} {free : ℕ → List ℕ} {dead : List ℕ} {S : Set ℕ} {i l : ℕ}

/-- A taken block `i` of level `k + 1` is halved, the record of the upper half going into slot `j`. -/
theorem halve {k j : ℕ} {dead' : List ℕ} (h : Rep m a free dead S) (hi : i ∈ taken free S)
    (hlevel : (a.data i).level = k + 1) (hslot : NewSlot a a' dead dead' S j) :
    Rep m (GpuPool.halve a' i j) free dead' (insert j S) := by
  have hij : i ≠ j := fun heq => hslot.not_mem (heq ▸ hi.1)
  obtain ⟨hdata, hlinks, hheads, hrest⟩ :=
    halve_spec a' hij (k := k) (by rw [hslot.data_eq, hlevel])
  rw [hslot.data_eq] at hdata
  rw [hslot.next_eq, hslot.prev_eq] at hlinks
  have hlow : (GpuPool.halve a' i j).data i = { a.data i with level := k, size := levelToSize k } := by
    rw [hdata, update_of_ne hij, update_self]
  have hhigh : (GpuPool.halve a' i j).data j =
      ⟨none, none, (a.data i).offset + levelToSize k, levelToSize k, true, k⟩ := by
    rw [hdata, update_self]
  have hother : ∀ x, x ≠ i → x ≠ j → (GpuPool.halve a' i j).data x = a.data x := by
    intro x hxi hxj
    rw [hdata, update_of_ne hxj, update_of_ne hxi]
  have hfreeNe : ∀ l, ∀ x ∈ free l, x ≠ i ∧ x ≠ j := fun l x hx =>
    ⟨fun heq => hi.2 l (heq ▸ hx), fun heq => hslot.not_mem (heq ▸ (h.free_mem l x hx).1)⟩
  have hk : k + 1 ≤ m := hlevel ▸ h.level_le i hi.1
  constructor
  · exact h.level_lt
  · rw [hheads, hslot.freeLists]
    exact h.family.congr (fun l x hx => (hlinks x (hfreeNe l x hx).2).1)
      fun l x hx => (hlinks x (hfreeNe l x hx).2).2
  · intro l x hx
    rw [hother x (hfreeNe l x hx).1 (hfreeNe l x hx).2]
    exact ⟨Set.mem_insert_of_mem _ (h.free_mem l x hx).1, (h.free_mem l x hx).2⟩
  · rw [hrest.deadBlocks]
    exact hslot.deadLinked.congr fun x hx => (hlinks x (hslot.dead_mem x hx).2).1
  · intro x hx
    obtain ⟨hdead, hxj⟩ := hslot.dead_mem x hx
    obtain ⟨hxS, hfree⟩ := h.dead_mem x hdead
    rw [hother x (fun heq => hxS (heq ▸ hi.1)) hxj]
    exact ⟨fun hmem => (Set.mem_insert_iff.mp hmem).elim hxj hxS, hfree⟩
  · intro x
    rw [hrest.numBlocks, hslot.slots, Set.mem_insert_iff]
    tauto
  · rw [hrest.numBlocks]
    have hmax := hrest.maxBlocks
    have hcapacity := hslot.capacity
    omega
  · intro x hx
    by_cases hxi : x = i
    · rw [hxi, hlow]
      show k ≤ m
      omega
    · rcases Set.mem_insert_iff.mp hx with rfl | hx
      · rw [hhigh]
        show k ≤ m
        omega
      · rw [hother x hxi fun heq => hslot.not_mem (heq ▸ hx)]
        exact h.level_le x hx
  · intro x hx
    by_cases hxi : x = i
    · rw [hxi, hlow]
      exact Or.inl ⟨by omega, rfl⟩
    · rcases Set.mem_insert_iff.mp hx with rfl | hx
      · rw [hhigh]
        exact Or.inl ⟨by omega, rfl⟩
      · rw [hother x hxi fun heq => hslot.not_mem (heq ▸ hx), hrest.totalSize, hslot.totalSize]
        exact h.size_eq x hx
  · have hoff : ∀ x ∈ S, ((GpuPool.halve a' i j).data x).offset = (a.data x).offset := by
      intro x hx
      by_cases hxi : x = i
      · rw [hxi, hlow]
      · rw [hother x hxi fun heq => hslot.not_mem (heq ▸ hx)]
    have hdouble : levelToSize (a.data i).level = 2 * levelToSize k := by
      rw [hlevel, levelToSize_succ]
    refine h.tiling.split hi.1 hslot.not_mem hdouble hoff (by rw [hhigh]) (by rw [hlow])
      (by rw [hhigh]) fun x hx hxi => ?_
    rw [hother x hxi fun heq => hslot.not_mem (heq ▸ hx)]

/-- The two halves, off the lists after `halve`, are added to the list of their level. -/
theorem addHalves {k j : ℕ} (h : Rep m a free dead S) (hi : i ∈ taken free S) (hj : j ∈ taken free S)
    (hij : i ≠ j) (hleveli : (a.data i).level = k) (hlevelj : (a.data j).level = k)
    (hfreei : (a.data i).isFree = true) (hfreej : (a.data j).isFree = true) :
    Rep m (GpuPool.addHalves a i j) (update free k (i :: j :: free k)) dead S ∧
      (GpuPool.addHalves a i j).data = a.data ∧ SameRest a (GpuPool.addHalves a i j) := by
  obtain ⟨hnext, hprev, hheads, hdata, hrest⟩ := addHalves_spec hleveli hij
    (fun hhead => hi.2 k (h.family.mem_of_head hhead))
    fun hhead => hj.2 k (h.family.mem_of_head hhead)
  have hpush := h.family.push hj.2 k
  have hnot : ∀ l, i ∉ update free k (j :: free k) l := by
    intro l hmem
    by_cases hl : l = k
    · subst hl
      rw [update_self] at hmem
      exact (List.mem_cons.mp hmem).elim hij (hi.2 l)
    · rw [update_of_ne hl] at hmem
      exact hi.2 l hmem
  have hpush₂ := hpush.push hnot k
  rw [update_self, update_self, Function.update_idem, Function.update_idem] at hpush₂
  refine ⟨h.relist (fun x _ => by rw [hdata]) hrest ?_ (fun l x hx => ?_) fun x hx => ?_, hdata, hrest⟩
  · rw [hnext, hprev, hheads]
    exact hpush₂
  · by_cases hl : l = k
    · subst hl
      rw [update_self, List.mem_cons, List.mem_cons] at hx
      rcases hx with rfl | rfl | hx
      · exact ⟨hi.1, hfreei, hleveli⟩
      · exact ⟨hj.1, hfreej, hlevelj⟩
      · exact h.free_mem l x hx
    · rw [update_of_ne hl] at hx
      exact h.free_mem l x hx
  · have hxi : x ≠ i := fun heq => h.not_dead hi.1 (heq ▸ hx)
    have hxj : x ≠ j := fun heq => h.not_dead hj.1 (heq ▸ hx)
    rw [hnext, update_of_ne hxi, update_of_ne hxj]

end Rep

/-- What a change of the free lists leaves alone: the taken blocks and their records. -/
structure SameTaken (a a' : Allocator) (free free' : ℕ → List ℕ) (S S' : Set ℕ) : Prop where
  totalSize : a'.totalSize = a.totalSize
  taken_eq : taken free' S' = taken free S
  data_eq : ∀ i ∈ taken free S, a'.data i = a.data i

theorem SameTaken.refl (a : Allocator) (free : ℕ → List ℕ) (S : Set ℕ) :
    SameTaken a a free free S S :=
  ⟨rfl, rfl, fun _ _ => rfl⟩

theorem SameTaken.trans {a a' a'' : Allocator} {free free' free'' : ℕ → List ℕ} {S S' S'' : Set ℕ}
    (h : SameTaken a a' free free' S S') (h' : SameTaken a' a'' free' free'' S' S'') :
    SameTaken a a'' free free'' S S'' := by
  refine ⟨h'.totalSize.trans h.totalSize, h'.taken_eq.trans h.taken_eq, fun i hi => ?_⟩
  rw [h'.data_eq i (by rwa [h.taken_eq]), h.data_eq i hi]

/-- Every taken block is marked as allocated. -/
def Marked (a : Allocator) (free : ℕ → List ℕ) (S : Set ℕ) : Prop :=
  ∀ i ∈ taken free S, (a.data i).isFree = false

theorem SameTaken.marked {a a' : Allocator} {free free' : ℕ → List ℕ} {S S' : Set ℕ}
    (h : SameTaken a a' free free' S S') (hmarked : Marked a free S) : Marked a' free' S' := by
  intro i hi
  rw [h.taken_eq] at hi
  rw [h.data_eq i hi]
  exact hmarked i hi

end LgxRuntime.GpuPool
