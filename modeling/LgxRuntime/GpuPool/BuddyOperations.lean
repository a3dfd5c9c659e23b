import LgxRuntime.GpuPool.BuddySteps

/-!
# The operations of the GPU pool's buddy allocator keep the invariant

`AllocSteps` and `FreeSteps` are the steps that a call of `buddy_alloc` or `buddy_free` is made of.
`buddyAlloc_spec` and `buddyFree_spec` read off what a call does to the taken blocks.  Both return within
the bounds that the model puts on their loops, whatever `realloc` does.
-/

namespace LgxRuntime.GpuPool

open Function (update update_self update_of_ne)
open FreeLists (taken mem_taken_prepend)
open Allocator

namespace Rep

variable {m : ℕ} {a a' : Allocator} {free : ℕ → List ℕ} {dead : List ℕ} {S : Set ℕ} {i l : ℕ}

/-- The mark and the links of a taken block are rewritten. -/
theorem setBlock (h : Rep m a free dead S) (hi : i ∈ taken free S) {b : BuddyBlock}
    (hoffset : b.offset = (a.data i).offset) (hsize : b.size = (a.data i).size)
    (hlevel : b.level = (a.data i).level) : Rep m (a.setBlock i b) free dead S := by
  have hother : ∀ x, x ≠ i → (a.setBlock i b).allBlocks x = a.allBlocks x :=
    fun x hx => by simp [update_of_ne hx]
  have hself : (a.setBlock i b).allBlocks i = b := by simp
  have hfreeNe : ∀ l, ∀ x ∈ free l, x ≠ i := fun l x hx heq => hi.2 l (heq ▸ hx)
  have hdeadNe : ∀ x ∈ dead, x ≠ i := fun x hx heq => h.not_dead hi.1 (heq ▸ hx)
  have hsame : ∀ x, ((a.setBlock i b).data x).offset = (a.data x).offset ∧
      ((a.setBlock i b).data x).size = (a.data x).size ∧
      ((a.setBlock i b).data x).level = (a.data x).level := by
    intro x
    by_cases hx : x = i
    · subst hx
      simp only [data, hself]
      exact ⟨hoffset, hsize, hlevel⟩
    · simp only [data, hother x hx, and_self]
  constructor
  · exact h.level_lt
  · refine h.family.congr (fun l x hx => ?_) fun l x hx => ?_
    · simp only [Allocator.next, hother x (hfreeNe l x hx)]
    · simp only [Allocator.prev, hother x (hfreeNe l x hx)]
  · intro l x hx
    simp only [data, hother x (hfreeNe l x hx)]
    exact h.free_mem l x hx
  · refine h.deadLinked.congr fun x hx => ?_
    simp only [Allocator.next, hother x (hdeadNe x hx)]
  · intro x hx
    simp only [data, hother x (hdeadNe x hx)]
    exact h.dead_mem x hx
  · exact h.slots
  · exact h.capacity
  · intro x hx
    rw [(hsame x).2.2]
    exact h.level_le x hx
  · intro x hx
    rw [(hsame x).2.1, (hsame x).2.2]
    exact h.size_eq x hx
  · exact h.tiling.congr (fun x _ => (hsame x).1) fun x _ => by rw [(hsame x).2.2]

end Rep

/-! ## Taking a block and putting it back -/

/-- The free block in slot `i`, of level `l`, becomes an allocated one. -/
structure Take (a a' : Allocator) (v v' : View) (i l : ℕ) : Prop where
  mem : i ∈ v.free l
  blocks : v'.blocks = v.blocks
  dead : v'.dead = v.dead
  self : a'.data i = { a.data i with isFree := false }
  other : ∀ x, x ≠ i → a'.data x = a.data x
  totalSize : a'.totalSize = a.totalSize
  numBlocks : a'.numBlocks = a.numBlocks
  maxBlocks : a'.maxBlocks = a.maxBlocks
  allocatedBytes : a'.allocatedBytes = wrap64 (a.allocatedBytes + (a.data i).size)

/-- The allocated block in slot `i` is put on the list of its level. -/
structure Put (a a' : Allocator) (v v' : View) (i : ℕ) : Prop where
  mem : i ∈ taken v.free v.blocks
  blocks : v'.blocks = v.blocks
  dead : v'.dead = v.dead
  self : a'.data i = { a.data i with isFree := true }
  other : ∀ x, x ≠ i → a'.data x = a.data x
  totalSize : a'.totalSize = a.totalSize
  numBlocks : a'.numBlocks = a.numBlocks
  maxBlocks : a'.maxBlocks = a.maxBlocks
  allocatedBytes : a'.allocatedBytes = sub64 a.allocatedBytes (a.data i).size

/-- The steps of a call of `buddy_alloc`. -/
inductive AllocSteps (m : ℕ) (realloc : ℕ → Option Moved) (size alignment : ℕ) (a : Allocator) (v : View) :
    Option ℕ → Allocator → View → Prop
  | refused (hlarge : size > maxBlockSize ∨ alignment > maxBlockSize) :
      AllocSteps m realloc size alignment a v none a v
  | failed {a' : Allocator} {v' : View} (hsize : size ≤ maxBlockSize) (halignment : alignment ≤ maxBlockSize)
      (hfound : Found m realloc (requestLevel size alignment) a v none a' v') :
      AllocSteps m realloc size alignment a v none a' v'
  | taken {a₁ a' : Allocator} {v₁ v' : View} {i : ℕ} (hsize : size ≤ maxBlockSize)
      (halignment : alignment ≤ maxBlockSize)
      (hfound : Found m realloc (requestLevel size alignment) a v (some i) a₁ v₁)
      (htake : Take a₁ a' v₁ v' i (requestLevel size alignment)) :
      AllocSteps m realloc size alignment a v (some i) a' v'

/-- The steps of a call of `buddy_free` for the block in slot `i`. -/
inductive FreeSteps (m : ℕ) (a : Allocator) (v : View) (i : ℕ) : Allocator → View → Prop
  | intro {a₁ a' : Allocator} {v₁ v' : View} {merged k : ℕ} (hput : Put a a₁ v v₁ i) (hvalid : Valid m a₁ v₁)
      (hchain : MergeChain m a₁ v₁ i a' v' merged) (hmem : merged ∈ v'.free k)
      (hend : k ≥ numBuddyLevels - 1 ∨ findBuddy a' merged = none) : FreeSteps m a v i a' v'

namespace Valid

variable {m : ℕ} {a : Allocator} {v : View} {i l : ℕ}

/-- The tail of `buddy_alloc` takes the block that was found. -/
theorem takeBlock_spec (h : Valid m a v) (hi : i ∈ v.free l) :
    ∃ v', Valid m (takeBlock a i) v' ∧ Take a (takeBlock a i) v v' i l := by
  obtain ⟨-, -, -, hdata, -⟩ := unlink_spec (h.rep.family.prev_ne_self hi)
  have hcounters := unlink_counters a i
  have htaken := h.rep.taken_unlink hi
  set a₁ := GpuPool.unlink a i with ha₁
  have hset := (h.rep.unlink hi).setBlock (htaken ▸ Set.mem_insert _ _)
    (b := { a₁.allBlocks i with isFree := false, next := none, prev := none }) rfl rfl rfl
  have hself : (takeBlock a i).data i = { a.data i with isFree := false } := by
    rw [← hdata]
    simp [takeBlock, data, ← ha₁]
  have hother : ∀ x, x ≠ i → (takeBlock a i).data x = a.data x := by
    intro x hx
    rw [← hdata]
    simp [takeBlock, data, ← ha₁, update_of_ne hx]
  have hmarked : Marked (takeBlock a i) (update v.free l ((v.free l).erase i)) v.blocks := by
    intro x hx
    rw [htaken] at hx
    rcases Set.mem_insert_iff.mp hx with rfl | hx
    · rw [hself]
    · have hxi : x ≠ i := fun heq => hx.2 l (heq ▸ hi)
      rw [hother x hxi]
      exact h.marked x hx
  refine ⟨⟨update v.free l ((v.free l).erase i), v.dead, v.blocks⟩,
    ⟨hset.of_eq rfl rfl ⟨rfl, rfl, le_rfl, rfl⟩, hmarked⟩, hi, rfl, rfl, hself, hother,
    hcounters.totalSize, hcounters.numBlocks, hcounters.maxBlocks, ?_⟩
  show wrap64 (a₁.allocatedBytes + _) = _
  rw [hcounters.allocatedBytes, ← hdata]
  simp [data, ha₁]

/-- `buddy_alloc` returns, and consists of these steps. -/
theorem buddyAlloc_steps (h : Valid m a v) (realloc : ℕ → Option Moved) (size alignment : ℕ) :
    ∃ result a' v', buddyAlloc a realloc size alignment = some (result, a') ∧ Valid m a' v' ∧
      AllocSteps m realloc size alignment a v result a' v' := by
  unfold buddyAlloc
  split
  · rename_i hlarge
    exact ⟨none, a, v, rfl, h, .refused hlarge⟩
  · rename_i hsmall
    obtain ⟨hsize, halignment⟩ : size ≤ maxBlockSize ∧ alignment ≤ maxBlockSize := by omega
    obtain ⟨result, a₁, v₁, heq, hfound⟩ :=
      h.buddyFindFreeBlock_spec realloc (requestLevel size alignment)
    have h₁ := hfound.valid h
    rw [heq]
    cases result with
    | none => exact ⟨none, a₁, v₁, rfl, h₁, .failed hsize halignment hfound⟩
    | some i =>
        obtain ⟨v', h', htake⟩ := h₁.takeBlock_spec (hfound.mem_free h)
        exact ⟨some i, takeBlock a₁ i, v', rfl, h', .taken hsize halignment hfound htake⟩

/-- The first part of `buddy_free`, before it coalesces. -/
theorem put_spec (h : Valid m a v) (hi : i ∈ taken v.free v.blocks) :
    let a₁ := a.setBlock i { a.allBlocks i with isFree := true }
    let a₂ := pushFree { a₁ with
        allocatedBytes := sub64 a₁.allocatedBytes (a₁.allBlocks i).size
        numFrees := a₁.numFrees + 1 } i
    ∃ v', Valid m a₂ v' ∧ Put a a₂ v v' i ∧ i ∈ v'.free (a.data i).level := by
  intro a₁
  set a₂ : Allocator :=
    { a₁ with
      allocatedBytes := sub64 a₁.allocatedBytes (a₁.allBlocks i).size
      numFrees := a₁.numFrees + 1 } with ha₂
  have h₂ : Rep m a₂ v.free v.dead v.blocks :=
    (h.rep.setBlock hi (b := { a.allBlocks i with isFree := true }) rfl rfl rfl).of_eq rfl rfl
      ⟨rfl, rfl, le_rfl, rfl⟩
  have hself : a₂.data i = { a.data i with isFree := true } := by simp [ha₂, a₁, data]
  have hother : ∀ x, x ≠ i → a₂.data x = a.data x := by
    intro x hx
    simp [ha₂, a₁, data, update_of_ne hx]
  have hlevel : (a₂.data i).level = (a.data i).level := by rw [hself]
  have h₃ := h₂.pushFree hi (by rw [hself]) hlevel
  obtain ⟨-, -, -, hdata₃, -⟩ := pushFree_spec a₂ i
  have hcounters := pushFree_counters a₂ i
  have hmarked : Marked (pushFree a₂ i)
      (update v.free (a.data i).level (i :: v.free (a.data i).level)) v.blocks := by
    intro x hx
    rw [show i :: v.free (a.data i).level = [i] ++ v.free (a.data i).level from rfl, mem_taken_prepend,
      List.mem_singleton] at hx
    rw [hdata₃, hother x hx.2]
    exact h.marked x hx.1
  refine ⟨⟨update v.free (a.data i).level (i :: v.free (a.data i).level), v.dead, v.blocks⟩, ⟨h₃, hmarked⟩,
    ⟨hi, rfl, rfl, ?_, fun x hx => ?_, hcounters.totalSize, hcounters.numBlocks, hcounters.maxBlocks, ?_⟩, ?_⟩
  · rw [hdata₃, hself]
  · rw [hdata₃, hother x hx]
  · rw [hcounters.allocatedBytes]
    simp [ha₂, a₁, data]
  · simp

/-- `buddy_free` of an allocated block returns, and consists of these steps. -/
theorem buddyFree_steps (h : Valid m a v) (hi : i ∈ taken v.free v.blocks) :
    ∃ a' v', buddyFree a i = some a' ∧ Valid m a' v' ∧ FreeSteps m a v i a' v' := by
  obtain ⟨v₁, h₁, hput, hmem₁⟩ := h.put_spec hi
  obtain ⟨a', v', merged, k, heq, hchain, hmem, hend⟩ :=
    h₁.buddyCoalesce_spec hmem₁ (Nat.le_add_left numBuddyLevels _)
  refine ⟨a', v', ?_, hchain.valid h₁, .intro hput h₁ hchain hmem hend⟩
  have hallocated : ¬ (a.allBlocks i).isFree = true := by
    rw [allBlocks_isFree, h.marked i hi]
    simp
  rw [buddyFree, if_neg hallocated]
  exact heq

end Valid

/-! ## What a call does to the taken blocks -/

/-- The outcome of an allocation: nothing was taken, or the block in slot `i` was, marked as
allocated and of the given level. -/
inductive AllocOutcome (a a' : Allocator) (free free' : ℕ → List ℕ) (S S' : Set ℕ) (level : ℕ) :
    Option ℕ → Prop
  | fail (hsame : SameTaken a a' free free' S S') : AllocOutcome a a' free free' S S' level none
  | success (i : ℕ) (hfresh : i ∉ taken free S) (htaken : taken free' S' = insert i (taken free S))
      (htotal : a'.totalSize = a.totalSize) (hdata : ∀ x ∈ taken free S, a'.data x = a.data x)
      (hmarked : (a'.data i).isFree = false) (hlevel : (a'.data i).level = level) :
      AllocOutcome a a' free free' S S' level (some i)

theorem AllocOutcome.marked {a a' : Allocator} {free free' : ℕ → List ℕ} {S S' : Set ℕ} {level : ℕ}
    {result : Option ℕ} (h : AllocOutcome a a' free free' S S' level result)
    (hmarked : Marked a free S) : Marked a' free' S' := by
  cases h with
  | fail hsame => exact hsame.marked hmarked
  | success i hfresh htaken htotal hdata hi hlevel =>
      intro x hx
      rw [htaken] at hx
      rcases Set.mem_insert_iff.mp hx with rfl | hx
      · exact hi
      · rw [hdata x hx]
        exact hmarked x hx

section

variable {m : ℕ} {a a' : Allocator} {v v' : View} {i : ℕ}

/-- The block that is taken leaves its list. -/
theorem Take.mem_free_iff {l l' x : ℕ} (h : Take a a' v v' i l) (hvalid : Valid m a v)
    (hvalid' : Valid m a' v') : x ∈ v'.free l' ↔ x ∈ v.free l' ∧ x ≠ i := by
  rw [hvalid'.mem_free_iff, hvalid.mem_free_iff, h.blocks]
  by_cases hxi : x = i
  · subst hxi
    simp [h.self]
  · simp [h.other x hxi, hxi]

/-- The block that is put back joins the list of its level. -/
theorem Put.mem_free_iff {l x : ℕ} (h : Put a a' v v' i) (hvalid : Valid m a v)
    (hvalid' : Valid m a' v') : x ∈ v'.free l ↔ x = i ∧ (a.data i).level = l ∨ x ≠ i ∧ x ∈ v.free l := by
  rw [hvalid'.mem_free_iff, hvalid.mem_free_iff, h.blocks]
  by_cases hxi : x = i
  · subst hxi
    simp [h.self, h.mem.1]
  · simp [h.other x hxi, hxi]

/-- The block that is taken was free, and is the only one whose record changes. -/
theorem Take.outcome {l : ℕ} (h : Take a a' v v' i l) (hvalid : Valid m a v) (hvalid' : Valid m a' v') :
    AllocOutcome a a' v.free v'.free v.blocks v'.blocks l (some i) := by
  obtain ⟨hiS, hfree, hlevel⟩ := hvalid.mem_free_iff.mp h.mem
  have hnot : i ∉ taken v.free v.blocks := fun hT => hT.2 l h.mem
  refine .success i hnot ?_ h.totalSize (fun x hx => h.other x ?_) (by rw [h.self]) ?_
  · ext x
    rw [Set.mem_insert_iff, hvalid'.mem_taken_iff, hvalid.mem_taken_iff, h.blocks]
    by_cases hxi : x = i
    · subst hxi
      simp [h.self, hiS]
    · simp [h.other x hxi, hxi]
  · rintro rfl
    exact hnot hx
  · rw [h.self]
    exact hlevel

/-- The taken blocks but the one that is put back stay as they are. -/
theorem Put.taken_eq (h : Put a a' v v' i) (hvalid : Valid m a v) (hvalid' : Valid m a' v') :
    taken v'.free v'.blocks = taken v.free v.blocks \ {i} := by
  ext x
  rw [Set.mem_sdiff, Set.mem_singleton_iff, hvalid'.mem_taken_iff, hvalid.mem_taken_iff, h.blocks]
  by_cases hxi : x = i
  · subst hxi
    simp [h.self]
  · simp [h.other x hxi, hxi]

end

/-- A call of `buddy_alloc` takes at most one block, of the level computed for the request. -/
theorem AllocSteps.outcome {m size alignment : ℕ} {realloc : ℕ → Option Moved} {a a' : Allocator}
    {v v' : View} {result : Option ℕ} (h : AllocSteps m realloc size alignment a v result a' v')
    (hvalid : Valid m a v) (hvalid' : Valid m a' v') :
    AllocOutcome a a' v.free v'.free v.blocks v'.blocks (requestLevel size alignment) result := by
  cases h with
  | refused => exact .fail (.refl ..)
  | failed _ _ hfound => exact .fail hfound.sameTaken
  | taken _ _ hfound htake =>
      have hsame := hfound.sameTaken
      cases htake.outcome (hfound.valid hvalid) hvalid' with
      | success i hfresh htaken htotal hdata hfree hlevel =>
          rw [hsame.taken_eq] at hfresh htaken hdata
          refine .success _ hfresh htaken (htotal.trans hsame.totalSize) (fun x hx => ?_) hfree hlevel
          rw [hdata x hx, hsame.data_eq x hx]

/-- A call of `buddy_free` leaves the other taken blocks as they are. -/
theorem FreeSteps.taken_eq {m i : ℕ} {a a' : Allocator} {v v' : View} (h : FreeSteps m a v i a' v')
    (hvalid : Valid m a v) : a'.totalSize = a.totalSize ∧
      taken v'.free v'.blocks = taken v.free v.blocks \ {i} ∧
      ∀ x ∈ taken v.free v.blocks, x ≠ i → a'.data x = a.data x := by
  cases h with
  | intro hput hvalid₁ hchain =>
      have hsame := hchain.sameTaken
      have htaken := hput.taken_eq hvalid hvalid₁
      refine ⟨hsame.totalSize.trans hput.totalSize, hsame.taken_eq.trans htaken, fun x hx hxi => ?_⟩
      rw [hsame.data_eq x (htaken ▸ ⟨hx, hxi⟩), hput.other x hxi]

namespace Rep

variable {m : ℕ} {a : Allocator} {free : ℕ → List ℕ} {dead : List ℕ} {S : Set ℕ} {i : ℕ}

/-- `buddy_alloc` returns and keeps the invariant; it takes at most one block, of the level computed
for the request.  It fails only for a request beyond 64 MB, when the table cannot grow, or when there
is no free block of that level or a higher one. -/
theorem buddyAlloc_spec (h : Rep m a free dead S) (hmarked : Marked a free S)
    (realloc : ℕ → Option Moved) (size alignment : ℕ) :
    ∃ result a' free' dead' S', buddyAlloc a realloc size alignment = some (result, a') ∧
      Rep m a' free' dead' S' ∧
      AllocOutcome a a' free free' S S' (requestLevel size alignment) result ∧
      (result = none → (size > maxBlockSize ∨ alignment > maxBlockSize) ∨
        (∃ k, realloc k = none) ∨ ∀ l, requestLevel size alignment ≤ l → free l = []) := by
  have hvalid : Valid m a ⟨free, dead, S⟩ := ⟨h, hmarked⟩
  obtain ⟨result, a', v', heq, hvalid', hsteps⟩ := hvalid.buddyAlloc_steps realloc size alignment
  refine ⟨result, a', v'.free, v'.dead, v'.blocks, heq, hvalid'.rep, hsteps.outcome hvalid hvalid', ?_⟩
  rintro rfl
  cases hsteps with
  | refused hlarge => exact Or.inl hlarge
  | failed _ _ hfound =>
      cases hfound with
      | stuck _ _ _ _ _ _ hrealloc => exact Or.inr (Or.inl ⟨_, hrealloc⟩)
      | nothing hempty => exact Or.inr (Or.inr hempty)

/-- `buddy_free` of an allocated block returns, keeps the invariant, and gives back that block. -/
theorem buddyFree_spec (h : Rep m a free dead S) (hmarked : Marked a free S)
    (hi : i ∈ taken free S) :
    ∃ a' free' dead' S', buddyFree a i = some a' ∧ Rep m a' free' dead' S' ∧
      a'.totalSize = a.totalSize ∧ taken free' S' = taken free S \ {i} ∧
      (∀ x ∈ taken free S, x ≠ i → a'.data x = a.data x) := by
  have hvalid : Valid m a ⟨free, dead, S⟩ := ⟨h, hmarked⟩
  obtain ⟨a', v', heq, hvalid', hsteps⟩ := hvalid.buddyFree_steps hi
  exact ⟨a', v'.free, v'.dead, v'.blocks, heq, hvalid'.rep, hsteps.taken_eq hvalid⟩

end Rep

end LgxRuntime.GpuPool
