import LgxRuntime.GpuPool.BuddyInvariant

/-!
# The steps of the GPU pool's buddy allocator

Whatever `buddy_alloc` and `buddy_free` do to the table is one of four steps: a free block is split, two
free buddies are merged, a free block is taken, an allocated one is put back.  `Split`, `Merge`, `Take` and
`Put` say what a step changes; the ghost state that the invariant speaks of is bundled in a `View`.

The two loops are chains of steps.  `buddyFindFreeBlock_spec` and `buddyCoalesce_spec` give the chain
together with the reason why the loop has ended, so that a fact about a whole call follows by induction
on the chain from what one step does.
-/

namespace LgxRuntime.GpuPool

open Function (update update_self update_of_ne)
open FreeLists (taken mem_taken_prepend ne_pair_iff)
open Allocator

/-! ## Counters -/

variable (a : Allocator) (i : ℕ)

theorem unlink_counters : SameCounters a (unlink a i) := by
  unfold unlink
  cases (a.allBlocks i).prev with
  | none =>
      dsimp only
      split
      · exact ⟨rfl, rfl, rfl, rfl, rfl⟩
      · exact ⟨rfl, rfl, rfl, rfl, rfl⟩
  | some p =>
      dsimp only
      split
      · exact ⟨rfl, rfl, rfl, rfl, rfl⟩
      · exact ⟨rfl, rfl, rfl, rfl, rfl⟩

theorem pushFree_counters : SameCounters a (pushFree a i) := by
  unfold pushFree
  dsimp only
  split
  · exact ⟨rfl, rfl, rfl, rfl, rfl⟩
  · exact ⟨rfl, rfl, rfl, rfl, rfl⟩

theorem rebuildBlock_counters : SameCounters a (rebuildBlock a i) := by
  unfold rebuildBlock
  split
  · exact pushFree_counters a i
  · exact ⟨rfl, rfl, rfl, rfl, rfl⟩

theorem foldl_rebuildBlock_counters (slots : List ℕ) :
    SameCounters a (slots.foldl rebuildBlock a) := by
  induction slots generalizing a with
  | nil => exact .refl a
  | cons i slots ih => exact (rebuildBlock_counters a i).trans (ih (rebuildBlock a i))

theorem buddyRebuildFreeLists_counters : SameCounters a (buddyRebuildFreeLists a) := by
  have hloop := foldl_rebuildBlock_counters { a with freeLists := fun _ => none } (List.range a.numBlocks)
  exact ⟨hloop.totalSize, hloop.numBlocks, hloop.maxBlocks, hloop.deadBlocks, hloop.allocatedBytes⟩

theorem halve_counters (buddy : ℕ) : SameCounters a (halve a i buddy) :=
  ⟨rfl, rfl, rfl, rfl, rfl⟩

variable {a i}

/-- The table grows exactly when it is full and there is no dead slot; only its capacity changes. -/
theorem ensureCapacity_counters {a₁ : Allocator} {realloc : Option Moved}
    (h : ensureCapacity a realloc = some a₁) :
    SameCounters { a with maxBlocks :=
      if a.deadBlocks = none ∧ a.numBlocks ≥ a.maxBlocks then a.maxBlocks * 2 else a.maxBlocks } a₁ := by
  unfold ensureCapacity at h
  split at h
  · rename_i hfull
    cases realloc with
    | none => cases h
    | some moved =>
        cases h
        rw [if_pos hfull]
        have hsame := buddyRebuildFreeLists_counters (moveBlocks a moved (a.maxBlocks * 2))
        exact ⟨hsame.totalSize, hsame.numBlocks, hsame.maxBlocks, hsame.deadBlocks, hsame.allocatedBytes⟩
  · rename_i hfull
    cases h
    rw [if_neg hfull]
    exact .refl a

theorem ensureCapacity_eq_none {realloc : Option Moved} :
    ensureCapacity a realloc = none ↔
      (a.deadBlocks = none ∧ a.numBlocks ≥ a.maxBlocks) ∧ realloc = none := by
  unfold ensureCapacity
  split
  · rename_i hfull
    cases realloc with
    | none => simp [hfull]
    | some moved => simp
  · rename_i hfull
    simp [hfull]

/-! ## Views -/

/-- The ghost state of an allocator: what the lists and the stack of dead slots hold, and the slots with
a block. -/
structure View where
  free : ℕ → List ℕ
  dead : List ℕ
  blocks : Set ℕ

/-- The allocator is as the view says, and its taken blocks are marked as allocated. -/
structure Valid (m : ℕ) (a : Allocator) (v : View) : Prop where
  rep : Rep m a v.free v.dead v.blocks
  marked : Marked a v.free v.blocks

/-- The number of splits that the table has room for. -/
def spare (a : Allocator) (v : View) : ℕ :=
  a.maxBlocks - a.numBlocks + v.dead.length

namespace Valid

variable {m l x : ℕ} {v v' : View}

/-- The blocks on the list of a level are those that are marked free and have this level. -/
theorem mem_free_iff (h : Valid m a v) :
    x ∈ v.free l ↔ x ∈ v.blocks ∧ (a.data x).isFree = true ∧ (a.data x).level = l := by
  constructor
  · exact h.rep.free_mem l x
  · rintro ⟨hx, hfree, rfl⟩
    by_contra hnot
    have htaken : x ∈ taken v.free v.blocks := by
      refine ⟨hx, fun l hl => hnot ?_⟩
      rwa [(h.rep.free_mem l x hl).2.2]
    rw [h.marked x htaken] at hfree
    exact Bool.noConfusion hfree

/-- The taken blocks are those that are marked as allocated. -/
theorem mem_taken_iff (h : Valid m a v) :
    x ∈ taken v.free v.blocks ↔ x ∈ v.blocks ∧ (a.data x).isFree = false := by
  constructor
  · exact fun hx => ⟨hx.1, h.marked x hx⟩
  · rintro ⟨hx, hallocated⟩
    refine ⟨hx, fun l hl => ?_⟩
    rw [(h.rep.free_mem l x hl).2.1] at hallocated
    exact Bool.noConfusion hallocated

theorem nodup (h : Valid m a v) (l : ℕ) : (v.free l).Nodup :=
  h.rep.family.nodup l

/-- The tables of an allocator determine the view. -/
theorem unique {m' : ℕ} (h : Valid m a v) (h' : Valid m' a v') : v' = v := by
  have hfree : v'.free = v.free :=
    funext fun l => (h'.rep.family.linked l).linked.unique (h.rep.family.linked l).linked
  have hdead : v'.dead = v.dead := h'.rep.deadLinked.unique h.rep.deadLinked
  have hblocks : v'.blocks = v.blocks := by
    ext x
    have hslots := h.rep.slots x
    have hslots' := h'.rep.slots x
    rw [hdead] at hslots'
    constructor
    · intro hx
      exact (hslots.mp (hslots'.mpr (Or.inl hx))).resolve_right (hdead ▸ h'.rep.not_dead hx)
    · intro hx
      exact (hslots'.mp (hslots.mpr (Or.inl hx))).resolve_right (h.rep.not_dead hx)
  cases v
  cases v'
  simp_all

/-- The stack of dead slots is empty exactly when its head is `NULL`. -/
theorem dead_eq_nil_iff (h : Valid m a v) : v.dead = [] ↔ a.deadBlocks = none := by
  rw [h.rep.deadLinked.head_eq]
  exact List.head?_eq_none_iff.symm

theorem spare_eq_zero_iff (h : Valid m a v) :
    spare a v = 0 ↔ a.deadBlocks = none ∧ a.numBlocks ≥ a.maxBlocks := by
  rw [← h.dead_eq_nil_iff, ← List.length_eq_zero_iff, spare]
  omega

end Valid

/-! ## Splitting -/

/-- A split: the free block in slot `i`, of level `k + 1`, becomes its lower half, and the upper half goes
into slot `j`.  The table grows if it is full and there is no dead slot. -/
structure Split (a a' : Allocator) (v v' : View) (k i j : ℕ) : Prop where
  mem : i ∈ v.free (k + 1)
  fresh : j ∉ v.blocks
  blocks : v'.blocks = insert j v.blocks
  low : a'.data i = { a.data i with level := k, size := levelToSize k }
  high : a'.data j = ⟨none, none, (a.data i).offset + levelToSize k, levelToSize k, true, k⟩
  other : ∀ x ∈ v.blocks, x ≠ i → a'.data x = a.data x
  sameTaken : SameTaken a a' v.free v'.free v.blocks v'.blocks
  allocatedBytes : a'.allocatedBytes = a.allocatedBytes
  slot : v.dead = j :: v'.dead ∧ a'.numBlocks = a.numBlocks ∨
    v.dead = [] ∧ v'.dead = [] ∧ a'.numBlocks = a.numBlocks + 1
  maxBlocks : a'.maxBlocks = if spare a v = 0 then a.maxBlocks * 2 else a.maxBlocks

/-- Where the slot of `takeSlot` comes from. -/
theorem NewSlot.slot_cases {dead dead' : List ℕ} {S : Set ℕ} (hdead : Linked a.next a.deadBlocks dead)
    (h : NewSlot a (takeSlot a).2 dead dead' S (takeSlot a).1) :
    dead = (takeSlot a).1 :: dead' ∧ (takeSlot a).2.numBlocks = a.numBlocks ∨
      dead = [] ∧ dead' = [] ∧ (takeSlot a).2.numBlocks = a.numBlocks + 1 := by
  have hlinked := h.deadLinked
  cases dead with
  | nil =>
      rw [Linked.nil_iff] at hdead
      have hslot : takeSlot a = (a.numBlocks, { a with numBlocks := a.numBlocks + 1 }) := by
        simp [takeSlot, hdead]
      rw [hslot] at hlinked ⊢
      exact Or.inr ⟨rfl, hlinked.unique (Linked.nil_iff.mpr hdead), rfl⟩
  | cons j t =>
      have hslot : takeSlot a = (j, { a with deadBlocks := a.next j }) := by
        simp [takeSlot, hdead.1, Allocator.next]
      rw [hslot] at hlinked ⊢
      rw [hlinked.unique hdead.2]
      exact Or.inl ⟨rfl, rfl⟩

namespace Rep

variable {m : ℕ} {free : ℕ → List ℕ} {dead : List ℕ} {S : Set ℕ}

/-- The second half of `buddy_split`, from the unlinked block on. -/
theorem splitUnlinked {k : ℕ} (h : Rep m a free dead S) (hi : i ∈ taken free S)
    (hlevel : (a.data i).level = k + 1) (hfree : (a.data i).isFree = true)
    (hroom : a.deadBlocks = none → a.numBlocks < a.maxBlocks) :
    ∃ free' dead', NewSlot a (takeSlot a).2 dead dead' S (takeSlot a).1 ∧
      let j := (takeSlot a).1
      let a' := GpuPool.addHalves (GpuPool.halve (takeSlot a).2 i j) i j
      Rep m a' free' dead' (insert j S) ∧ taken free' (insert j S) = taken free S \ {i} ∧
        a'.data = update (update a.data i { a.data i with level := k, size := levelToSize k }) j
          ⟨none, none, (a.data i).offset + levelToSize k, levelToSize k, true, k⟩ ∧
        SameCounters (takeSlot a).2 a' := by
  obtain ⟨dead', hslot⟩ := h.takeSlot_spec hroom
  generalize takeSlot a = slot at hslot ⊢
  obtain ⟨j, a₁⟩ := slot
  replace hslot : NewSlot a a₁ dead dead' S j := hslot
  have hij : i ≠ j := fun heq => hslot.not_mem (heq ▸ hi.1)
  have hdata₁ := hslot.data_eq
  obtain ⟨hdata, -, -, -⟩ := halve_spec a₁ hij (k := k) (by rw [hdata₁, hlevel])
  have hrep := h.halve hi hlevel hslot
  have hjS : j ∈ insert j S := Set.mem_insert _ _
  have hiT : i ∈ taken free (insert j S) := ⟨Set.mem_insert_of_mem _ hi.1, hi.2⟩
  have hjT : j ∈ taken free (insert j S) :=
    ⟨hjS, fun l hl => hslot.not_mem (h.free_mem l j hl).1⟩
  obtain ⟨hrep', hdata', -⟩ := hrep.addHalves hiT hjT hij (k := k)
    (by rw [hdata, update_of_ne hij, update_self])
    (by rw [hdata, update_self])
    (by rw [hdata, update_of_ne hij, update_self, hdata₁]; exact hfree)
    (by rw [hdata, update_self])
  refine ⟨_, dead', hslot, hrep', ?_, ?_, (halve_counters a₁ i j).trans (addHalves_counters _ i j)⟩
  · ext x
    rw [show i :: j :: free k = [i, j] ++ free k from rfl, mem_taken_prepend]
    simp only [List.mem_cons, List.not_mem_nil, or_false, not_or, Set.mem_sdiff,
      Set.mem_singleton_iff]
    constructor
    · rintro ⟨⟨hxS, hxf⟩, hxi, hxj⟩
      exact ⟨⟨(Set.mem_insert_iff.mp hxS).resolve_left hxj, hxf⟩, hxi⟩
    · rintro ⟨⟨hxS, hxf⟩, hxi⟩
      exact ⟨⟨Set.mem_insert_of_mem _ hxS, hxf⟩, hxi, fun heq => hslot.not_mem (heq ▸ hxS)⟩
  · rw [hdata', hdata, hdata₁]

end Rep

namespace Valid

variable {m k : ℕ} {v : View}

/-- `buddy_split` of a free block fails and changes nothing when the table is full and cannot grow;
otherwise it is a split. -/
theorem buddySplit_spec (h : Valid m a v) (hi : i ∈ v.free (k + 1)) (realloc : Option Moved) :
    buddySplit a realloc i = (none, a) ∧ realloc = none ∧ spare a v = 0 ∨
      ∃ a' v' j, buddySplit a realloc i = (some i, a') ∧ Valid m a' v' ∧ Split a a' v v' k i j ∧
        (0 < spare a v ∨ realloc.isSome) := by
  obtain ⟨hiS, hfree, hlevel⟩ := h.rep.free_mem _ i hi
  have hpos : ¬ (a.allBlocks i).level = 0 := by
    rw [allBlocks_level, hlevel]
    omega
  have hrealloc : ensureCapacity a realloc ≠ none → 0 < spare a v ∨ realloc.isSome := by
    intro hne
    rw [Ne, ensureCapacity_eq_none, ← h.spare_eq_zero_iff] at hne
    by_cases hspare : spare a v = 0
    · exact Or.inr (Option.isSome_iff_ne_none.mpr fun hnone => hne ⟨hspare, hnone⟩)
    · exact Or.inl (Nat.pos_of_ne_zero hspare)
  unfold buddySplit
  rw [if_neg hpos]
  rcases h.rep.ensureCapacity_spec h.marked realloc with ⟨hnone, hfail⟩ |
      ⟨a₁, free₁, hsome, h₁, -, hmem₁, hdata₁, hroom⟩
  · rw [hnone]
    exact Or.inl ⟨rfl, hfail, h.spare_eq_zero_iff.mpr (ensureCapacity_eq_none.mp hnone).1⟩
  · right
    have hcounters₁ := ensureCapacity_counters hsome
    have hgrown := hrealloc (by rw [hsome]; exact Option.some_ne_none a₁)
    rw [hsome]
    simp only
    have hi₁ : i ∈ free₁ (k + 1) := (hmem₁ _ _).mpr hi
    have htaken₁ : taken free₁ v.blocks = taken v.free v.blocks := by
      ext x
      simp only [taken, Set.mem_ofPred_eq, hmem₁]
    have htaken₂ := h₁.taken_unlink hi₁
    obtain ⟨-, -, -, hdata₂, -⟩ := unlink_spec (h₁.family.prev_ne_self hi₁)
    have hcounters₂ := unlink_counters a₁ i
    obtain ⟨-, hfree₁, hlevel₁⟩ := h₁.free_mem _ i hi₁
    have hrep₂ := h₁.unlink hi₁
    obtain ⟨free', dead', hslot, hrep, htaken, hdata, hcounters⟩ :=
      hrep₂.splitUnlinked (k := k) (htaken₂ ▸ Set.mem_insert _ _)
        (by rw [hdata₂, hlevel₁]) (by rw [hdata₂, hfree₁]) (fun hnone => by
          rw [hcounters₂.deadBlocks] at hnone
          rw [hcounters₂.numBlocks, hcounters₂.maxBlocks]
          exact hroom hnone)
    have hcases := hslot.slot_cases hrep₂.deadLinked
    have hmax : (takeSlot (GpuPool.unlink a₁ i)).2.maxBlocks = (GpuPool.unlink a₁ i).maxBlocks := by
      unfold takeSlot
      split <;> rfl
    have hbytes : (takeSlot (GpuPool.unlink a₁ i)).2.allocatedBytes =
        (GpuPool.unlink a₁ i).allocatedBytes := by
      unfold takeSlot
      split <;> rfl
    rw [hcounters₂.numBlocks, hcounters₁.numBlocks] at hcases
    rw [hcounters₂.maxBlocks, hcounters₁.maxBlocks] at hmax
    rw [hcounters₂.allocatedBytes, hcounters₁.allocatedBytes] at hbytes
    generalize takeSlot (GpuPool.unlink a₁ i) = slot at *
    obtain ⟨j, a₃⟩ := slot
    dsimp only at *
    have hij : i ≠ j := fun hij => hslot.not_mem (hij ▸ hiS)
    have hnot : i ∉ taken v.free v.blocks := fun hT => hT.2 _ hi
    have hold : ∀ x ∈ v.blocks, (GpuPool.unlink a₁ i).data x = a.data x := by
      intro x hx
      rw [hdata₂, hdata₁ x hx]
    rw [hold i hiS] at hdata
    have hother : ∀ x ∈ v.blocks, x ≠ i →
        (GpuPool.addHalves (GpuPool.halve a₃ i j) i j).data x = a.data x := by
      intro x hx hxi
      have hxj : x ≠ j := fun hxj => hslot.not_mem (hxj ▸ hx)
      rw [hdata, update_of_ne hxj, update_of_ne hxi, hold x hx]
    have hsame : SameTaken a (GpuPool.addHalves (GpuPool.halve a₃ i j) i j) v.free free' v.blocks
        (insert j v.blocks) := by
      refine ⟨?_, ?_, fun x hx => hother x hx.1 fun hxi => hnot (hxi ▸ hx)⟩
      · rw [hcounters.totalSize, hslot.totalSize, hcounters₂.totalSize, hcounters₁.totalSize]
      · rw [htaken, htaken₂, htaken₁, Set.insert_sdiff_of_mem _ (Set.mem_singleton i)]
        exact Set.sdiff_singleton_eq_self hnot
    refine ⟨_, ⟨free', dead', insert j v.blocks⟩, j, rfl, ⟨hrep, hsame.marked h.marked⟩, ?_, hgrown⟩
    refine ⟨hi, hslot.not_mem, rfl, ?_, ?_, hother, hsame, ?_, ?_, ?_⟩
    · rw [hdata, update_of_ne hij, update_self]
    · rw [hdata, update_self]
    · rw [hcounters.allocatedBytes, hbytes]
    · rw [hcounters.numBlocks]
      exact hcases
    · rw [hcounters.maxBlocks, hmax]
      exact if_congr h.spare_eq_zero_iff.symm rfl rfl

end Valid

/-! ## Merging -/

/-- The records after a merge. -/
theorem merge_spec {k : ℕ} (a : Allocator) {lower upper : ℕ} (hne : lower ≠ upper)
    (hlevel : (a.data lower).level = k) :
    (merge a lower upper).data =
        update (update a.data lower { a.data lower with level := k + 1, size := levelToSize (k + 1) })
          upper { a.data upper with isFree := false } ∧
      (merge a lower upper).next = update a.next upper a.deadBlocks ∧
      (∀ x, x ≠ upper → (merge a lower upper).prev x = a.prev x) := by
  have hlevel' : (a.allBlocks lower).level = k := hlevel
  unfold merge
  simp only [hlevel']
  refine ⟨?_, ?_, fun x hx => ?_⟩
  · funext x
    by_cases hxu : x = upper
    · subst hxu
      simp [data, update_of_ne hne.symm]
    · by_cases hxl : x = lower
      · subst hxl
        simp [data, update_of_ne hxu]
      · simp [data, update_of_ne hxu, update_of_ne hxl]
  · funext x
    by_cases hxu : x = upper
    · subst hxu
      simp [next]
    · by_cases hxl : x = lower
      · subst hxl
        simp [next, update_of_ne hxu]
      · simp [next, update_of_ne hxu, update_of_ne hxl]
  · by_cases hxl : x = lower
    · subst hxl
      simp [prev, update_of_ne hx]
    · simp [prev, update_of_ne hx, update_of_ne hxl]

namespace Rep

variable {m : ℕ} {free : ℕ → List ℕ} {dead : List ℕ} {S : Set ℕ}

/-- Two taken buddies of level `k` become one block of level `k + 1`, and the slot of the upper one is
pushed on the stack of dead slots. -/
theorem merge {lo hi k : ℕ} (h : Rep m a free dead S) (hlo : lo ∈ taken free S)
    (hhi : hi ∈ taken free S) (hlevelLo : (a.data lo).level = k) (hlevelHi : (a.data hi).level = k)
    (hoffset : (a.data hi).offset = (a.data lo).offset + levelToSize k)
    (hdvd : 2 * levelToSize k ∣ (a.data lo).offset) :
    Rep m (GpuPool.merge a lo hi) free (hi :: dead) (S \ {hi}) := by
  have hpos := levelToSize_pos k
  have hne : lo ≠ hi := by
    rintro rfl
    omega
  obtain ⟨hdata, hnext, hprev⟩ := merge_spec a hne hlevelLo
  have hlow : (GpuPool.merge a lo hi).data lo =
      { a.data lo with level := k + 1, size := levelToSize (k + 1) } := by
    rw [hdata, update_of_ne hne, update_self]
  have hhigh : (GpuPool.merge a lo hi).data hi = { a.data hi with isFree := false } := by
    rw [hdata, update_self]
  have hother : ∀ x, x ≠ lo → x ≠ hi → (GpuPool.merge a lo hi).data x = a.data x := by
    intro x hxl hxh
    rw [hdata, update_of_ne hxh, update_of_ne hxl]
  have hfreeNe : ∀ l, ∀ x ∈ free l, x ≠ lo ∧ x ≠ hi := fun l x hx =>
    ⟨fun heq => hlo.2 l (heq ▸ hx), fun heq => hhi.2 l (heq ▸ hx)⟩
  have hk : k + 1 ≤ m := by
    by_contra hlt
    have hinside := h.tiling.inside hi hhi.1
    have hsize := levelToSize_le (show m ≤ k by omega)
    simp only [hoffset, hlevelHi] at hinside
    omega
  constructor
  · exact h.level_lt
  · refine h.family.congr (fun l x hx => ?_) fun l x hx => hprev x (hfreeNe l x hx).2
    rw [hnext, update_of_ne (hfreeNe l x hx).2]
  · intro l x hx
    rw [hother x (hfreeNe l x hx).1 (hfreeNe l x hx).2]
    exact ⟨⟨(h.free_mem l x hx).1, (hfreeNe l x hx).2⟩, (h.free_mem l x hx).2⟩
  · refine ⟨rfl, ?_⟩
    rw [hnext, update_self]
    refine h.deadLinked.congr fun x hx => update_of_ne ?_ _ _
    rintro rfl
    exact h.not_dead hhi.1 hx
  · intro x hx
    rcases List.mem_cons.mp hx with rfl | hx
    · rw [hhigh]
      exact ⟨fun hmem => hmem.2 rfl, rfl⟩
    · obtain ⟨hxS, hfree⟩ := h.dead_mem x hx
      rw [hother x (fun heq => hxS (heq ▸ hlo.1)) fun heq => hxS (heq ▸ hhi.1)]
      exact ⟨fun hmem => hxS hmem.1, hfree⟩
  · intro x
    show x < a.numBlocks ↔ _
    rw [h.slots, List.mem_cons, Set.mem_sdiff, Set.mem_singleton_iff]
    constructor
    · rintro (hx | hx)
      · by_cases hxh : x = hi
        · exact Or.inr (Or.inl hxh)
        · exact Or.inl ⟨hx, hxh⟩
      · exact Or.inr (Or.inr hx)
    · rintro (hx | rfl | hx)
      · exact Or.inl hx.1
      · exact Or.inl hhi.1
      · exact Or.inr hx
  · exact h.capacity
  · rintro x ⟨hx, hxh⟩
    by_cases hxl : x = lo
    · rw [hxl, hlow]
      exact hk
    · rw [hother x hxl hxh]
      exact h.level_le x hx
  · rintro x ⟨hx, hxh⟩
    by_cases hxl : x = lo
    · rw [hxl, hlow]
      exact Or.inl ⟨by omega, rfl⟩
    · rw [hother x hxl hxh]
      exact h.size_eq x hx
  · refine h.tiling.merge hlo.1 hhi.1 hne ?_ (by rw [hlevelLo, hlevelHi]) (by rwa [hlevelLo])
      (fun x hx hxh => ?_) ?_ fun x hx hxl hxh => by rw [hother x hxl hxh]
    · simp only [hoffset, hlevelLo]
    · by_cases hxl : x = lo
      · rw [hxl, hlow]
      · rw [hother x hxl hxh]
    · simp only [hlow, hlevelLo, levelToSize_succ]

/-- Two taken buddies that are marked free become one block on the list of the next level. -/
theorem absorb {lo hi k : ℕ} (h : Rep m a free dead S) (hlo : lo ∈ taken free S)
    (hhi : hi ∈ taken free S) (hlevelLo : (a.data lo).level = k) (hlevelHi : (a.data hi).level = k)
    (hfree : (a.data lo).isFree = true)
    (hoffset : (a.data hi).offset = (a.data lo).offset + levelToSize k)
    (hdvd : 2 * levelToSize k ∣ (a.data lo).offset) :
    ∃ free', Rep m (GpuPool.absorb a lo hi) free' (hi :: dead) (S \ {hi}) ∧
      (∀ x, x ∈ taken free' (S \ {hi}) ↔ x ∈ taken free S ∧ x ≠ lo ∧ x ≠ hi) ∧
      (GpuPool.absorb a lo hi).data lo =
        { a.data lo with level := k + 1, size := levelToSize (k + 1) } ∧
      ∀ x, x ≠ lo → x ≠ hi → (GpuPool.absorb a lo hi).data x = a.data x := by
  have hpos := levelToSize_pos k
  have hne : lo ≠ hi := by
    rintro rfl
    omega
  have hrep := h.merge hlo hhi hlevelLo hlevelHi hoffset hdvd
  obtain ⟨hdata, -, -⟩ := merge_spec a hne hlevelLo
  have hlow : (GpuPool.merge a lo hi).data lo =
      { a.data lo with level := k + 1, size := levelToSize (k + 1) } := by
    rw [hdata, update_of_ne hne, update_self]
  have hloT : lo ∈ taken free (S \ {hi}) := ⟨⟨hlo.1, hne⟩, hlo.2⟩
  obtain ⟨-, -, -, hdata', -⟩ := pushFree_spec (GpuPool.merge a lo hi) lo
  have hpush := hrep.pushFree (l := k + 1) hloT (by rw [hlow]; exact hfree) (by rw [hlow])
  refine ⟨_, hpush.of_eq rfl rfl ⟨rfl, rfl, le_rfl, rfl⟩, fun x => ?_, ?_, fun x hxl hxh => ?_⟩
  · rw [show lo :: free (k + 1) = [lo] ++ free (k + 1) from rfl, mem_taken_prepend]
    simp only [taken, Set.mem_ofPred_eq, List.mem_singleton, Set.mem_sdiff, Set.mem_singleton_iff]
    tauto
  · show (GpuPool.pushFree (GpuPool.merge a lo hi) lo).data lo = _
    rw [hdata', hlow]
  · show (GpuPool.pushFree (GpuPool.merge a lo hi) lo).data x = _
    rw [hdata', hdata, update_of_ne hxh, update_of_ne hxl]

/-- One of two buddies is the lower half of an aligned block of twice the size. -/
theorem lower_half {block buddy k : ℕ} (h : Rep m a free dead S) (hblock : block ∈ S)
    (hlevel : (a.data block).level = k)
    (hoffset : (a.data buddy).offset = (a.data block).offset ^^^ levelToSize k) :
    ((a.data buddy).offset = (a.data block).offset + levelToSize k ∧
        2 * levelToSize k ∣ (a.data block).offset) ∨
      ((a.data block).offset = (a.data buddy).offset + levelToSize k ∧
        2 * levelToSize k ∣ (a.data buddy).offset) := by
  have hpow : levelToSize k = 2 ^ (8 + k) := by rw [levelToSize_eq, Nat.pow_add]
  have halign := h.tiling.aligned block hblock
  rw [hlevel, hpow] at halign
  rw [hpow] at hoffset ⊢
  rcases xor_two_pow_cases halign with ⟨hdvd, hxor⟩ | ⟨hge, hxor, hdvd⟩
  · exact Or.inl ⟨hoffset.trans hxor, hdvd⟩
  · right
    rw [hoffset, hxor]
    exact ⟨by omega, hdvd⟩

end Rep

theorem findBuddy_some {block buddy : ℕ} (hfound : findBuddy a block = some buddy) :
    buddy < a.numBlocks ∧
      (a.data buddy).offset = (a.data block).offset ^^^ levelToSize (a.data block).level ∧
      (a.data buddy).level = (a.data block).level ∧ (a.data buddy).isFree = true := by
  have hlt := List.mem_of_find?_eq_some hfound
  have htest := List.find?_some hfound
  simp only [Bool.and_eq_true, beq_iff_eq] at htest
  exact ⟨List.mem_range.mp hlt, htest.1.1, htest.1.2, htest.2⟩

/-- A merge: the free buddies in the slots `lo` and `hi`, of level `k`, become one block in slot `lo`, and
slot `hi` goes on the stack of dead slots. -/
structure Merge (a a' : Allocator) (v v' : View) (k lo hi : ℕ) : Prop where
  mem_lo : lo ∈ v.free k
  mem_hi : hi ∈ v.free k
  offset : (a.data hi).offset = (a.data lo).offset + levelToSize k
  blocks : v'.blocks = v.blocks \ {hi}
  dead : v'.dead = hi :: v.dead
  low : a'.data lo = { a.data lo with level := k + 1, size := levelToSize (k + 1) }
  other : ∀ x ∈ v.blocks, x ≠ lo → x ≠ hi → a'.data x = a.data x
  sameTaken : SameTaken a a' v.free v'.free v.blocks v'.blocks
  numBlocks : a'.numBlocks = a.numBlocks
  maxBlocks : a'.maxBlocks = a.maxBlocks
  allocatedBytes : a'.allocatedBytes = a.allocatedBytes

theorem absorb_counters (lower upper : ℕ) :
    SameCounters { a with deadBlocks := some upper } (absorb a lower upper) := by
  have hpush := pushFree_counters (merge a lower upper) lower
  exact ⟨hpush.totalSize, hpush.numBlocks, hpush.maxBlocks, hpush.deadBlocks, hpush.allocatedBytes⟩

namespace Valid

variable {m k : ℕ} {v : View}

/-- Two free blocks of one level leave their list, and the lower one absorbs the other. -/
theorem absorbFree {block buddy lo hi : ℕ} (h : Valid m a v) (hblock : block ∈ v.free k)
    (hbuddy : buddy ∈ v.free k) (hne : buddy ≠ block)
    (hpair : lo = block ∧ hi = buddy ∨ lo = buddy ∧ hi = block)
    (hoffset : (a.data hi).offset = (a.data lo).offset + levelToSize k)
    (hdvd : 2 * levelToSize k ∣ (a.data lo).offset) :
    let a' := absorb (unlink (unlink a block) buddy) lo hi
    ∃ v', Valid m a' v' ∧ Merge a a' v v' k lo hi := by
  have hother : ∀ x ∈ taken v.free v.blocks, x ≠ block ∧ x ≠ buddy := by
    refine fun x hx => ⟨?_, ?_⟩
    · rintro rfl
      exact hx.2 k hblock
    · rintro rfl
      exact hx.2 k hbuddy
  -- Both leave the list.
  have hrep := h.rep
  have h₁ := hrep.unlink hblock
  obtain ⟨-, -, -, hdata₁, -⟩ := unlink_spec (hrep.family.prev_ne_self hblock)
  have htaken₁ := hrep.taken_unlink hblock
  have hbuddy₁ : buddy ∈ update v.free k ((v.free k).erase block) k := by
    rw [update_self, (h.nodup k).mem_erase_iff]
    exact ⟨hne, hbuddy⟩
  have h₂ := h₁.unlink hbuddy₁
  obtain ⟨-, -, -, hdata₂, -⟩ := unlink_spec (h₁.family.prev_ne_self hbuddy₁)
  have htaken₂ := h₁.taken_unlink hbuddy₁
  have hdata := hdata₂.trans hdata₁
  have hcounters : SameCounters { a with deadBlocks := some hi }
      (absorb (unlink (unlink a block) buddy) lo hi) := by
    have hunlinked := (unlink_counters a block).trans (unlink_counters (unlink a block) buddy)
    have habsorb := absorb_counters (a := unlink (unlink a block) buddy) lo hi
    exact ⟨habsorb.totalSize.trans hunlinked.totalSize, habsorb.numBlocks.trans hunlinked.numBlocks,
      habsorb.maxBlocks.trans hunlinked.maxBlocks, habsorb.deadBlocks,
      habsorb.allocatedBytes.trans hunlinked.allocatedBytes⟩
  have hmem : ∀ x, x = block ∨ x = buddy → x ∈ v.free k ∧
      x ∈ taken (update (update v.free k ((v.free k).erase block)) k
        ((update v.free k ((v.free k).erase block) k).erase buddy)) v.blocks := by
    rintro x (rfl | rfl)
    · rw [htaken₂, htaken₁]
      exact ⟨hblock, Or.inr (Or.inl rfl)⟩
    · rw [htaken₂, htaken₁]
      exact ⟨hbuddy, Or.inl rfl⟩
  obtain ⟨hlo, hloT⟩ := hmem lo (hpair.imp And.left And.left)
  obtain ⟨hhi, hhiT⟩ := hmem hi (hpair.symm.imp And.right And.right)
  obtain ⟨hloS, hloFree, hloLevel⟩ := hrep.free_mem k lo hlo
  obtain ⟨-, -, hhiLevel⟩ := hrep.free_mem k hi hhi
  obtain ⟨free', hrep', htaken', hlow, hkeep⟩ := h₂.absorb hloT hhiT (by rw [hdata, hloLevel])
    (by rw [hdata, hhiLevel]) (by rw [hdata, hloFree]) (by rw [hdata, hoffset]) (by rwa [hdata])
  rw [hdata] at hlow hkeep
  have hsame : SameTaken a (absorb (unlink (unlink a block) buddy) lo hi) v.free free' v.blocks
      (v.blocks \ {hi}) := by
    refine ⟨hcounters.totalSize, ?_, fun x hx => ?_⟩
    · ext x
      rw [htaken', ne_pair_iff hpair, htaken₂, htaken₁, Set.mem_insert_iff, Set.mem_insert_iff]
      constructor
      · intro hx
        exact (hx.1.resolve_left hx.2.2).resolve_left hx.2.1
      · exact fun hx => ⟨Or.inr (Or.inr hx), hother x hx⟩
    · obtain ⟨hxlo, hxhi⟩ := (ne_pair_iff hpair).mpr (hother x hx)
      exact hkeep x hxlo hxhi
  exact ⟨⟨free', hi :: v.dead, v.blocks \ {hi}⟩, ⟨hrep', hsame.marked h.marked⟩, hlo, hhi, hoffset, rfl,
    rfl, hlow, fun x _ => hkeep x, hsame, hcounters.numBlocks, hcounters.maxBlocks,
    hcounters.allocatedBytes⟩

/-- One round of coalescing merges the two blocks. -/
theorem mergeBuddies_spec {block buddy : ℕ} (h : Valid m a v) (hblock : block ∈ v.free k)
    (hbuddy : buddy ∈ v.free k)
    (hoffset : (a.data buddy).offset = (a.data block).offset ^^^ levelToSize k) :
    ∃ lo hi a' v', mergeBuddies a block buddy = (lo, a') ∧ Valid m a' v' ∧ Merge a a' v v' k lo hi ∧
      (lo = block ∧ hi = buddy ∨ lo = buddy ∧ hi = block) := by
  obtain ⟨hblockS, -, hblockLevel⟩ := h.rep.free_mem k block hblock
  have hpos := levelToSize_pos k
  have hcases := h.rep.lower_half hblockS hblockLevel hoffset
  have hne : buddy ≠ block := by
    rintro rfl
    omega
  have hdata : (unlink (unlink a block) buddy).data = a.data := by
    have hbuddy₁ : buddy ∈ update v.free k ((v.free k).erase block) k := by
      rw [update_self, (h.nodup k).mem_erase_iff]
      exact ⟨hne, hbuddy⟩
    obtain ⟨-, -, -, hdata₁, -⟩ := unlink_spec (h.rep.family.prev_ne_self hblock)
    obtain ⟨-, -, -, hdata₂, -⟩ := unlink_spec ((h.rep.unlink hblock).family.prev_ne_self hbuddy₁)
    exact hdata₂.trans hdata₁
  unfold mergeBuddies
  simp only [allBlocks_offset, hdata]
  rcases hcases with ⟨hoff, hdvd⟩ | ⟨hoff, hdvd⟩
  · rw [if_neg (by omega)]
    obtain ⟨v', hvalid, hmerge⟩ := h.absorbFree hblock hbuddy hne (Or.inl ⟨rfl, rfl⟩) hoff hdvd
    exact ⟨_, _, _, v', rfl, hvalid, hmerge, Or.inl ⟨rfl, rfl⟩⟩
  · rw [if_pos (by omega)]
    obtain ⟨v', hvalid, hmerge⟩ := h.absorbFree hblock hbuddy hne (Or.inr ⟨rfl, rfl⟩) hoff hdvd
    exact ⟨_, _, _, v', rfl, hvalid, hmerge, Or.inr ⟨rfl, rfl⟩⟩

end Valid

/-! ## The loops -/

/-- The block in slot `i` is split from level `n` down to level `n'`, and the lower half is kept each time.
A split needs room in the table or a `realloc` that succeeds. -/
inductive SplitChain (m : ℕ) (realloc : ℕ → Option Moved) (i : ℕ) :
    Allocator → View → ℕ → Allocator → View → ℕ → Prop
  | refl (a : Allocator) (v : View) (n : ℕ) : SplitChain m realloc i a v n a v n
  | step {a a₁ a' : Allocator} {v v₁ v' : View} {k n' j : ℕ} (hsplit : Split a a₁ v v₁ k i j)
      (hroom : 0 < spare a v ∨ (realloc (k + 1)).isSome) (hvalid : Valid m a₁ v₁)
      (htail : SplitChain m realloc i a₁ v₁ k a' v' n') : SplitChain m realloc i a v (k + 1) a' v' n'

/-- How the search for a block of a level ends: with a block, which may have been split off from the
smallest one that is large enough; with a table that is full and cannot grow; or without any block. -/
inductive Found (m : ℕ) (realloc : ℕ → Option Moved) (level : ℕ) (a : Allocator) (v : View) :
    Option ℕ → Allocator → View → Prop
  | found {l i : ℕ} {a' : Allocator} {v' : View} (hle : level ≤ l)
      (hbelow : ∀ j, level ≤ j → j < l → v.free j = []) (hmem : i ∈ v.free l)
      (hchain : SplitChain m realloc i a v l a' v' level) : Found m realloc level a v (some i) a' v'
  | stuck {l k i : ℕ} {a' : Allocator} {v' : View} (hle : level ≤ k) (hlt : k < l)
      (hbelow : ∀ j, level ≤ j → j < l → v.free j = []) (hmem : i ∈ v.free l)
      (hchain : SplitChain m realloc i a v l a' v' (k + 1)) (hspare : spare a' v' = 0)
      (hrealloc : realloc (k + 1) = none) : Found m realloc level a v none a' v'
  | nothing (hempty : ∀ j, level ≤ j → v.free j = []) : Found m realloc level a v none a v

/-- The block in slot `i` is merged again and again, and ends up in slot `i'`. -/
inductive MergeChain (m : ℕ) : Allocator → View → ℕ → Allocator → View → ℕ → Prop
  | refl (a : Allocator) (v : View) (i : ℕ) : MergeChain m a v i a v i
  | step {a a₁ a' : Allocator} {v v₁ v' : View} {k lo hi i i' : ℕ} (hmerge : Merge a a₁ v v₁ k lo hi)
      (hself : i = lo ∨ i = hi) (hvalid : Valid m a₁ v₁) (htail : MergeChain m a₁ v₁ lo a' v' i') :
      MergeChain m a v i a' v' i'

section Chains

variable {m n n' i' level : ℕ} {a' : Allocator} {v v' : View} {realloc : ℕ → Option Moved}

/-- What the lists hold after a split. -/
theorem Split.mem_free_iff {k j l x : ℕ} (h : Split a a' v v' k i j) (hvalid : Valid m a v)
    (hvalid' : Valid m a' v') :
    x ∈ v'.free l ↔ (x = i ∨ x = j) ∧ l = k ∨ x ≠ i ∧ x ∈ v.free l := by
  obtain ⟨hi, hfree, -⟩ := hvalid.mem_free_iff.mp h.mem
  have hij : i ≠ j := fun hij => h.fresh (hij ▸ hi)
  rw [hvalid'.mem_free_iff, hvalid.mem_free_iff, h.blocks, Set.mem_insert_iff]
  by_cases hxi : x = i
  · subst hxi
    simp [h.low, hi, hfree, @eq_comm ℕ l]
  · by_cases hxj : x = j
    · subst hxj
      simp [h.high, h.fresh, @eq_comm ℕ l]
    · by_cases hx : x ∈ v.blocks
      · simp [hxi, hxj, hx, h.other x hx hxi]
      · simp [hxi, hxj, hx]

/-- The block is on the list of the next lower level after the split. -/
theorem Split.mem_free {k j : ℕ} (h : Split a a' v v' k i j) (hvalid : Valid m a v)
    (hvalid' : Valid m a' v') : i ∈ v'.free k :=
  (h.mem_free_iff hvalid hvalid').mpr (Or.inl ⟨Or.inl rfl, rfl⟩)

theorem Merge.ne {k lo hi : ℕ} (h : Merge a a' v v' k lo hi) : lo ≠ hi := by
  rintro rfl
  have hpos := levelToSize_pos k
  have := h.offset
  omega

/-- What the lists hold after a merge. -/
theorem Merge.mem_free_iff {k lo hi l x : ℕ} (h : Merge a a' v v' k lo hi) (hvalid : Valid m a v)
    (hvalid' : Valid m a' v') :
    x ∈ v'.free l ↔ x = lo ∧ l = k + 1 ∨ (x ≠ lo ∧ x ≠ hi) ∧ x ∈ v.free l := by
  obtain ⟨hlo, hfree, -⟩ := hvalid.mem_free_iff.mp h.mem_lo
  rw [hvalid'.mem_free_iff, hvalid.mem_free_iff, h.blocks, Set.mem_sdiff, Set.mem_singleton_iff]
  by_cases hxl : x = lo
  · subst hxl
    simp [h.low, hlo, h.ne, hfree, @eq_comm ℕ l]
  · by_cases hx : x ∈ v.blocks
    · by_cases hxh : x = hi
      · simp [hxh, h.ne.symm]
      · simp [hxl, hxh, hx, h.other x hx hxl hxh]
    · simp [hxl, hx]

/-- The merged block is on the list of the next level. -/
theorem Merge.mem_free {k lo hi : ℕ} (h : Merge a a' v v' k lo hi) (hvalid : Valid m a v)
    (hvalid' : Valid m a' v') : lo ∈ v'.free (k + 1) :=
  (h.mem_free_iff hvalid hvalid').mpr (Or.inl ⟨rfl, rfl⟩)

theorem SplitChain.valid (h : SplitChain m realloc i a v n a' v' n') (hvalid : Valid m a v) :
    Valid m a' v' := by
  induction h with
  | refl => exact hvalid
  | step _ _ hvalid₁ _ ih => exact ih hvalid₁

theorem SplitChain.mem_free (h : SplitChain m realloc i a v n a' v' n') (hvalid : Valid m a v)
    (hmem : i ∈ v.free n) : i ∈ v'.free n' := by
  induction h with
  | refl => exact hmem
  | step hsplit _ hvalid₁ _ ih => exact ih hvalid₁ (hsplit.mem_free hvalid hvalid₁)

theorem SplitChain.sameTaken (h : SplitChain m realloc i a v n a' v' n') :
    SameTaken a a' v.free v'.free v.blocks v'.blocks := by
  induction h with
  | refl => exact .refl ..
  | step hsplit _ _ _ ih => exact hsplit.sameTaken.trans ih

theorem SplitChain.allocatedBytes (h : SplitChain m realloc i a v n a' v' n') :
    a'.allocatedBytes = a.allocatedBytes := by
  induction h with
  | refl => rfl
  | step hsplit _ _ _ ih => exact ih.trans hsplit.allocatedBytes

theorem MergeChain.valid (h : MergeChain m a v i a' v' i') (hvalid : Valid m a v) : Valid m a' v' := by
  induction h with
  | refl => exact hvalid
  | step _ _ hvalid₁ _ ih => exact ih hvalid₁

theorem MergeChain.sameTaken (h : MergeChain m a v i a' v' i') :
    SameTaken a a' v.free v'.free v.blocks v'.blocks := by
  induction h with
  | refl => exact .refl ..
  | step hmerge _ _ _ ih => exact hmerge.sameTaken.trans ih

theorem MergeChain.allocatedBytes (h : MergeChain m a v i a' v' i') :
    a'.allocatedBytes = a.allocatedBytes := by
  induction h with
  | refl => rfl
  | step hmerge _ _ _ ih => exact ih.trans hmerge.allocatedBytes

theorem Found.valid {result : Option ℕ} (h : Found m realloc level a v result a' v') (hvalid : Valid m a v) :
    Valid m a' v' := by
  cases h with
  | found _ _ _ hchain => exact hchain.valid hvalid
  | stuck _ _ _ _ hchain => exact hchain.valid hvalid
  | nothing => exact hvalid

theorem Found.sameTaken {result : Option ℕ} (h : Found m realloc level a v result a' v') :
    SameTaken a a' v.free v'.free v.blocks v'.blocks := by
  cases h with
  | found _ _ _ hchain => exact hchain.sameTaken
  | stuck _ _ _ _ hchain => exact hchain.sameTaken
  | nothing => exact .refl ..

theorem Found.allocatedBytes {result : Option ℕ} (h : Found m realloc level a v result a' v') :
    a'.allocatedBytes = a.allocatedBytes := by
  cases h with
  | found _ _ _ hchain => exact hchain.allocatedBytes
  | stuck _ _ _ _ hchain => exact hchain.allocatedBytes
  | nothing => rfl

theorem Found.mem_free (h : Found m realloc level a v (some i) a' v') (hvalid : Valid m a v) :
    i ∈ v'.free level := by
  cases h with
  | found _ _ hmem hchain => exact hchain.mem_free hvalid hmem

end Chains

namespace Valid

variable {m l level : ℕ} {v : View}

/-- There are no blocks above the level of the initial block. -/
theorem le_of_mem_free (h : Valid m a v) (hi : i ∈ v.free l) : l ≤ m := by
  obtain ⟨hiS, -, hlevel⟩ := h.rep.free_mem l i hi
  exact hlevel ▸ h.rep.level_le i hiS

theorem free_eq_nil_iff (h : Valid m a v) : v.free l = [] ↔ a.freeLists l = none := by
  rw [(h.rep.family.linked l).head_eq]
  exact List.head?_eq_none_iff.symm

/-- The loop that splits a block down to the level. -/
theorem splitDown_spec {fuel n : ℕ} (realloc : ℕ → Option Moved) (h : Valid m a v) (hi : i ∈ v.free n)
    (hle : level ≤ n) (hfuel : n < level + fuel) :
    ∃ result a' v', splitDown realloc level fuel a (some i) = some (result, a') ∧
      (result = some i ∧ SplitChain m realloc i a v n a' v' level ∨
        result = none ∧ ∃ k, level ≤ k ∧ k < n ∧ SplitChain m realloc i a v n a' v' (k + 1) ∧
          spare a' v' = 0 ∧ realloc (k + 1) = none) := by
  induction fuel generalizing n a v with
  | zero => omega
  | succ fuel ih =>
      have hlevel := (h.rep.free_mem n i hi).2.2
      rw [splitDown, allBlocks_level, hlevel]
      by_cases hlt : n > level
      · rw [if_pos hlt]
        obtain ⟨k, rfl⟩ : ∃ k, n = k + 1 := ⟨n - 1, by omega⟩
        rcases h.buddySplit_spec hi (realloc (k + 1)) with ⟨hfail, hrealloc, hspare⟩ |
          ⟨a₁, v₁, j, heq, h₁, hsplit, hroom⟩
        · rw [hfail]
          obtain ⟨fuel, rfl⟩ : ∃ fuel', fuel = fuel' + 1 := ⟨fuel - 1, by omega⟩
          exact ⟨none, a, v, rfl, Or.inr ⟨rfl, k, by omega, by omega, .refl .., hspare, hrealloc⟩⟩
        · rw [heq]
          obtain ⟨result, a', v', heq', hout⟩ :=
            ih h₁ (hsplit.mem_free h h₁) (by omega) (by omega)
          refine ⟨result, a', v', heq', ?_⟩
          rcases hout with ⟨hresult, hchain⟩ | ⟨hresult, k', hle', hlt', hchain, hend⟩
          · exact Or.inl ⟨hresult, .step hsplit hroom h₁ hchain⟩
          · exact Or.inr ⟨hresult, k', hle', by omega, .step hsplit hroom h₁ hchain, hend⟩
      · rw [if_neg hlt]
        obtain rfl : n = level := by omega
        exact ⟨some i, a, v, rfl, Or.inl ⟨rfl, .refl ..⟩⟩

/-- `buddy_find_free_block` returns, and its search ends in one of the three ways. -/
theorem buddyFindFreeBlock_spec (h : Valid m a v) (realloc : ℕ → Option Moved) (level : ℕ) :
    ∃ result a' v', buddyFindFreeBlock a realloc level = some (result, a') ∧
      Found m realloc level a v result a' v' := by
  unfold buddyFindFreeBlock
  cases hhead : a.freeLists level with
  | some block =>
      exact ⟨some block, a, v, rfl, .found le_rfl (fun j hj hlt => by omega)
        (h.rep.family.mem_of_head hhead) (.refl ..)⟩
  | none =>
      simp only
      cases hfound : findNonemptySlot (fun i => a.freeLists (level + 1 + i))
        (numBuddyLevels - (level + 1)) with
      | none =>
          refine ⟨none, a, v, rfl, .nothing fun j hj => ?_⟩
          rcases Nat.lt_or_eq_of_le hj with hlt | rfl
          · by_cases htop : j < numBuddyLevels
            · have hempty := List.find?_eq_none.mp hfound (j - (level + 1))
                (List.mem_range.mpr (by omega))
              simp only [show level + 1 + (j - (level + 1)) = j by omega] at hempty
              exact h.free_eq_nil_iff.mpr (by simpa using hempty)
            · refine List.eq_nil_iff_forall_not_mem.mpr fun x hx => htop ?_
              exact (h.le_of_mem_free hx).trans_lt h.rep.level_lt
          · exact h.free_eq_nil_iff.mpr hhead
      | some foundIdx =>
          obtain ⟨hsome, -, hfirst⟩ := List.find?_range_eq_some.mp hfound
          obtain ⟨block, hblock⟩ := Option.isSome_iff_exists.mp hsome
          simp only [hblock]
          have hmem := h.rep.family.mem_of_head hblock
          have hle := h.le_of_mem_free hmem
          have hlt := h.rep.level_lt
          have hbelow : ∀ j, level ≤ j → j < level + 1 + foundIdx → v.free j = [] := by
            intro j hj hjlt
            rcases Nat.lt_or_eq_of_le hj with hjl | rfl
            · have hempty := hfirst (j - (level + 1)) (by omega)
              simp only [show level + 1 + (j - (level + 1)) = j by omega] at hempty
              exact h.free_eq_nil_iff.mpr (by simpa using hempty)
            · exact h.free_eq_nil_iff.mpr hhead
          have hlevel : level ≤ level + 1 + foundIdx := by omega
          have hfuel : level + 1 + foundIdx < level + (numBuddyLevels + 1) := by omega
          obtain ⟨result, a', v', heq, hout⟩ := h.splitDown_spec realloc hmem hlevel hfuel
          refine ⟨result, a', v', heq, ?_⟩
          rcases hout with ⟨rfl, hchain⟩ | ⟨rfl, k, hk, hkl, hchain, hspare, hrealloc⟩
          · exact .found (by omega) hbelow hmem hchain
          · exact .stuck hk hkl hbelow hmem hchain hspare hrealloc

/-- `buddy_coalesce` ends: with a block of the largest level, or with one that has no free buddy. -/
theorem buddyCoalesce_spec {block k fuel : ℕ} (h : Valid m a v) (hblock : block ∈ v.free k)
    (hfuel : numBuddyLevels ≤ k + fuel) :
    ∃ a' v' merged k', buddyCoalesce fuel a block = some a' ∧ MergeChain m a v block a' v' merged ∧
      merged ∈ v'.free k' ∧ (k' ≥ numBuddyLevels - 1 ∨ findBuddy a' merged = none) := by
  induction fuel generalizing a v block k with
  | zero =>
      have := h.le_of_mem_free hblock
      have := h.rep.level_lt
      omega
  | succ fuel ih =>
      have hlevel := (h.rep.free_mem k block hblock).2.2
      rw [buddyCoalesce, allBlocks_level, hlevel]
      split
      · rename_i htop
        exact ⟨a, v, block, k, rfl, .refl .., hblock, Or.inl htop⟩
      cases hfound : findBuddy a block with
      | none => exact ⟨a, v, block, k, rfl, .refl .., hblock, Or.inr hfound⟩
      | some buddy =>
          obtain ⟨hlt, hoffset, hbuddyLevel, hbuddyFree⟩ := findBuddy_some hfound
          rw [hlevel] at hoffset hbuddyLevel
          have hbuddyS : buddy ∈ v.blocks := by
            refine ((h.rep.slots buddy).mp hlt).resolve_right fun hdead => ?_
            rw [(h.rep.dead_mem buddy hdead).2] at hbuddyFree
            exact Bool.noConfusion hbuddyFree
          have hbuddy : buddy ∈ v.free k := h.mem_free_iff.mpr ⟨hbuddyS, hbuddyFree, hbuddyLevel⟩
          obtain ⟨lo, hi, a₁, v₁, heq, h₁, hmerge, hpair⟩ := h.mergeBuddies_spec hblock hbuddy hoffset
          obtain ⟨a', v', merged, k', heq', hchain, hend⟩ :=
            ih h₁ (hmerge.mem_free h h₁) (by omega)
          refine ⟨a', v', merged, k', ?_, .step hmerge ?_ h₁ hchain, hend⟩
          · simp only [heq]
            exact heq'
          · rcases hpair with ⟨rfl, -⟩ | ⟨-, rfl⟩
            · exact Or.inl rfl
            · exact Or.inr rfl

end Valid

end LgxRuntime.GpuPool
