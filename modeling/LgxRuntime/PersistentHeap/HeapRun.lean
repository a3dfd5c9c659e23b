import LgxRuntime.PersistentHeap.HeapInvariant

/-!
# Runs of the persistent heap

A run starts with `lgx_persistent_heap_init` and goes on with calls of `lgx_heap_alloc`, calls of
`lgx_heap_free` on live pointers, and writes of the clients into their own allocations.  Whether a new
slab can be had, and where, is up to the system.  Every reachable state satisfies `HeapRep`.
-/

namespace LgxRuntime.PersistentHeap

open Function (update update_self update_of_ne)

theorem wrap64_le_of_takeBlock {b : Buddy} {order block size q : ℕ}
    (h : (takeBlock b order block size).1 = some q) : wrap64 (q + size) ≤ b.memory + b.totalSize := by
  unfold takeBlock at h
  simp only at h
  split at h
  · simp at h
  · rename_i hrange
    obtain rfl := Option.some.inj h
    exact Nat.not_lt.mp fun hlt => hrange (Or.inr hlt)

/-- The range check of `buddy_alloc`. -/
theorem Rep.wrap64_le_of_buddyAlloc {b : Buddy} {free : ℕ → List ℕ} {S : Set ℕ} {size q : ℕ}
    (hrep : Rep b free S) (h : (buddyAlloc b size).1 = some q) :
    wrap64 (q + size) ≤ b.memory + buddyPoolSize := by
  have hmemory := buddySplit_memory b (sizeToOrder (size + buddyHeaderSize))
  revert h
  fun_cases buddyAlloc b size with
  | case4 =>
      intro h
      rw [← hrep.pool]
      exact wrap64_le_of_takeBlock h
  | case6 _ _ _ _ _ block b' heq =>
      intro h
      rcases hrep.buddySplit_spec (k := sizeToOrder (size + buddyHeaderSize)) with ⟨heq', -⟩ |
        ⟨_, b'', _, _, heq', hsplit⟩
      · rw [heq] at heq'
        simp at heq'
      · rw [heq] at heq' hmemory
        obtain rfl : b' = b'' := (Prod.mk.inj heq').2
        rw [← hmemory, ← hsplit.rep.pool]
        exact wrap64_le_of_takeBlock h
  | _ => simp

namespace HeapRep

variable {h : Heap} {live large : List (ℕ × ℕ)} {slots free : ℕ → List ℕ} {S : Set ℕ} {c : ℕ}

/-! ## Changing one part of the heap -/

/-- One size class is replaced.  Its cells may change, and with it the live pointers of that class. -/
theorem setClass (hrep : HeapRep h live large slots free S) {s : ClassState} {slots' : List ℕ}
    {slabMemory : Option ℕ} {live' : List (ℕ × ℕ)} (hpos : 0 < c) (hc : c < numSizeClasses)
    (hclass : ClassRep (classToSize c) s slots')
    (hlocated : Located (h.sizeClasses c).slabs s.allocator.slabs slabMemory)
    (hfresh : ∀ m, slabMemory = some m → FreshMemory h m)
    (hcells : ∀ x ∉ leftSlots s.allocator.slabs, s.cells x = h.cells x)
    (hnodup : (live'.map Prod.fst).Nodup)
    (hother : ∀ p n, sizeToClass (n + headerSize) ≠ c → ((p, n) ∈ live' ↔ (p, n) ∈ live))
    (htaken : ∀ a, a ∈ takenSlots s slots' ↔
      ∃ n, (a + headerSize, n) ∈ live' ∧ sizeToClass (n + headerSize) = c)
    (hheader : ∀ p n, (p, n) ∈ live' → sizeToClass (n + headerSize) = c →
      ∃ a, p = a + headerSize ∧ s.cells a = allocationHeader n c) :
    HeapRep (h.setClassState c s) live' large (update slots c slots') free S := by
  have hself := h.setClassState_sizeClasses_self c s
  have hsame := fun c' (hne : c' ≠ c) => h.setClassState_sizeClasses_of_ne s hne
  have hlayout := hrep.layout.setClassState hpos hc hclass.slabs hlocated hfresh
  have hleft : ∀ c' < numSizeClasses, c' ≠ c → ∀ x ∈ leftSlots (h.sizeClasses c').slabs,
      s.cells x = h.cells x := by
    intro c' hc' hne x hx
    refine hcells x fun hmem => hne ?_
    refine hlayout.class_unique hc' hc ?_ (hself ▸ hmem)
    rw [hsame c' hne]
    exact hx
  refine ⟨hlayout, fun c' hc' => ?_, fun c' hc' a => ?_, hrep.buddy, fun q m => ?_, hrep.large_le,
    hnodup, fun p n hlive => ?_⟩
  · by_cases hcc : c' = c
    · subst hcc
      rw [update_self]
      exact hclass.congr (by rw [Heap.classState, hself, hclass.objectSize_eq])
        (by rw [Heap.classState, hself]) (by rw [Heap.classState, hself]) fun _ _ => rfl
    · rw [update_of_ne hcc]
      refine (hrep.classes c' hc').congr ?_ ?_ ?_ fun x hx => ?_
      · rw [Heap.classState, hsame c' hcc]
        exact (hrep.classes c' hc').objectSize_eq
      · rw [Heap.classState, hsame c' hcc, Heap.classState]
      · rw [Heap.classState, hsame c' hcc, Heap.classState]
      · exact hleft c' hc' hcc x ((hrep.classes c' hc').free_mem x hx)
  · by_cases hcc : c' = c
    · subst hcc
      rw [update_self, ← htaken a, takenSlots, takenSlots, Heap.classState, hself]
    · have hold := hrep.taken_iff c' hc' a
      rw [update_of_ne hcc, takenSlots, Heap.classState, hsame c' hcc]
      refine hold.trans (exists_congr fun n => and_congr_left fun hclass' => ?_)
      exact (hother _ n (hclass'.symm ▸ hcc)).symm
  · refine (hrep.large_iff q m).trans (exists_congr fun n => and_congr_right fun _ => ?_)
    refine and_congr_left fun hbig => (hother _ n ?_).symm
    omega
  · by_cases hcc : sizeToClass (n + headerSize) = c
    · obtain ⟨a, rfl, hcell⟩ := hheader p n hlive hcc
      refine ⟨a, rfl, hcell.trans ?_⟩
      rw [headerClass, hcc, if_pos hc]
    · have hlive' := (hother p n hcc).mp hlive
      obtain ⟨a, rfl, hcell⟩ := hrep.header p n hlive'
      refine ⟨a, rfl, Eq.trans ?_ hcell⟩
      by_cases hsmall : sizeToClass (n + headerSize) < numSizeClasses
      · exact hleft _ hsmall hcc a (hrep.small_mem hlive' hsmall).1
      · -- a header in the pool is not in a slab of class `c`
        refine hcells a fun hmem => ?_
        obtain ⟨-, block, -, hptr, hle, hend⟩ := hrep.large_mem hlive' (Nat.not_lt.mp hsmall)
        have hout := hlayout.slot_outsidePool hc (hself ▸ hmem)
        have hroom := headerSize_le_classToSize hpos
        simp only [OutsidePool, headerSize, buddyHeaderSize] at hout hroom hptr hend
        have hmemory : (h.setClassState c s).buddy.memory = h.buddy.memory := rfl
        omega

/-- The buddy allocator is replaced.  The cells of its pool may change, and with it the live pointers
of large requests. -/
theorem setBuddy (hrep : HeapRep h live large slots free S) {b : Buddy} {cells : ℕ → Cell}
    {live' large' : List (ℕ × ℕ)} {free' : ℕ → List ℕ} {S' : Set ℕ} (hbuddy : Owned b large' free' S')
    (hmemory : b.memory = h.buddy.memory)
    (hcells : ∀ x, OutsidePool h.buddy x headerSize → cells x = h.cells x)
    (hnodup : (live'.map Prod.fst).Nodup)
    (hsmall : ∀ p n, sizeToClass (n + headerSize) < numSizeClasses →
      ((p, n) ∈ live' ↔ (p, n) ∈ live))
    (hlarge : ∀ q m, (q, m) ∈ large' ↔ ∃ n, m = n + headerSize ∧ (q + headerSize, n) ∈ live' ∧
      numSizeClasses ≤ sizeToClass (n + headerSize))
    (hle : ∀ q m, (q, m) ∈ large' → q + m ≤ h.buddy.memory + buddyPoolSize)
    (hheader : ∀ p n, (p, n) ∈ live' → numSizeClasses ≤ sizeToClass (n + headerSize) →
      ∃ a, p = a + headerSize ∧ cells a = allocationHeader n (-1)) :
    HeapRep { h with buddy := b, cells := cells } live' large' slots free' S' := by
  have hslot : ∀ c < numSizeClasses, ∀ x ∈ leftSlots (h.sizeClasses c).slabs,
      cells x = h.cells x := by
    intro c hc x hx
    refine hcells x ?_
    have hout := hrep.layout.slot_outsidePool hc hx
    have hroom := headerSize_le_classToSize (hrep.layout.pos_of_leftSlots hx)
    unfold OutsidePool at hout ⊢
    omega
  obtain ⟨huser, hslabs, hzero, hapart, hpool⟩ := hrep.layout
  refine ⟨⟨hmemory ▸ huser, hslabs, hzero, hapart, ?_⟩, fun c hc => ?_, fun c hc a => ?_, hbuddy,
    hlarge, hmemory ▸ hle, hnodup, fun p n hlive => ?_⟩
  · intro c hc slab hslab
    rw [OutsidePool, hmemory]
    exact hpool c hc slab hslab
  · exact (hrep.classes c hc).congr (hrep.classes c hc).objectSize_eq rfl rfl fun x hx =>
      hslot c hc x ((hrep.classes c hc).free_mem x hx)
  · refine (hrep.taken_iff c hc a).trans (exists_congr fun n => and_congr_left fun hclass => ?_)
    exact (hsmall _ n (hclass ▸ hc)).symm
  · by_cases hclass : sizeToClass (n + headerSize) < numSizeClasses
    · have hlive' := (hsmall p n hclass).mp hlive
      obtain ⟨a, rfl, hcell⟩ := hrep.header p n hlive'
      exact ⟨a, rfl, (hslot _ hclass a (hrep.small_mem hlive' hclass).1).trans hcell⟩
    · obtain ⟨a, rfl, hcell⟩ := hheader p n hlive (Nat.not_lt.mp hclass)
      refine ⟨a, rfl, hcell.trans ?_⟩
      rw [headerClass, if_neg hclass]

/-! ## Allocation -/

/-- A slot that leaves the bitmaps or the free list of a class is behind no live pointer. -/
theorem fresh_slot (hrep : HeapRep h live large slots free S) {s : ClassState} {a : ℕ}
    (hlayout : Layout (h.setClassState c s)) (hc : c < numSizeClasses)
    (ha : a ∈ leftSlots s.allocator.slabs)
    (hnot : a ∉ takenSlots (h.classState c) (slots c)) : a + headerSize ∉ live.map Prod.fst := by
  have hself := h.setClassState_sizeClasses_self c s
  intro hmem
  obtain ⟨⟨p, n⟩, hlive, heq⟩ := List.mem_map.mp hmem
  obtain rfl : p = a + headerSize := heq
  by_cases hsmall : sizeToClass (n + headerSize) < numSizeClasses
  · have hslot := hrep.small_mem hlive hsmall
    by_cases hcc : sizeToClass (n + headerSize) = c
    · exact hnot (hcc ▸ hslot)
    · refine hcc (hlayout.class_unique hsmall hc ?_ (hself ▸ ha))
      rw [h.setClassState_sizeClasses_of_ne s hcc]
      exact hslot.1
  · obtain ⟨-, block, -, hptr, hle, hend⟩ := hrep.large_mem hlive (Nat.not_lt.mp hsmall)
    have hout := hlayout.slot_outsidePool hc (hself ▸ ha)
    have hroom := headerSize_le_classToSize (hlayout.pos_of_leftSlots (hself ▸ ha))
    have hmemory : (h.setClassState c s).buddy.memory = h.buddy.memory := rfl
    simp only [OutsidePool, headerSize, buddyHeaderSize] at hout hroom hptr hend
    omega

/-- The segregated-fit path, when it finds nothing. -/
theorem allocSmall_none (hrep : HeapRep h live large slots free S) {s : ClassState}
    {slots' : List ℕ} {slabMemory : Option ℕ} (hpos : 0 < c) (hc : c < numSizeClasses)
    (halloc : ClassAlloc (classToSize c) slabMemory (h.classState c) (slots c) none s slots')
    (hfresh : ∀ m, slabMemory = some m → FreshMemory h m) :
    HeapRep (h.setClassState c s) live large (update slots c slots') free S := by
  have htaken := halloc.taken_none rfl
  refine hrep.setClass hpos hc halloc.rep halloc.located hfresh
    (fun x hx => halloc.cells_eq x fun hmem => hx (halloc.rep.free_mem x hmem)) hrep.nodup
    (fun _ _ _ => Iff.rfl) (fun a => htaken ▸ hrep.taken_iff c hc a) fun p n hlive hclass => ?_
  obtain ⟨a, rfl, hcell⟩ := hrep.header p n hlive
  have hslot : a ∈ takenSlots s slots' := htaken ▸ (hrep.taken_iff c hc a).mpr ⟨n, hlive, hclass⟩
  refine ⟨a, rfl, (halloc.cells_eq a hslot.2).trans (hcell.trans ?_)⟩
  rw [headerClass, hclass, if_pos hc]

/-- The segregated-fit path, when it takes the slot `ptr`, and the header that is written there. -/
theorem allocSmall_some (hrep : HeapRep h live large slots free S) {s s' : ClassState}
    {slots' : List ℕ} {slabMemory : Option ℕ} {ptr size : ℕ} (hpos : 0 < c) (hc : c < numSizeClasses)
    (halloc : ClassAlloc (classToSize c) slabMemory (h.classState c) (slots c) (some ptr) s slots')
    (hfresh : ∀ m, slabMemory = some m → FreshMemory h m) (hsize : sizeToClass (size + headerSize) = c)
    (hslabs : s'.allocator.slabs = s.allocator.slabs)
    (hlist : s'.allocator.freeList = s.allocator.freeList)
    (hobject : s'.allocator.objectSize = s.allocator.objectSize)
    (hcells : s'.cells = update s.cells ptr (allocationHeader size c)) :
    HeapRep (h.setClassState c s') ((ptr + headerSize, size) :: live) large (update slots c slots')
      free S := by
  obtain ⟨hnot, htaken⟩ := halloc.taken_some ptr rfl
  have hnew : ptr ∈ takenSlots s slots' := by
    rw [htaken]
    exact Set.mem_insert _ _
  have hoff : ∀ x ≠ ptr, x ∉ slots' → s'.cells x = h.cells x := by
    intro x hne hx
    rw [hcells, update_of_ne hne]
    exact halloc.cells_eq x hx
  have hlocated : Located (h.sizeClasses c).slabs s'.allocator.slabs slabMemory :=
    hslabs ▸ halloc.located
  have hlayout := hrep.layout.setClassState hpos hc (hslabs ▸ halloc.rep.slabs) hlocated hfresh
  refine hrep.setClass hpos hc ?_ hlocated hfresh ?_ ?_ ?_ ?_ ?_
  · refine halloc.rep.congr (hobject.trans halloc.rep.objectSize_eq) hslabs hlist fun x hx => ?_
    rw [hcells, update_of_ne]
    rintro rfl
    exact hnew.2 hx
  · intro x hx
    rw [hslabs] at hx
    refine hoff x ?_ fun hmem => hx (halloc.rep.free_mem x hmem)
    rintro rfl
    exact hx hnew.1
  · refine List.nodup_cons.mpr ⟨?_, hrep.nodup⟩
    exact hrep.fresh_slot hlayout hc (hslabs ▸ hnew.1) hnot
  · intro p n hclass
    rw [List.mem_cons]
    refine ⟨fun hmem => hmem.resolve_left fun heq => hclass ?_, Or.inr⟩
    rw [(Prod.mk.inj heq).2, hsize]
  · intro a
    have hiff : a ∈ takenSlots s' slots' ↔ a = ptr ∨ a ∈ takenSlots (h.classState c) (slots c) := by
      have hsame : takenSlots s' slots' = takenSlots s slots' := by rw [takenSlots, hslabs, takenSlots]
      rw [hsame, htaken, Set.mem_insert_iff]
    rw [hiff, hrep.taken_iff c hc a]
    constructor
    · rintro (rfl | ⟨n, hlive, hclass⟩)
      · exact ⟨size, List.mem_cons_self .., hsize⟩
      · exact ⟨n, List.mem_cons_of_mem _ hlive, hclass⟩
    · rintro ⟨n, hlive, hclass⟩
      rcases List.mem_cons.mp hlive with heq | hlive
      · exact Or.inl (by simpa using (Prod.mk.inj heq).1)
      · exact Or.inr ⟨n, hlive, hclass⟩
  · intro p n hlive hclass
    rcases List.mem_cons.mp hlive with heq | hlive
    · obtain ⟨rfl, rfl⟩ := Prod.mk.inj heq
      exact ⟨ptr, rfl, by rw [hcells, update_self]⟩
    · obtain ⟨a, rfl, hcell⟩ := hrep.header p n hlive
      have hslot := (hrep.taken_iff c hc a).mpr ⟨n, hlive, hclass⟩
      have hslot' : a ∈ takenSlots s slots' := by
        rw [htaken]
        exact Set.mem_insert_of_mem _ hslot
      refine ⟨a, rfl, (hoff a (fun heq => hnot (heq ▸ hslot)) hslot'.2).trans (hcell.trans ?_)⟩
      rw [headerClass, hclass, if_pos hc]

/-- What the buddy allocator hands out ends inside its pool. -/
theorem buddyAlloc_end (hrep : HeapRep h live large slots free S) {size q : ℕ}
    (hsize : size ≤ 2 ^ 35) (hresult : (buddyAlloc h.buddy size).1 = some q) :
    q + size ≤ h.buddy.memory + buddyPoolSize := by
  obtain ⟨free', S', hrep', hout⟩ := hrep.buddy.rep.buddyAlloc_spec size
  have hwrap := hrep.buddy.rep.wrap64_le_of_buddyAlloc hresult
  rw [hresult] at hout
  have huser := hrep.layout.userSpace
  cases hout with
  | success a hfresh htaken hblock hheader =>
      have ha : a ∈ S' := by
        have hmem : a ∈ FreeLists.taken free' S' := htaken ▸ Set.mem_insert _ _
        exact hmem.1
      have hend := hrep'.block_le_pool ha
      rw [hrep'.pool, buddyAlloc_memory] at hend
      simp only [buddyPoolSize, userSpace] at hwrap hend huser ⊢
      rw [wrap64_of_lt (by unfold buddyHeaderSize; omega)] at hwrap
      exact hwrap

/-- The path of large requests. -/
theorem allocLarge (hrep : HeapRep h live large slots free S) {size : ℕ}
    (hsize : size ≤ maxHeapSize) (hbig : numSizeClasses ≤ sizeToClass (size + headerSize)) :
    let outcome := buddyAlloc h.buddy (size + headerSize)
    (outcome.1 = none → ∃ free' S',
      HeapRep { h with buddy := outcome.2 } live large slots free' S') ∧
    ∀ q, outcome.1 = some q → ∃ free' S',
      HeapRep { h with buddy := outcome.2, cells := update h.cells q (allocationHeader size (-1)) }
        ((q + headerSize, size) :: live) ((q, size + headerSize) :: large) slots free' S' := by
  intro outcome
  obtain ⟨free', S', howned⟩ := hrep.buddy.alloc (size + headerSize)
  have hmemory : outcome.2.memory = h.buddy.memory := buddyAlloc_memory _ _
  have hsize' : size + headerSize ≤ 2 ^ 35 := by
    simp only [maxHeapSize, headerSize] at hsize ⊢
    omega
  have hold : ∀ p n, (p, n) ∈ live → numSizeClasses ≤ sizeToClass (n + headerSize) →
      ∃ a, p = a + headerSize ∧ h.cells a = allocationHeader n (-1) := by
    intro p n hlive hclass
    obtain ⟨a, rfl, hcell⟩ := hrep.header p n hlive
    refine ⟨a, rfl, hcell.trans ?_⟩
    rw [headerClass, if_neg (Nat.not_lt.mpr hclass)]
  constructor
  · intro hnone
    have howned' : Owned outcome.2 large free' S' := by
      have hgrant : grant outcome.1 (size + headerSize) large = large := by rw [hnone, grant]
      exact hgrant ▸ howned
    exact ⟨free', S', hrep.setBuddy howned' hmemory (fun _ _ => rfl) hrep.nodup
      (fun _ _ _ => Iff.rfl) hrep.large_iff hrep.large_le hold⟩
  · intro q hsome
    have howned' : Owned outcome.2 ((q, size + headerSize) :: large) free' S' := by
      have hgrant : grant outcome.1 (size + headerSize) large = (q, size + headerSize) :: large := by
        rw [hsome, grant]
      exact hgrant ▸ howned
    have hend := hrep.buddyAlloc_end hsize' hsome
    obtain ⟨block, hblock, hptr, -⟩ := howned'.of_live _ _ (List.mem_cons_self ..)
    have hle := howned'.rep.memory_le block hblock.1
    rw [hmemory] at hle
    -- the buddy allocator has not handed out this address before, and slots lie elsewhere
    have hnew : q + headerSize ∉ live.map Prod.fst := by
      intro hmem
      obtain ⟨⟨p, n⟩, hlive, heq⟩ := List.mem_map.mp hmem
      obtain rfl : p = q + headerSize := heq
      by_cases hsmall : sizeToClass (n + headerSize) < numSizeClasses
      · have hslot := (hrep.small_mem hlive hsmall).1
        have hout := hrep.layout.slot_outsidePool hsmall hslot
        have hroom := headerSize_le_classToSize (hrep.layout.pos_of_leftSlots hslot)
        simp only [OutsidePool, headerSize, buddyHeaderSize] at hout hroom hptr hend
        omega
      · obtain ⟨hmem', -⟩ := hrep.large_mem hlive (Nat.not_lt.mp hsmall)
        exact (List.nodup_cons.mp howned'.nodup).1 (List.mem_map.mpr ⟨_, hmem', rfl⟩)
    refine ⟨free', S', hrep.setBuddy howned' hmemory (fun x hx => ?_)
      (List.nodup_cons.mpr ⟨hnew, hrep.nodup⟩) (fun p n hsmall => ?_) (fun r m => ?_) (fun r m hmem => ?_)
      fun p n hlive hclass => ?_⟩
    · refine update_of_ne ?_ ..
      rintro rfl
      simp only [OutsidePool, headerSize, buddyHeaderSize] at hx hptr hend
      omega
    · rw [List.mem_cons]
      refine ⟨fun hmem => hmem.resolve_left fun heq => ?_, Or.inr⟩
      rw [(Prod.mk.inj heq).2] at hsmall
      omega
    · rw [List.mem_cons, hrep.large_iff]
      constructor
      · rintro (heq | ⟨n, rfl, hlive, hclass⟩)
        · obtain ⟨rfl, rfl⟩ := Prod.mk.inj heq
          exact ⟨size, rfl, List.mem_cons_self .., hbig⟩
        · exact ⟨n, rfl, List.mem_cons_of_mem _ hlive, hclass⟩
      · rintro ⟨n, rfl, hlive, hclass⟩
        rcases List.mem_cons.mp hlive with heq | hlive
        · obtain ⟨hq, rfl⟩ := Prod.mk.inj heq
          exact Or.inl (by rw [Nat.add_right_cancel hq])
        · exact Or.inr ⟨n, rfl, hlive, hclass⟩
    · rcases List.mem_cons.mp hmem with heq | hmem
      · obtain ⟨rfl, rfl⟩ := Prod.mk.inj heq
        exact hend
      · exact hrep.large_le r m hmem
    · rcases List.mem_cons.mp hlive with heq | hmem
      · obtain ⟨rfl, rfl⟩ := Prod.mk.inj heq
        exact ⟨q, rfl, update_self ..⟩
      · obtain ⟨a, rfl, hcell⟩ := hold p n hmem hclass
        refine ⟨a, rfl, (update_of_ne ?_ ..).trans hcell⟩
        rintro rfl
        exact hnew (List.mem_map.mpr ⟨_, hmem, rfl⟩)

/-- What `lgx_heap_alloc` does.  A request that is refused leaves the memory alone; otherwise a size class
or the buddy allocator is asked, and the header is written where there is memory. -/
inductive Requested (h : Heap) (slots : ℕ → List ℕ) (slabMemory : Option ℕ) (size : ℕ) :
    Option ℕ → Heap → Prop
  | refused {h' : Heap} (hbuddy : h'.buddy = h.buddy) (hclasses : h'.sizeClasses = h.sizeClasses)
      (hcells : h'.cells = h.cells) : Requested h slots slabMemory size none h'
  | noSlot {c : ℕ} {s : ClassState} {slots' : List ℕ} (hclass : sizeToClass (size + headerSize) = c)
      (hpos : 0 < c) (hc : c < numSizeClasses)
      (halloc : ClassAlloc (classToSize c) slabMemory (h.classState c) (slots c) none s slots') :
      Requested h slots slabMemory size none (h.setClassState c s)
  | slot {c ptr : ℕ} {s : ClassState} {slots' : List ℕ} {h' : Heap}
      (hclass : sizeToClass (size + headerSize) = c) (hpos : 0 < c) (hc : c < numSizeClasses)
      (halloc : ClassAlloc (classToSize c) slabMemory (h.classState c) (slots c) (some ptr) s slots')
      (hbuddy : h'.buddy = h.buddy)
      (hclasses : h'.sizeClasses = update h.sizeClasses c
        { s.allocator with numAllocations := s.allocator.numAllocations + 1 })
      (hcells : h'.cells = update s.cells ptr (allocationHeader size c)) :
      Requested h slots slabMemory size (some (ptr + headerSize)) h'
  | noBlock {h' : Heap} (hsize : size ≤ maxHeapSize)
      (hbig : numSizeClasses ≤ sizeToClass (size + headerSize))
      (hresult : (buddyAlloc h.buddy (size + headerSize)).1 = none)
      (hbuddy : h'.buddy = (buddyAlloc h.buddy (size + headerSize)).2)
      (hclasses : h'.sizeClasses = h.sizeClasses) (hcells : h'.cells = h.cells) :
      Requested h slots slabMemory size none h'
  | block {q : ℕ} {h' : Heap} (hsize : size ≤ maxHeapSize)
      (hbig : numSizeClasses ≤ sizeToClass (size + headerSize))
      (hresult : (buddyAlloc h.buddy (size + headerSize)).1 = some q)
      (hbuddy : h'.buddy = (buddyAlloc h.buddy (size + headerSize)).2)
      (hclasses : h'.sizeClasses = h.sizeClasses)
      (hcells : h'.cells = update h.cells q (allocationHeader size (-1))) :
      Requested h slots slabMemory size (some (q + headerSize)) h'

theorem alloc_cases (hrep : HeapRep h live large slots free S) (hot : Bool) {slabMemory : Option ℕ}
    (hfresh : ∀ m, slabMemory = some m → FreshMemory h m) (size : ℕ) :
    Requested h slots slabMemory size (lgxHeapAlloc h hot slabMemory size).1
      (lgxHeapAlloc h hot slabMemory size).2 := by
  unfold lgxHeapAlloc
  split
  · exact .refused rfl rfl rfl
  split
  · exact .refused rfl rfl rfl
  rename_i hsize
  split
  · exact .refused rfl rfl rfl
  split
  · exact .refused rfl rfl rfl
  unfold Heap.findMemory
  by_cases hc : sizeToClass (size + headerSize) < numSizeClasses
  · simp only [if_pos hc]
    have hpos : 0 < sizeToClass (size + headerSize) :=
      sizeToClass_pos (by simp only [minSizeClass, headerSize]; omega)
    obtain ⟨slots', halloc⟩ := (hrep.classes _ hc).alloc_spec hot
      (fun m hm => (hfresh m hm).pos) fun m hm slab hslab => (hfresh m hm).slabs _ hc slab hslab
    generalize (h.classState (sizeToClass (size + headerSize))).alloc hot slabMemory = outcome
      at halloc ⊢
    obtain ⟨_ | ptr, s⟩ := outcome
    · exact .noSlot rfl hpos hc halloc
    · exact .slot rfl hpos hc halloc rfl rfl rfl
  · simp only [if_neg hc]
    generalize hresult : buddyAlloc h.buddy (size + headerSize) = outcome
    have hfst := congrArg Prod.fst hresult
    have hsnd := congrArg Prod.snd hresult
    obtain ⟨_ | q, b⟩ := outcome
    · exact .noBlock (not_lt.mp hsize) (not_lt.mp hc) hfst hsnd.symm rfl rfl
    · exact .block (not_lt.mp hsize) (not_lt.mp hc) hfst hsnd.symm rfl rfl

/-- `lgx_heap_alloc`. -/
theorem alloc (hrep : HeapRep h live large slots free S) (hot : Bool) {slabMemory : Option ℕ}
    (hfresh : ∀ m, slabMemory = some m → FreshMemory h m) (size : ℕ) :
    ∃ large' slots' free' S', HeapRep (lgxHeapAlloc h hot slabMemory size).2
      (grant (lgxHeapAlloc h hot slabMemory size).1 size live) large' slots' free' S' := by
  have hcases := hrep.alloc_cases hot hfresh size
  generalize lgxHeapAlloc h hot slabMemory size = outcome at hcases ⊢
  obtain ⟨result, h'⟩ := outcome
  cases hcases with
  | refused hbuddy hclasses hcells => exact ⟨_, _, _, _, hrep.congr hclasses hbuddy hcells⟩
  | noSlot hclass hpos hc halloc => exact ⟨_, _, _, _, hrep.allocSmall_none hpos hc halloc hfresh⟩
  | @slot c ptr s slots' _ hclass hpos hc halloc hbuddy hclasses hcells =>
      let s' : ClassState :=
        { allocator := { s.allocator with numAllocations := s.allocator.numAllocations + 1 }
          cells := update s.cells ptr (allocationHeader size c)
          numOomErrors := s.numOomErrors }
      have hrep' : HeapRep (h.setClassState c s') _ large _ free S :=
        hrep.allocSmall_some hpos hc halloc hfresh hclass rfl rfl rfl rfl
      exact ⟨_, _, _, _, hrep'.congr hclasses hbuddy hcells⟩
  | noBlock hsize hbig hresult hbuddy hclasses hcells =>
      obtain ⟨free', S', hrep'⟩ := (hrep.allocLarge hsize hbig).1 hresult
      exact ⟨_, _, _, _, hrep'.congr hclasses hbuddy hcells⟩
  | block hsize hbig hresult hbuddy hclasses hcells =>
      obtain ⟨free', S', hrep'⟩ := (hrep.allocLarge hsize hbig).2 _ hresult
      exact ⟨_, _, _, _, hrep'.congr hclasses hbuddy hcells⟩

/-! ## Deallocation -/

/-- The free path of a slot. -/
theorem freeSmall (hrep : HeapRep h live large slots free S) {a n : ℕ} {s : ClassState}
    (hlive : (a + headerSize, n) ∈ live) (hc : c < numSizeClasses)
    (hclass : sizeToClass (n + headerSize) = c)
    (hslabs : s.allocator.slabs = (h.sizeClasses c).slabs)
    (hrep' : ClassRep (classToSize c) s (a :: slots c))
    (hcells : ∀ x ≠ a, s.cells x = h.cells x) :
    HeapRep (h.setClassState c s) (live.erase (a + headerSize, n)) large
      (update slots c (a :: slots c)) free S := by
  have hnodup : live.Nodup := hrep.nodup.of_map
  have hslot := (hrep.taken_iff c hc a).mpr ⟨n, hlive, hclass⟩
  have hmem : ∀ p m, (p, m) ∈ live.erase (a + headerSize, n) ↔ (p, m) ∈ live ∧ p ≠ a + headerSize := by
    intro p m
    rw [hnodup.mem_erase_iff, and_comm]
    refine and_congr_right fun hlive' => ⟨fun hne heq => hne ?_, fun hne heq => hne ?_⟩
    · subst heq
      rw [hrep.eq_of_fst_eq hlive' hlive]
    · exact (Prod.mk.inj heq).1
  have hlocated : Located (h.sizeClasses c).slabs s.allocator.slabs none :=
    fun slab hslab => Or.inl ⟨slab, hslabs ▸ hslab, rfl⟩
  refine hrep.setClass (hrep.layout.pos_of_leftSlots hslot.1) hc hrep' hlocated (by simp) ?_ ?_ ?_ ?_ ?_
  · intro x hx
    refine hcells x ?_
    rintro rfl
    exact hx (hslabs ▸ hslot.1)
  · exact hrep.nodup.sublist ((List.erase_sublist ..).map _)
  · intro p m hother
    rw [hmem]
    refine ⟨And.left, fun hlive' => ⟨hlive', ?_⟩⟩
    rintro rfl
    exact hother (by rw [hrep.eq_of_fst_eq hlive' hlive, hclass])
  · intro x
    have hiff : x ∈ takenSlots s (a :: slots c) ↔
        x ∈ takenSlots (h.classState c) (slots c) ∧ x ≠ a := by
      simp only [takenSlots, Set.mem_ofPred_eq, List.mem_cons, hslabs, Heap.classState]
      tauto
    rw [hiff, hrep.taken_iff c hc x]
    constructor
    · rintro ⟨⟨m, hlive', hclass'⟩, hne⟩
      exact ⟨m, (hmem _ _).mpr ⟨hlive', by omega⟩, hclass'⟩
    · rintro ⟨m, hlive', hclass'⟩
      obtain ⟨hlive', hne⟩ := (hmem _ _).mp hlive'
      exact ⟨⟨m, hlive', hclass'⟩, by omega⟩
  · intro p m hlive' hclass'
    obtain ⟨hlive', hne⟩ := (hmem _ _).mp hlive'
    obtain ⟨x, rfl, hcell⟩ := hrep.header p m hlive'
    refine ⟨x, rfl, (hcells x (by omega)).trans (hcell.trans ?_)⟩
    rw [headerClass, hclass', if_pos hc]

/-- The free path of a block. -/
theorem freeLarge (hrep : HeapRep h live large slots free S) {a n : ℕ}
    (hlive : (a + headerSize, n) ∈ live) (hbig : numSizeClasses ≤ sizeToClass (n + headerSize)) :
    ∃ b large' free' S', buddyFree h.buddy a = some b ∧
      HeapRep { h with buddy := b } (live.erase (a + headerSize, n)) large' slots free' S' := by
  obtain ⟨hmem, -⟩ := hrep.large_mem hlive hbig
  obtain ⟨b, free', S', hfree, howned⟩ := hrep.buddy.release hmem
  have hnodup : live.Nodup := hrep.nodup.of_map
  have hnodup' : large.Nodup := hrep.buddy.nodup.of_map
  refine ⟨b, _, free', S', hfree, hrep.setBuddy howned (buddyFree_memory hfree) (fun _ _ => rfl)
    (hrep.nodup.sublist ((List.erase_sublist ..).map _)) (fun p m hsmall => ?_) (fun q m => ?_)
    (fun q m hmem' => hrep.large_le q m (List.mem_of_mem_erase hmem')) fun p m hlive' hclass => ?_⟩
  · rw [hnodup.mem_erase_iff]
    refine ⟨And.right, fun hlive' => ⟨fun heq => ?_, hlive'⟩⟩
    rw [(Prod.mk.inj heq).2] at hsmall
    omega
  · rw [hnodup'.mem_erase_iff, hrep.large_iff]
    constructor
    · rintro ⟨hne, k, rfl, hlive', hclass⟩
      refine ⟨k, rfl, hnodup.mem_erase_iff.mpr ⟨fun heq => hne ?_, hlive'⟩, hclass⟩
      obtain ⟨hq, rfl⟩ := Prod.mk.inj heq
      rw [Nat.add_right_cancel hq]
    · rintro ⟨k, rfl, hlive', hclass⟩
      obtain ⟨hne, hlive'⟩ := hnodup.mem_erase_iff.mp hlive'
      refine ⟨fun heq => hne ?_, k, rfl, hlive', hclass⟩
      obtain ⟨rfl, hk⟩ := Prod.mk.inj heq
      rw [Nat.add_right_cancel hk]
  · obtain ⟨x, rfl, hcell⟩ := hrep.header p m (List.mem_of_mem_erase hlive')
    refine ⟨x, rfl, hcell.trans ?_⟩
    rw [headerClass, if_neg (Nat.not_lt.mpr hclass)]

end HeapRep

/-- The slot at `a` goes on the free list of class `c`. -/
def Heap.returnSlot (h : Heap) (c a : ℕ) : Heap :=
  let s := (h.classState c).pushFree a
  h.setClassState c { s with allocator := { s.allocator with numFrees := s.allocator.numFrees + 1 } }

/-- The end of `lgx_heap_free`: the statistics lose `size` bytes. -/
def Heap.countFree (h : Heap) (size : ℕ) : Heap :=
  { h with
    totalFrees := h.totalFrees + 1
    numActiveAllocations := sub64 h.numActiveAllocations 1
    currentBytesAllocated := sub64 h.currentBytesAllocated size }

theorem allocationHeader_magic (size : ℕ) (sizeClass : ℤ) :
    (allocationHeader size sizeClass).magic = allocMagic := by
  simp only [Cell.magic, allocationHeader, allocMagic]
  omega

theorem allocationHeader_size (size : ℕ) (sizeClass : ℤ) :
    (allocationHeader size sizeClass).size = size % 2 ^ 32 := by
  simp only [Cell.size, allocationHeader, allocMagic]
  omega

/-- What `lgx_heap_free` does behind an intact header. -/
theorem lgxHeapFree_of_header {h : Heap} {a n : ℕ}
    (hcell : h.cells a = allocationHeader n (headerClass n)) :
    lgxHeapFree h (a + headerSize) =
      if sizeToClass (n + headerSize) < numSizeClasses then
        some ((h.returnSlot (sizeToClass (n + headerSize)) a).countFree (n % 2 ^ 32))
      else (buddyFree h.buddy a).map fun b => { h with buddy := b }.countFree (n % 2 ^ 32) := by
  have hptr : ¬ a + headerSize = 0 := by
    simp only [headerSize]
    omega
  have hmagic : ¬ (allocationHeader n (headerClass n)).magic ≠ allocMagic :=
    fun hne => hne (allocationHeader_magic _ _)
  unfold lgxHeapFree
  simp only [if_neg hptr, Nat.add_sub_cancel, hcell, if_neg hmagic, allocationHeader_size]
  by_cases hc : sizeToClass (n + headerSize) < numSizeClasses
  · have hclass : headerClass n = (sizeToClass (n + headerSize) : ℤ) := by rw [headerClass, if_pos hc]
    have hrange : 0 ≤ (allocationHeader n (headerClass n)).sizeClass ∧
        (allocationHeader n (headerClass n)).sizeClass < (numSizeClasses : ℤ) := by
      rw [hclass]
      exact ⟨Int.natCast_nonneg _, Int.ofNat_lt.mpr hc⟩
    have hnat : (allocationHeader n (headerClass n)).sizeClass.toNat =
        sizeToClass (n + headerSize) := by
      rw [allocationHeader, hclass, Int.toNat_natCast]
    simp only [if_pos hrange, if_pos hc, hnat, Option.map_some]
    rfl
  · have hrange : ¬ (0 ≤ (allocationHeader n (headerClass n)).sizeClass ∧
        (allocationHeader n (headerClass n)).sizeClass < (numSizeClasses : ℤ)) := by
      rw [headerClass, if_neg hc]
      exact fun hrange => absurd hrange.1 (by simp [allocationHeader])
    simp only [if_neg hrange, if_neg hc, Option.map_map]
    rfl

namespace HeapRep

variable {h : Heap} {live large : List (ℕ × ℕ)} {slots free : ℕ → List ℕ} {S : Set ℕ} {c : ℕ}

/-- The header of a live pointer, and what freeing the pointer comes to. -/
theorem free_eq (hrep : HeapRep h live large slots free S) {p n : ℕ} (hlive : (p, n) ∈ live) :
    ∃ a, p = a + headerSize ∧ lgxHeapFree h p =
      if sizeToClass (n + headerSize) < numSizeClasses then
        some ((h.returnSlot (sizeToClass (n + headerSize)) a).countFree (n % 2 ^ 32))
      else (buddyFree h.buddy a).map fun b => { h with buddy := b }.countFree (n % 2 ^ 32) := by
  obtain ⟨a, rfl, hcell⟩ := hrep.header p n hlive
  exact ⟨a, rfl, lgxHeapFree_of_header hcell⟩

/-- `lgx_heap_free` of a live pointer returns, and frees that pointer alone. -/
theorem release (hrep : HeapRep h live large slots free S) {p n : ℕ} (hlive : (p, n) ∈ live) :
    ∃ h' large' slots' free' S', lgxHeapFree h p = some h' ∧
      HeapRep h' (live.erase (p, n)) large' slots' free' S' := by
  obtain ⟨a, rfl, heq⟩ := hrep.free_eq hlive
  rw [heq]
  by_cases hc : sizeToClass (n + headerSize) < numSizeClasses
  · rw [if_pos hc]
    have hslot := hrep.small_mem hlive hc
    have hpush := (hrep.classes _ hc).pushFree hslot
    have hrep' : HeapRep (h.returnSlot (sizeToClass (n + headerSize)) a) _ large _ free S :=
      hrep.freeSmall hlive hc rfl rfl (hpush.congr hpush.objectSize_eq rfl rfl fun _ _ => rfl)
        fun x hne => update_of_ne hne ..
    exact ⟨_, _, _, _, _, rfl, hrep'.congr rfl rfl rfl⟩
  · rw [if_neg hc]
    obtain ⟨b, large', free', S', hfree, hrep'⟩ := hrep.freeLarge hlive (Nat.not_lt.mp hc)
    rw [hfree]
    exact ⟨_, _, _, _, _, rfl, hrep'.congr rfl rfl rfl⟩

end HeapRep

/-! ## Runs -/

/-- The heap together with the live pointers and their requested sizes. -/
structure HeapRun where
  heap : Heap
  live : List (ℕ × ℕ)

/-- One step of a run.  A client may change every header or node that its own bytes overlap, as long
as it writes only inside its own allocation. -/
inductive HeapStep : HeapRun → HeapRun → Prop
  | alloc (r : HeapRun) (hot : Bool) (slabMemory : Option ℕ) (size : ℕ)
      (hfresh : ∀ m, slabMemory = some m → FreshMemory r.heap m) :
      HeapStep r
        ⟨(lgxHeapAlloc r.heap hot slabMemory size).2,
          grant (lgxHeapAlloc r.heap hot slabMemory size).1 size r.live⟩
  | free (r : HeapRun) (ptr size : ℕ) (h' : Heap) (hlive : (ptr, size) ∈ r.live)
      (hfree : lgxHeapFree r.heap ptr = some h') :
      HeapStep r ⟨h', r.live.erase (ptr, size)⟩
  | write (r : HeapRun) (ptr size : ℕ) (cells : ℕ → Cell) (contents : ℕ → BuddyBlock)
      (hlive : (ptr, size) ∈ r.live)
      (hcells : ∀ x ∉ payloadCells ptr size, cells x = r.heap.cells x)
      (hcontents : ∀ x ∉ payloadCells ptr size, contents x = r.heap.buddy.block x) :
      HeapStep r
        ⟨{ r.heap with cells := cells, buddy := { r.heap.buddy with block := contents } }, r.live⟩

/-- The states of the runs that start with `lgx_persistent_heap_init`, with a buddy pool somewhere in
user space. -/
inductive HeapReachable : HeapRun → Prop
  | init (memory : ℕ) (contents : ℕ → BuddyBlock) (cells : ℕ → Cell) (hmemory : memory ≠ 0)
      (huser : memory + buddyPoolSize ≤ userSpace) :
      HeapReachable ⟨persistentHeapInit memory contents cells, []⟩
  | step {r r' : HeapRun} (hreach : HeapReachable r) (hstep : HeapStep r r') : HeapReachable r'

theorem HeapRep.init {memory : ℕ} (hmemory : memory ≠ 0) (huser : memory + buddyPoolSize ≤ userSpace)
    (contents : ℕ → BuddyBlock) (cells : ℕ → Cell) :
    HeapRep (persistentHeapInit memory contents cells) [] [] (fun _ => [])
      (update (fun _ => []) (buddyNumOrders - 1) [memory]) {memory} := by
  have hslabs : ∀ c, SlabsRep (classToSize c) [] := fun c => ⟨by simp, List.Pairwise.nil⟩
  refine ⟨⟨huser, fun c _ => hslabs c, rfl, fun _ _ _ _ _ slab hslab => ?_, fun _ _ slab hslab => ?_⟩,
    fun c hc => ⟨rfl, hslabs c, ?_, by simp⟩, fun c hc a => ?_, Owned.init hmemory contents, by simp,
    by simp, List.nodup_nil, by simp⟩
  · simp [persistentHeapInit] at hslab
  · simp [persistentHeapInit] at hslab
  · simp [Heap.classState, persistentHeapInit]
  · simp [takenSlots, leftSlots, Heap.classState, persistentHeapInit]

theorem HeapStep.rep {r r' : HeapRun} {large : List (ℕ × ℕ)} {slots free : ℕ → List ℕ} {S : Set ℕ}
    (hstep : HeapStep r r') (hrep : HeapRep r.heap r.live large slots free S) :
    ∃ large' slots' free' S', HeapRep r'.heap r'.live large' slots' free' S' := by
  cases hstep with
  | alloc hot slabMemory size hfresh => exact hrep.alloc hot hfresh size
  | free ptr size h' hlive hfree =>
      obtain ⟨h'', large', slots', free', S', heq, hrep'⟩ := hrep.release hlive
      obtain rfl : h' = h'' := Option.some.inj (hfree.symm.trans heq)
      exact ⟨large', slots', free', S', hrep'⟩
  | write ptr size cells contents hlive hcells hcontents =>
      exact ⟨large, slots, free, S, hrep.write hlive hcells hcontents⟩

/-- Every reachable state satisfies the invariant. -/
theorem HeapReachable.rep {r : HeapRun} (h : HeapReachable r) :
    ∃ large slots free S, HeapRep r.heap r.live large slots free S := by
  induction h with
  | init memory contents cells hmemory huser =>
      exact ⟨_, _, _, _, HeapRep.init hmemory huser contents cells⟩
  | step _ hstep ih =>
      obtain ⟨large, slots, free, S, hrep⟩ := ih
      exact hstep.rep hrep

/-- A new heap, with its buddy pool at 1 GB. -/
def newHeap : Heap :=
  persistentHeapInit (2 ^ 30) (fun _ => ⟨none, 0, false⟩) fun _ => ⟨0, 0, 0⟩

/-- Its first slab may lie at 2 MB. -/
theorem freshMemory_newHeap : FreshMemory newHeap (2 ^ 21) :=
  ⟨by decide, fun _ _ _ hslab => absurd hslab List.not_mem_nil, Or.inl (by decide)⟩

/-! ## The slots of the slabs -/

/-- Exactly one of three propositions holds. -/
def ExactlyOne (p q r : Prop) : Prop :=
  (p ∧ ¬ q ∧ ¬ r) ∨ (¬ p ∧ q ∧ ¬ r) ∨ (¬ p ∧ ¬ q ∧ r)

/-- The pointer `p` of a live request of `n` bytes follows the header of the slot at `a`, of class
`c`. -/
def LiveAt (live : List (ℕ × ℕ)) (c a : ℕ) : Prop :=
  ∃ n, (a + headerSize, n) ∈ live ∧ sizeToClass (n + headerSize) = c

/-- Every slot is accounted for; `slots c` is what the free list of class `c` holds. -/
structure SlotsAccounted (r : HeapRun) (slots : ℕ → List ℕ) : Prop where
  linked : ∀ c < numSizeClasses,
    Linked (fun a => (r.heap.cells a).next) (r.heap.sizeClasses c).freeList (slots c)
  exactlyOne : ∀ c < numSizeClasses, ∀ slab ∈ (r.heap.sizeClasses c).slabs, ∀ i < slab.capacity,
    ExactlyOne (slab.isSet i = false) ((slots c).count (slab.slot i) = 1)
      (LiveAt r.live c (slab.slot i))
  count_le : ∀ c < numSizeClasses, ∀ a, (slots c).count a ≤ 1
  used_eq : ∀ c < numSizeClasses, ∀ slab ∈ (r.heap.sizeClasses c).slabs,
    slab.used = ((List.range slab.capacity).filter slab.isSet).length
  live_slot : ∀ p n, (p, n) ∈ r.live → sizeToClass (n + headerSize) < numSizeClasses →
    ∃ slab ∈ (r.heap.sizeClasses (sizeToClass (n + headerSize))).slabs, ∃ i < slab.capacity,
      p = slab.slot i + headerSize
  live_apart : r.live.Pairwise fun x y =>
    sizeToClass (x.2 + headerSize) < numSizeClasses → sizeToClass (y.2 + headerSize) < numSizeClasses →
      x.1 + classToSize (sizeToClass (x.2 + headerSize)) ≤ y.1 ∨
        y.1 + classToSize (sizeToClass (y.2 + headerSize)) ≤ x.1
  free_returns : ∀ p n, (p, n) ∈ r.live → (lgxHeapFree r.heap p).isSome

theorem Slab.setSlots_card (slab : Slab) :
    slab.setSlots.card = ((List.range slab.capacity).filter slab.isSet).length := by
  simp only [Slab.setSlots, Finset.card, Finset.filter_val, Finset.range_val, Multiset.range,
    Multiset.filter_coe, Multiset.coe_card, Bool.decide_eq_true]

namespace HeapRep

variable {h : Heap} {live large : List (ℕ × ℕ)} {slots free : ℕ → List ℕ} {S : Set ℕ} {c : ℕ}

/-- A slot is in the bitmap, on the free list or live. -/
theorem slot_exactlyOne (hrep : HeapRep h live large slots free S) (hc : c < numSizeClasses)
    {slab : Slab} (hslab : slab ∈ (h.sizeClasses c).slabs) {i : ℕ} (hi : i < slab.capacity) :
    ExactlyOne (slab.isSet i = false) ((slots c).count (slab.slot i) = 1)
      (LiveAt live c (slab.slot i)) := by
  have hclass := hrep.classes c hc
  have hwf := hclass.slabs.wellFormed slab hslab
  have htaken := hrep.taken_iff c hc (slab.slot i)
  have hcount : (slots c).count (slab.slot i) = 1 ↔ slab.slot i ∈ slots c :=
    ⟨fun hone => List.count_pos_iff.mp (by omega), fun hmem =>
      List.count_eq_one_of_mem hclass.linked.nodup hmem⟩
  -- slots of other slabs have other addresses, so that the slot has left a bitmap iff its bit is set
  have hleft : slab.slot i ∈ leftSlots (h.sizeClasses c).slabs ↔ slab.isSet i = true := by
    refine ⟨?_, fun hset => ⟨slab, hslab, i, hi, hset, rfl⟩⟩
    rintro ⟨slab', hslab', j, hj, hset, heq⟩
    have hwf' := hclass.slabs.wellFormed slab' hslab'
    by_cases hsame : slab = slab'
    · subst hsame
      rwa [hwf.slot_injective heq]
    · have hapart : Apart slab slab' := hclass.slabs.apart.forall hslab hslab' hsame
      exact (hapart.disjoint (hwf.slot_mem hi) (heq ▸ hwf'.slot_mem hj)).elim
  rw [hcount]
  cases hset : slab.isSet i with
  | false =>
      have hnot : slab.slot i ∉ leftSlots (h.sizeClasses c).slabs := by simp [hleft, hset]
      exact Or.inl ⟨rfl, fun hmem => hnot (hclass.free_mem _ hmem),
        fun hlive => hnot (htaken.mpr hlive).1⟩
  | true =>
      have hmem := hleft.mpr hset
      by_cases hfree : slab.slot i ∈ slots c
      · exact Or.inr (Or.inl ⟨Bool.noConfusion, hfree, fun hlive => (htaken.mpr hlive).2 hfree⟩)
      · exact Or.inr (Or.inr ⟨Bool.noConfusion, hfree, htaken.mp ⟨hmem, hfree⟩⟩)

/-- Live pointers of small requests do not share a slot. -/
theorem live_apart (hrep : HeapRep h live large slots free S) {p n q m : ℕ} (hp : (p, n) ∈ live)
    (hq : (q, m) ∈ live) (hne : p ≠ q) (hn : sizeToClass (n + headerSize) < numSizeClasses)
    (hm : sizeToClass (m + headerSize) < numSizeClasses) :
    p + classToSize (sizeToClass (n + headerSize)) ≤ q ∨
      q + classToSize (sizeToClass (m + headerSize)) ≤ p := by
  obtain ⟨a, rfl, -⟩ := hrep.header p n hp
  obtain ⟨x, rfl, -⟩ := hrep.header q m hq
  have hapart := hrep.layout.slots_apart hn hm (hrep.small_mem hp hn).1 (hrep.small_mem hq hm).1
    (Or.inl fun heq => hne (heq ▸ rfl))
  omega

theorem slotsAccounted {r : HeapRun} (hrep : HeapRep r.heap r.live large slots free S) :
    SlotsAccounted r slots := by
  refine ⟨fun c hc => (hrep.classes c hc).linked,
    fun c hc slab hslab i hi => hrep.slot_exactlyOne hc hslab hi,
    fun c hc => List.nodup_iff_count_le_one.mp (hrep.classes c hc).linked.nodup,
    fun c hc slab hslab => ?_, fun p n hlive hsmall => ?_, ?_, fun p n hlive => ?_⟩
  · rw [← Slab.setSlots_card]
    exact ((hrep.classes c hc).slabs.wellFormed slab hslab).used_eq
  · obtain ⟨a, rfl, -⟩ := hrep.header p n hlive
    obtain ⟨slab, hslab, i, hi, -, rfl⟩ := (hrep.small_mem hlive hsmall).1
    exact ⟨slab, hslab, i, hi, rfl⟩
  · have hpairwise : r.live.Pairwise fun x y => x.1 ≠ y.1 := List.pairwise_map.mp hrep.nodup
    refine hpairwise.imp_of_mem fun {x y} hx hy hne hsmall hsmall' => ?_
    exact hrep.live_apart hx hy hne hsmall hsmall'
  · obtain ⟨h', -, -, -, -, heq, -⟩ := hrep.release hlive
    rw [heq]
    rfl

end HeapRep

/-- In every reachable state every slot of every slab is in the bitmap, on the free list of its class
once, or live. -/
theorem exists_slotsAccounted_of_reachable {r : HeapRun} (h : HeapReachable r) :
    ∃ slots, SlotsAccounted r slots := by
  obtain ⟨large, slots, free, S, hrep⟩ := h.rep
  exact ⟨slots, hrep.slotsAccounted⟩

/-- One request of 1000 bytes, which gets the first slot of a new slab at 2 MB. -/
theorem slotsAccounted_after_first_alloc :
    ∃ r, HeapReachable r ∧ r.live = [(2 ^ 21 + 24, 1000)] ∧ ∃ slots, SlotsAccounted r slots := by
  let h := persistentHeapInit (2 ^ 30) (fun _ => ⟨none, 0, false⟩) fun _ => ⟨0, 0, 0⟩
  have hinit : HeapReachable ⟨h, []⟩ := .init _ _ _ (by decide) (by decide)
  have hfresh : ∀ m, some (2 ^ 21) = some m → FreshMemory h m := by
    rintro m hm
    obtain rfl := Option.some.inj hm
    exact ⟨by decide, fun c _ slab hslab => by simp [h, persistentHeapInit] at hslab,
      Or.inl (by decide)⟩
  have hresult : (lgxHeapAlloc h false (some (2 ^ 21)) 1000).1 = some (2 ^ 21 + 24) := by
    decide +kernel
  have hreach := hinit.step (.alloc _ false (some (2 ^ 21)) 1000 hfresh)
  refine ⟨_, hreach, ?_, exists_slotsAccounted_of_reachable hreach⟩
  simp only [hresult, grant]

/-! ## The memory that is reserved for a request -/

/-- The bytes `[p, p + n)` of a live pointer lie inside the slot of the class, or the block of the
order, that was computed for the request. -/
inductive InsideReserved (h : Heap) (p n : ℕ) : Prop
  | slot (c : ℕ) (hc : c < numSizeClasses) (hclass : sizeToClass (n + headerSize) = c) (slab : Slab)
      (hslab : slab ∈ (h.sizeClasses c).slabs) (hsize : slab.objectSize = classToSize c) (i : ℕ)
      (hi : i < slab.capacity) (hset : slab.isSet i = true) (hptr : p = slab.slot i + headerSize)
      (hinside : Set.Ico p (p + n) ⊆ Set.Ico (slab.slot i) (slab.slot i + slab.objectSize))
  | block (hclass : numSizeClasses ≤ sizeToClass (n + headerSize)) (a : ℕ)
      (hptr : p = a + buddyHeaderSize + headerSize) (hused : (h.buddy.block a).isFree = false)
      (horder : (h.buddy.block a).order = sizeToOrder (n + headerSize + buddyHeaderSize))
      (hinside : Set.Ico p (p + n) ⊆ h.buddy.span a)

/-- The largest request that a block has room for. -/
theorem le_orderToSize_iff (size : ℕ) : size ≤ orderToSize (sizeToOrder size) ↔ size ≤ 2 ^ 26 := by
  constructor
  · intro hle
    have htop := orderToSize_le (Nat.le_sub_one_of_lt (sizeToOrder_lt size))
    rw [← regionSize_eq]
    exact hle.trans htop
  · intro hle
    rcases le_orderToSize_sizeToOrder size with hfit | htop
    · exact hfit
    · rw [htop]
      exact hle.trans regionSize_eq.ge

theorem HeapRep.insideReserved_iff {h : Heap} {live large : List (ℕ × ℕ)} {slots free : ℕ → List ℕ}
    {S : Set ℕ} (hrep : HeapRep h live large slots free S) {p n : ℕ} (hlive : (p, n) ∈ live)
    (hn : 0 < n) : InsideReserved h p n ↔ n + headerSize + buddyHeaderSize ≤ 2 ^ 26 := by
  obtain ⟨a, rfl, -⟩ := hrep.header p n hlive
  constructor
  · intro hinside
    cases hinside with
    | slot c hc hclass =>
        have hle := (sizeToClass_lt_iff _).mp (hclass ▸ hc)
        simp only [maxSizeClass, headerSize, buddyHeaderSize] at hle ⊢
        omega
    | block hclass b hptr hused horder hinside =>
        rw [← le_orderToSize_iff, ← horder]
        -- the last byte of the allocation is a byte of the block
        have hlast := hinside (show a + headerSize + (n - 1) ∈ _ from ⟨by omega, by omega⟩)
        simp only [Buddy.span, Set.mem_Ico] at hlast
        omega
  · intro hfit
    by_cases hsmall : sizeToClass (n + headerSize) < numSizeClasses
    · have hroom := HeapRep.small_room hsmall
      obtain ⟨slab, hslab, i, hi, hset, rfl⟩ := (hrep.small_mem hlive hsmall).1
      have hsize := ((hrep.layout.slabs _ hsmall).wellFormed slab hslab).size_eq
      refine .slot _ hsmall rfl slab hslab hsize i hi hset rfl fun x hx => ?_
      rw [Set.mem_Ico] at hx ⊢
      rw [hsize]
      omega
    · obtain ⟨hmem, -⟩ := hrep.large_mem hlive (Nat.not_lt.mp hsmall)
      obtain ⟨b, hb, rfl, hused, horder⟩ := hrep.buddy.of_live _ _ hmem
      refine .block (Nat.not_lt.mp hsmall) b rfl hused horder fun x hx => ?_
      have hroom := (le_orderToSize_iff _).mpr hfit
      rw [← horder] at hroom
      simp only [Buddy.span, Set.mem_Ico] at hx ⊢
      omega

theorem lgxHeapAlloc_zero (h : Heap) (hot : Bool) (slabMemory : Option ℕ) :
    (lgxHeapAlloc h hot slabMemory 0).1 = none := by
  rw [lgxHeapAlloc, if_pos rfl]

/-- No pointer is handed out for a request of zero bytes. -/
theorem HeapReachable.live_pos {r : HeapRun} (h : HeapReachable r) {p n : ℕ} (hlive : (p, n) ∈ r.live) :
    0 < n := by
  induction h with
  | init => simp at hlive
  | step _ hstep ih =>
      cases hstep with
      | alloc hot slabMemory size hfresh =>
          generalize hresult : (lgxHeapAlloc _ hot slabMemory size).1 = result at hlive
          cases result with
          | none => exact ih hlive
          | some ptr =>
              rcases List.mem_cons.mp hlive with heq | hlive
              · obtain ⟨rfl, rfl⟩ := Prod.mk.inj heq
                refine Nat.pos_of_ne_zero ?_
                rintro rfl
                rw [lgxHeapAlloc_zero] at hresult
                simp at hresult
              · exact ih hlive
      | free ptr size h' hlive' hfree => exact ih (List.mem_of_mem_erase hlive)
      | write ptr size cells contents hlive' hcells hcontents => exact ih hlive

/-- In every reachable state a live pointer has its bytes inside the slot or block that was reserved for
it exactly if the request fits, with its two headers, in the largest block; so does the pointer that
the next call returns. -/
theorem insideReserved_iff_of_reachable {r : HeapRun} (h : HeapReachable r) :
    (∀ p n, (p, n) ∈ r.live →
      (InsideReserved r.heap p n ↔ n + headerSize + buddyHeaderSize ≤ 2 ^ 26)) ∧
    ∀ hot slabMemory, (∀ m, slabMemory = some m → FreshMemory r.heap m) → ∀ size p,
      (lgxHeapAlloc r.heap hot slabMemory size).1 = some p →
        (InsideReserved (lgxHeapAlloc r.heap hot slabMemory size).2 p size ↔
          size + headerSize + buddyHeaderSize ≤ 2 ^ 26) := by
  have hlive : ∀ {r : HeapRun}, HeapReachable r → ∀ p n, (p, n) ∈ r.live →
      (InsideReserved r.heap p n ↔ n + headerSize + buddyHeaderSize ≤ 2 ^ 26) := by
    intro r h p n hmem
    obtain ⟨large, slots, free, S, hrep⟩ := h.rep
    exact hrep.insideReserved_iff hmem (h.live_pos hmem)
  refine ⟨hlive h, fun hot slabMemory hfresh size p hresult => ?_⟩
  refine hlive (h.step (.alloc r hot slabMemory size hfresh)) p size ?_
  rw [hresult, grant]
  exact List.mem_cons_self ..

/-- The largest request that still fits. -/
theorem insideReserved_largest :
    ∃ r p, HeapReachable r ∧ (lgxHeapAlloc r.heap false none (2 ^ 26 - 48)).1 = some p ∧
      InsideReserved (lgxHeapAlloc r.heap false none (2 ^ 26 - 48)).2 p (2 ^ 26 - 48) := by
  let h := persistentHeapInit (2 ^ 30) (fun _ => ⟨none, 0, false⟩) fun _ => ⟨0, 0, 0⟩
  have hinit : HeapReachable ⟨h, []⟩ := .init _ _ _ (by decide) (by decide)
  have hresult : (lgxHeapAlloc h false none (2 ^ 26 - 48)).1 = some (2 ^ 30 + 48) := by
    decide +kernel
  exact ⟨_, _, hinit, hresult,
    ((insideReserved_iff_of_reachable hinit).2 false none (by simp) _ _ hresult).mpr (by decide)⟩

/-- On a new heap a request of 64 MB gets a block of 64 MB, with its two headers inside. -/
theorem insideReserved_fails_64MB :
    ∃ r p, HeapReachable r ∧ 2 ^ 26 ≤ maxHeapSize ∧
      (lgxHeapAlloc r.heap false none (2 ^ 26)).1 = some p ∧
      ¬ InsideReserved (lgxHeapAlloc r.heap false none (2 ^ 26)).2 p (2 ^ 26) := by
  let h := persistentHeapInit (2 ^ 30) (fun _ => ⟨none, 0, false⟩) fun _ => ⟨0, 0, 0⟩
  have hinit : HeapReachable ⟨h, []⟩ := .init _ _ _ (by decide) (by decide)
  have hresult : (lgxHeapAlloc h false none (2 ^ 26)).1 = some (2 ^ 30 + 48) := by
    decide +kernel
  refine ⟨_, _, hinit, by decide, hresult, ?_⟩
  obtain ⟨large, slots, free, S, hrep⟩ := (hinit.step (.alloc _ false none (2 ^ 26) (by simp))).rep
  simp only [hresult, grant] at hrep
  rw [hrep.insideReserved_iff (List.mem_cons_self ..) (by decide)]
  decide

end LgxRuntime.PersistentHeap
