import LgxRuntime.MemorySafety.Safety
import LgxRuntime.Lib.Linked
import Mathlib.Data.List.Basic

/-!
# The two lists in memory

The active allocations are linked through their metadata, the delayed frees through nodes of their own.
Both loops that take something off a list hold the place of the link that leads to the next node.  Here is
what the loops do to lists: `untrackLoop` takes off the first node with the pointer it looks for
(`untrackLoop_eq`), `sweepLoop` takes off the nodes that have expired (`sweepLoop_eq`), and `shutdownLoop`
frees all of them (`shutdownLoop_eq`).
-/

namespace LgxRuntime.MemorySafety

open Function (update update_self update_of_ne)

/-! ## Active allocations -/

/-- What a block carries apart from its link and its frames. -/
structure Guards where
  canaryPrefix : ℕ
  canarySuffix : ℕ
  userPtr : ℕ
  trailing : Option ℕ

/-- The guards of a block. -/
def Block.guards (b : Block) : Guards :=
  ⟨b.metadata.canaryPrefix, b.metadata.canarySuffix, b.metadata.userPtr, b.trailing⟩

namespace State

variable {s : State} {raw a node ptr fuel : ℕ} {active kept rest : List ℕ}

/-- The guards of a block that is allocated. -/
def guards (s : State) (raw : ℕ) : Option Guards :=
  (s.block raw).map Block.guards

/-- The link of a block. -/
def nextActive (s : State) (raw : ℕ) : Option ℕ :=
  (s.block raw).bind fun b => b.metadata.next

theorem guards_setMetadata {f : Metadata → Metadata}
    (hf : ∀ b : Block, Block.guards { b with metadata := f b.metadata } = b.guards) :
    (s.setMetadata raw f).guards = s.guards := by
  funext a
  by_cases ha : a = raw
  · subst ha
    simp only [guards, setMetadata, update_self, Option.map_map]
    exact congrArg (Option.map · (s.block a)) (funext hf)
  · simp only [guards, setMetadata, update_of_ne ha]

theorem nextActive_setMetadata (f : Metadata → Metadata) (a : ℕ) :
    (s.setMetadata raw f).nextActive a =
      if raw = a then (s.block a).bind fun b => (f b.metadata).next else s.nextActive a := by
  by_cases ha : a = raw
  · subst ha
    simp only [if_pos, nextActive, setMetadata, update_self]
    cases s.block a <;> rfl
  · simp only [nextActive, setMetadata, update_of_ne ha, if_neg (Ne.symm ha)]

/-- The active allocations are the blocks of a list, all of them allocated. -/
structure ActiveList (s : State) (active : List ℕ) : Prop where
  linked : Linked s.nextActive s.activeAllocations active
  allocated : ∀ raw ∈ active, s.guards raw ≠ none

theorem guards_storeActive (link : Option ℕ) (current : Option ℕ) :
    (s.storeActive current link).guards = s.guards := by
  cases current with
  | none => rfl
  | some raw =>
      exact guards_setMetadata (f := fun metadata => { metadata with next := link }) fun b => rfl

theorem exists_block (h : s.guards raw ≠ none) : ∃ b, s.block raw = some b := by
  cases hb : s.block raw with
  | none => simp [guards, hb] at h
  | some b => exact ⟨b, rfl⟩

/-- The list depends on its head and on its blocks. -/
theorem ActiveList.congr {s' : State} (h : s.ActiveList active)
    (hhead : s'.activeAllocations = s.activeAllocations)
    (hguards : ∀ a ∈ active, s'.guards a = s.guards a)
    (hnext : ∀ a ∈ active, s'.nextActive a = s.nextActive a) : s'.ActiveList active := by
  refine ⟨?_, fun a ha => ?_⟩
  · rw [hhead]
    exact h.linked.congr hnext
  · rw [hguards a ha]
    exact h.allocated a ha

/-- `track_allocation` puts a block in front of the list. -/
theorem ActiveList.track (h : s.ActiveList active) (hraw : raw ∉ active) (halloc : s.guards raw ≠ none)
    (htracking : s.config.trackingEnabled = true) :
    (s.trackAllocation raw).ActiveList (raw :: active) := by
  have htrack : s.trackAllocation raw =
      { s.setMetadata raw fun metadata => { metadata with next := s.activeAllocations } with
        activeAllocations := some raw
        activeCount := wrap64 (s.activeCount + 1)
        totalAllocations := wrap64 (s.totalAllocations + 1) } := by
    rw [trackAllocation, htracking]
    rfl
  have hguards : (s.trackAllocation raw).guards = s.guards := by
    rw [htrack]
    exact guards_setMetadata (f := fun metadata => { metadata with next := s.activeAllocations })
      fun b => rfl
  have hnext : ∀ a, (s.trackAllocation raw).nextActive a =
      if raw = a then (s.block a).bind fun _ => s.activeAllocations else s.nextActive a := by
    rw [htrack]
    exact nextActive_setMetadata fun metadata => { metadata with next := s.activeAllocations }
  obtain ⟨b, hb⟩ := exists_block halloc
  refine ⟨⟨by rw [htrack], ?_⟩, fun a ha => ?_⟩
  · rw [hnext raw, if_pos rfl, hb, Option.bind_some]
    refine h.linked.congr fun a ha => ?_
    rw [hnext a, if_neg]
    rintro rfl
    exact hraw ha
  · rw [hguards]
    rcases List.mem_cons.mp ha with rfl | ha
    · exact halloc
    · exact h.allocated a ha

/-- The place behind `kept` holds the link to the rest of the list. -/
theorem ActiveList.load (h : s.ActiveList (kept ++ rest)) :
    s.loadActive kept.getLast? = some rest.head? := by
  rw [← h.linked.load_eq]
  cases hlast : kept.getLast? with
  | none => rfl
  | some p =>
      obtain ⟨b, hb⟩ := exists_block (h.allocated p (List.mem_append_left _ (List.mem_of_getLast? hlast)))
      simp [loadActive, nextActive, hb]

/-- A block is taken off the list by writing the link that leads to it. -/
theorem ActiveList.unlink (h : s.ActiveList (kept ++ raw :: rest)) :
    (s.storeActive kept.getLast? (s.nextActive raw)).ActiveList (kept ++ rest) := by
  refine ⟨h.linked.store ?_ fun x hx => ?_, fun a ha => ?_⟩
  · cases kept.getLast? <;> rfl
  · cases hlast : kept.getLast? with
    | none => rfl
    | some p =>
        simp only [storeActive, nextActive_setMetadata, Option.some.injEq]
        by_cases hpx : p = x
        · subst hpx
          obtain ⟨b, hb⟩ := exists_block
            (h.allocated p (List.mem_append_left _ (List.mem_of_getLast? hlast)))
          simp [hb]
        · rw [if_neg hpx, if_neg hpx]
  · rw [guards_storeActive]
    refine h.allocated a ?_
    rcases List.mem_append.mp ha with hkept | hrest
    · exact List.mem_append_left _ hkept
    · exact List.mem_append_right _ (List.mem_cons_of_mem _ hrest)

/-- The state after `untrack_allocation` has found `raw`, whose link is at `current`. -/
def untracked (s : State) (current : Option ℕ) (raw : ℕ) : State :=
  { s.storeActive current (s.nextActive raw) with
    activeCount := decrement s.activeCount
    totalFrees := wrap64 (s.totalFrees + 1) }

theorem ActiveList.untracked (h : s.ActiveList (kept ++ raw :: rest)) :
    (s.untracked kept.getLast? raw).ActiveList (kept ++ rest) :=
  ⟨h.unlink.linked, h.unlink.allocated⟩

/-- More iterations than needed do not matter. -/
theorem untrackLoop_mono {fuel' : ℕ} {current : Option ℕ} {r : Bool × State}
    (h : untrackLoop ptr fuel current s = some r) (hle : fuel ≤ fuel') :
    untrackLoop ptr fuel' current s = some r := by
  induction fuel generalizing fuel' current with
  | zero => simp [untrackLoop] at h
  | succ fuel ih =>
      obtain ⟨fuel', rfl⟩ := Nat.exists_eq_succ_of_ne_zero (by omega : fuel' ≠ 0)
      simp only [untrackLoop, Option.bind_eq_bind, Option.bind_eq_some_iff] at h ⊢
      obtain ⟨link, hlink, hrest⟩ := h
      refine ⟨link, hlink, ?_⟩
      cases link with
      | none => exact hrest
      | some raw =>
          simp only [Option.bind_eq_some_iff] at hrest ⊢
          obtain ⟨b, hb, hrest⟩ := hrest
          refine ⟨b, hb, ?_⟩
          by_cases hfound : b.metadata.userPtr = ptr
          · rwa [if_pos hfound] at hrest ⊢
          · rw [if_neg hfound] at hrest ⊢
            exact ih hrest (by omega)

/-- The loop finds a block of the list. -/
theorem untrackLoop_eq {passed : List ℕ} (h : s.ActiveList (passed ++ kept ++ raw :: rest))
    (hptr : ∀ a g, s.guards a = some g → g.userPtr = a + metadataSize) (hfuel : kept.length < fuel) :
    untrackLoop (raw + metadataSize) fuel passed.getLast? s =
      some (true, s.untracked (passed ++ kept).getLast? raw) := by
  have hnodup := h.linked.nodup
  induction fuel generalizing passed kept with
  | zero => omega
  | succ fuel ih =>
      have huser : ∀ a b, s.block a = some b → b.metadata.userPtr = a + metadataSize :=
        fun a b hb => hptr a b.guards (by rw [guards, hb, Option.map_some])
      cases kept with
      | nil =>
          rw [List.append_nil] at h ⊢
          obtain ⟨b, hb⟩ := exists_block (h.allocated raw (by simp))
          simp only [untrackLoop, h.load, List.head?_cons, Option.bind_eq_bind, Option.bind_some, hb,
            if_pos (huser raw b hb)]
          simp [State.untracked, nextActive, hb]
          cases passed.getLast? <;> simp [storeActive, setMetadata]
      | cons a kept =>
          rw [List.append_assoc, List.cons_append] at h
          obtain ⟨b, hb⟩ := exists_block (h.allocated a (by simp))
          have hne : a ≠ raw := by
            rintro rfl
            rw [List.append_assoc] at hnodup
            exact (List.nodup_cons.mp hnodup.of_append_right).1 (by simp)
          have hother : ¬ b.metadata.userPtr = raw + metadataSize := by
            rw [huser a b hb]
            omega
          simp only [untrackLoop, h.load, List.head?_cons, Option.bind_eq_bind, Option.bind_some, hb,
            if_neg hother]
          have hrest := @ih kept (passed ++ [a]) (by simpa using h) (by simpa using hfuel)
            (by simpa using hnodup)
          rw [List.getLast?_append, List.getLast?_singleton, Option.some_or] at hrest
          rw [hrest]
          simp

end State

/-! ## Delayed frees -/

/-- A node of the queue, and what it says: a block, and the frame in which it was freed. -/
structure Entry where
  node : ℕ
  ptr : ℕ
  frameFreed : ℕ

/-- Whether what was freed in frame `frameFreed` is given back in frame `now`. -/
def due (now frameFreed : ℕ) : Bool :=
  (now + (2 ^ 32 - frameFreed % 2 ^ 32)) % 2 ^ 32 ≥ delayedFrames

/-- The entries that are given back in frame `now`. -/
def dueEntries (now : ℕ) (queue : List Entry) : List Entry :=
  queue.filter fun e => due now e.frameFreed

/-- The entries that stay in frame `now`. -/
def heldEntries (now : ℕ) (queue : List Entry) : List Entry :=
  queue.filter fun e => !due now e.frameFreed

theorem decrement_iterate {n k : ℕ} (h : k ≤ n) : decrement^[k] n = n - k := by
  induction k generalizing n with
  | zero => rfl
  | succ k ih =>
      have hstep : decrement n = n - 1 := if_neg (by omega)
      rw [Function.iterate_succ_apply, hstep, ih (by omega)]
      omega

namespace State

variable {s : State} {fuel : ℕ} {e : Entry} {queue kept rest : List Entry}

/-- The link of a node. -/
def nextDelayed (s : State) (node : ℕ) : Option ℕ :=
  (s.node node).bind fun d => d.next

/-- The queue of delayed frees is a list of entries. -/
structure DelayedList (s : State) (queue : List Entry) : Prop where
  linked : Linked s.nextDelayed s.delayedQueue (queue.map Entry.node)
  allocated : ∀ e ∈ queue, s.node e.node = some ⟨e.ptr, e.frameFreed, s.nextDelayed e.node⟩

theorem DelayedList.nodup (h : s.DelayedList queue) : (queue.map Entry.node).Nodup :=
  h.linked.nodup

/-- The queue depends on its head and on its nodes. -/
theorem DelayedList.congr {s' : State} (h : s.DelayedList queue)
    (hhead : s'.delayedQueue = s.delayedQueue) (hnode : s'.node = s.node) : s'.DelayedList queue := by
  have hnext : s'.nextDelayed = s.nextDelayed := by
    funext n
    rw [nextDelayed, nextDelayed, hnode]
  refine ⟨?_, ?_⟩
  · rw [hhead, hnext]
    exact h.linked
  · rw [hnode, hnext]
    exact h.allocated

/-- A new node goes in front of the queue. -/
theorem DelayedList.enqueue {raw node : ℕ} (h : s.DelayedList queue) (hfresh : s.node node = none) :
    (s.enqueue raw node).DelayedList (⟨node, raw, s.currentFrame⟩ :: queue) := by
  have hother : ∀ e ∈ queue, e.node ≠ node := by
    rintro e he rfl
    rw [h.allocated e he] at hfresh
    cases hfresh
  have hnode : ∀ e ∈ queue, (s.enqueue raw node).node e.node = s.node e.node :=
    fun e he => update_of_ne (hother e he) ..
  have hself : (s.enqueue raw node).node node = some ⟨raw, s.currentFrame, s.delayedQueue⟩ :=
    update_self ..
  refine ⟨⟨rfl, ?_⟩, fun e he => ?_⟩
  · rw [nextDelayed, hself, Option.bind_some]
    refine h.linked.congr fun n hn => ?_
    obtain ⟨e, he, rfl⟩ := List.mem_map.mp hn
    rw [nextDelayed, nextDelayed, hnode e he]
  · rcases List.mem_cons.mp he with rfl | he
    · rw [nextDelayed, hself]
      rfl
    · rw [nextDelayed, hnode e he]
      exact h.allocated e he

/-- The place behind `kept` holds the link to the rest of the queue. -/
theorem DelayedList.load (h : s.DelayedList (kept ++ rest)) :
    s.loadDelayed (kept.map Entry.node).getLast? = some (rest.map Entry.node).head? := by
  have hlinked := h.linked
  rw [List.map_append] at hlinked
  rw [← hlinked.load_eq, List.getLast?_map]
  cases hlast : kept.getLast? with
  | none => rfl
  | some e =>
      have hnode := h.allocated e (List.mem_append_left _ (List.mem_of_getLast? hlast))
      simp [loadDelayed, hnode]

/-- The state after the loop has taken `e`, whose link is at `current`, off the queue. -/
def reclaim (s : State) (current : Option ℕ) (e : Entry) : State :=
  let s := (((s.storeDelayed current (s.nextDelayed e.node)).libcFree e.ptr).emit
    (.reclaimed e.ptr)).freeNode e.node
  { s with delayedCount := decrement s.delayedCount }

theorem exists_storeDelayed_eq (s : State) (current link : Option ℕ) :
    ∃ head node, s.storeDelayed current link = { s with delayedQueue := head, node := node } := by
  cases current with
  | none => exact ⟨link, s.node, rfl⟩
  | some p => exact ⟨s.delayedQueue, _, rfl⟩

/-- What `reclaim` does apart from the links. -/
theorem exists_reclaim_eq (s : State) (current : Option ℕ) (e : Entry) :
    ∃ head node, s.reclaim current e =
      { s with
        block := update s.block e.ptr none
        log := .reclaimed e.ptr :: s.log
        delayedQueue := head
        delayedCount := decrement s.delayedCount
        node := node } := by
  obtain ⟨head, node, hstore⟩ := s.exists_storeDelayed_eq current (s.nextDelayed e.node)
  refine ⟨head, update node e.node none, ?_⟩
  rw [reclaim, hstore]
  rfl

theorem delayedQueue_reclaim {current : Option ℕ} : (s.reclaim current e).delayedQueue =
    if current = none then s.nextDelayed e.node else s.delayedQueue := by
  cases current <;> simp [reclaim, freeNode, emit, libcFree, storeDelayed]

theorem nextDelayed_reclaim {current : Option ℕ} (hcurrent : ∀ n, current = some n → s.node n ≠ none)
    {n : ℕ} (hn : n ≠ e.node) :
    (s.reclaim current e).nextDelayed n =
      if current = some n then s.nextDelayed e.node else s.nextDelayed n := by
  cases current with
  | none => simp [reclaim, nextDelayed, freeNode, emit, libcFree, storeDelayed, update_of_ne hn]
  | some p =>
      simp only [reclaim, nextDelayed, freeNode, emit, libcFree, storeDelayed, update_of_ne hn,
        Option.some.injEq]
      by_cases hpn : p = n
      · subst hpn
        obtain ⟨d, hd⟩ := Option.ne_none_iff_exists'.mp (hcurrent p rfl)
        simp [hd]
      · rw [update_of_ne (Ne.symm hpn), if_neg hpn]

theorem node_reclaim {current : Option ℕ} {n : ℕ} (hn : n ≠ e.node) :
    (s.reclaim current e).node n =
      (s.node n).map fun d => { d with next := (s.reclaim current e).nextDelayed n } := by
  cases current with
  | none =>
      simp only [reclaim, nextDelayed, freeNode, emit, libcFree, storeDelayed, update_of_ne hn]
      cases s.node n <;> rfl
  | some p =>
      simp only [reclaim, nextDelayed, freeNode, emit, libcFree, storeDelayed, update_of_ne hn]
      by_cases hpn : n = p
      · subst hpn
        rw [update_self]
        cases s.node n <;> rfl
      · rw [update_of_ne hpn]
        cases s.node n <;> rfl

/-- An entry is taken off the queue by writing the link that leads to it. -/
theorem DelayedList.reclaim (h : s.DelayedList (kept ++ e :: rest)) :
    (s.reclaim (kept.map Entry.node).getLast? e).DelayedList (kept ++ rest) := by
  have hnodup := h.nodup
  rw [List.map_append, List.map_cons, List.nodup_middle, List.nodup_cons, ← List.map_append] at hnodup
  have hother : ∀ e' ∈ kept ++ rest, e'.node ≠ e.node := by
    intro e' he' heq
    exact hnodup.1 (heq ▸ List.mem_map_of_mem he')
  have hmem : ∀ e' ∈ kept ++ rest, e' ∈ kept ++ e :: rest := by
    intro e' he'
    rcases List.mem_append.mp he' with hkept | hrest
    · exact List.mem_append_left _ hkept
    · exact List.mem_append_right _ (List.mem_cons_of_mem _ hrest)
  have hcurrent : ∀ n, (kept.map Entry.node).getLast? = some n → s.node n ≠ none := by
    intro n hn
    obtain ⟨e', he', rfl⟩ := List.mem_map.mp (List.mem_of_getLast? hn)
    simp [h.allocated e' (List.mem_append_left _ he')]
  have hlinked := h.linked
  rw [List.map_append, List.map_cons] at hlinked
  refine ⟨?_, fun e' he' => ?_⟩
  · rw [List.map_append]
    refine hlinked.store ?_ fun n hn => ?_
    · exact delayedQueue_reclaim
    · rw [← List.map_append] at hn
      obtain ⟨e', he', rfl⟩ := List.mem_map.mp hn
      exact nextDelayed_reclaim hcurrent (hother e' he')
  · rw [node_reclaim (hother e' he'), h.allocated e' (hmem e' he')]
    rfl

/-- The state after the loop has taken `gone` off the queue and left `head` and `node` behind. -/
def swept (s : State) (gone : List Entry) (head : Option ℕ) (node : ℕ → Option DelayedFree) : State :=
  { s with
    block := fun a => if a ∈ gone.map Entry.ptr then none else s.block a
    log := (gone.map fun e => Event.reclaimed e.ptr).reverse ++ s.log
    delayedQueue := head
    delayedCount := decrement^[gone.length] s.delayedCount
    node := node }

theorem swept_nil : s.swept [] s.delayedQueue s.node = s := rfl

theorem swept_reclaim {current head : Option ℕ} {node : ℕ → Option DelayedFree} {gone : List Entry} :
    (s.reclaim current e).swept gone head node = s.swept (e :: gone) head node := by
  obtain ⟨head', node', hreclaim⟩ := s.exists_reclaim_eq current e
  rw [hreclaim]
  simp only [swept, List.map_cons, List.reverse_cons, List.append_assoc, List.singleton_append,
    List.length_cons, Function.iterate_succ_apply, List.mem_cons]
  congr 1
  funext a
  by_cases hmem : a ∈ gone.map Entry.ptr
  · rw [if_pos hmem, if_pos (Or.inr hmem)]
  · by_cases ha : a = e.ptr
    · rw [if_neg hmem, ha, update_self, if_pos (Or.inl rfl)]
    · rw [if_neg hmem, update_of_ne ha, if_neg (by tauto)]

/-- More iterations than needed do not matter. -/
theorem sweepLoop_mono {fuel' : ℕ} {current : Option ℕ} {s' : State}
    (h : sweepLoop fuel current s = some s') (hle : fuel ≤ fuel') :
    sweepLoop fuel' current s = some s' := by
  induction fuel generalizing fuel' current s with
  | zero => simp [sweepLoop] at h
  | succ fuel ih =>
      obtain ⟨fuel', rfl⟩ := Nat.exists_eq_succ_of_ne_zero (by omega : fuel' ≠ 0)
      simp only [sweepLoop, Option.bind_eq_bind, Option.bind_eq_some_iff] at h ⊢
      obtain ⟨link, hlink, hrest⟩ := h
      refine ⟨link, hlink, ?_⟩
      cases link with
      | none => exact hrest
      | some node =>
          simp only [Option.bind_eq_some_iff] at hrest ⊢
          obtain ⟨d, hd, hrest⟩ := hrest
          refine ⟨d, hd, ?_⟩
          by_cases hexpired : s.expired d = true
          · rw [if_pos hexpired] at hrest ⊢
            exact ih hrest (by omega)
          · rw [if_neg hexpired] at hrest ⊢
            exact ih hrest (by omega)

/-- The loop takes the entries that are due off the rest of the queue. -/
theorem sweepLoop_eq (h : s.DelayedList (kept ++ rest)) (hfuel : rest.length < fuel) :
    ∃ head node, sweepLoop fuel (kept.map Entry.node).getLast? s =
        some (s.swept (dueEntries s.currentFrame rest) head node) ∧
      (s.swept (dueEntries s.currentFrame rest) head node).DelayedList
        (kept ++ heldEntries s.currentFrame rest) := by
  induction fuel generalizing s kept rest with
  | zero => omega
  | succ fuel ih =>
      cases rest with
      | nil =>
          refine ⟨s.delayedQueue, s.node, ?_, ?_⟩
          · simp only [sweepLoop, h.load, List.map_nil, List.head?_nil, Option.bind_eq_bind,
              Option.bind_some]
            rfl
          · simpa [dueEntries, heldEntries, swept_nil] using h
      | cons e rest =>
          have hnode := h.allocated e (by simp)
          have hfuel' : rest.length < fuel := by simpa using hfuel
          simp only [sweepLoop, h.load, List.map_cons, List.head?_cons, Option.bind_eq_bind,
            Option.bind_some, hnode]
          by_cases hdue : due s.currentFrame e.frameFreed = true
          · -- the link to the entry now leads to the one behind it
            have hexpired : s.expired ⟨e.ptr, e.frameFreed, s.nextDelayed e.node⟩ = true := hdue
            obtain ⟨head, node, hloop, hlist⟩ := ih h.reclaim hfuel'
            have hframe : (s.reclaim (kept.map Entry.node).getLast? e).currentFrame = s.currentFrame := by
              obtain ⟨_, _, hreclaim⟩ := s.exists_reclaim_eq (kept.map Entry.node).getLast? e
              rw [hreclaim]
            rw [hframe, swept_reclaim] at hloop hlist
            have hgone : dueEntries s.currentFrame (e :: rest) = e :: dueEntries s.currentFrame rest :=
              List.filter_cons_of_pos hdue
            have hheld : heldEntries s.currentFrame (e :: rest) = heldEntries s.currentFrame rest :=
              List.filter_cons_of_neg (by simpa using hdue)
            refine ⟨head, node, ?_, ?_⟩
            · rw [if_pos hexpired, hgone, ← hloop]
              rfl
            · rw [hgone, hheld]
              exact hlist
          · have hexpired : ¬ s.expired ⟨e.ptr, e.frameFreed, s.nextDelayed e.node⟩ = true := hdue
            have happend : s.DelayedList ((kept ++ [e]) ++ rest) := by simpa using h
            obtain ⟨head, node, hloop, hlist⟩ := ih happend hfuel'
            have hgone : dueEntries s.currentFrame (e :: rest) = dueEntries s.currentFrame rest :=
              List.filter_cons_of_neg hdue
            have hheld : heldEntries s.currentFrame (e :: rest) =
                e :: heldEntries s.currentFrame rest :=
              List.filter_cons_of_pos (by simpa using hdue)
            refine ⟨head, node, ?_, ?_⟩
            · rw [if_neg hexpired, hgone, ← hloop]
              simp
            · rw [hgone, hheld]
              simpa using hlist

/-- More iterations than needed do not matter. -/
theorem shutdownLoop_mono {fuel' : ℕ} {head : Option ℕ} {s' : State}
    (h : shutdownLoop fuel head s = some s') (hle : fuel ≤ fuel') :
    shutdownLoop fuel' head s = some s' := by
  induction fuel generalizing fuel' head s with
  | zero => simp [shutdownLoop] at h
  | succ fuel ih =>
      obtain ⟨fuel', rfl⟩ := Nat.exists_eq_succ_of_ne_zero (by omega : fuel' ≠ 0)
      cases head with
      | none => exact h
      | some node =>
          simp only [shutdownLoop, Option.bind_eq_bind, Option.bind_eq_some_iff] at h ⊢
          obtain ⟨d, hd, hrest⟩ := h
          exact ⟨d, hd, ih hrest (by omega)⟩

/-- The loop of `lgx_memory_safety_shutdown` frees the nodes of the queue, and nothing else. -/
theorem shutdownLoop_eq {head : Option ℕ} (hlinked : Linked s.nextDelayed head (queue.map Entry.node))
    (hnode : ∀ e ∈ queue, s.node e.node ≠ none) (hfuel : queue.length < fuel) :
    shutdownLoop fuel head s =
      some { s with node := fun n => if n ∈ queue.map Entry.node then none else s.node n } := by
  induction queue generalizing s head fuel with
  | nil =>
      obtain ⟨fuel, rfl⟩ := Nat.exists_eq_succ_of_ne_zero (by omega : fuel ≠ 0)
      rw [List.map_nil, Linked.nil_iff] at hlinked
      simp [shutdownLoop, hlinked]
  | cons e queue ih =>
      obtain ⟨fuel, rfl⟩ := Nat.exists_eq_succ_of_ne_zero (by omega : fuel ≠ 0)
      have hnodup := hlinked.nodup
      rw [List.map_cons, List.nodup_cons] at hnodup
      rw [List.map_cons, Linked.cons_iff] at hlinked
      obtain ⟨d, hd⟩ := Option.ne_none_iff_exists'.mp (hnode e (List.mem_cons_self ..))
      have hother : ∀ n ∈ queue.map Entry.node, n ≠ e.node := fun n hn heq => hnodup.1 (heq ▸ hn)
      have hrest : Linked (s.freeNode e.node).nextDelayed d.next (queue.map Entry.node) := by
        have htail := hlinked.2
        rw [nextDelayed, hd, Option.bind_some] at htail
        refine htail.congr fun n hn => ?_
        simp only [nextDelayed, freeNode, update_of_ne (hother n hn)]
      have hnode' : ∀ e' ∈ queue, (s.freeNode e.node).node e'.node ≠ none := by
        intro e' he'
        simp only [freeNode, update_of_ne (hother e'.node (List.mem_map_of_mem he'))]
        exact hnode e' (List.mem_cons_of_mem _ he')
      simp only [shutdownLoop, hlinked.1, hd, Option.bind_eq_bind, Option.bind_some]
      rw [ih hrest hnode' (by simpa using hfuel)]
      simp only [freeNode, List.map_cons, List.mem_cons]
      congr 2
      funext n
      by_cases hn : n = e.node
      · simp [hn]
      · simp [hn]

end State

end LgxRuntime.MemorySafety
