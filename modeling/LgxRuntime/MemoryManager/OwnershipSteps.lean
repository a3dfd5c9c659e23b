import LgxRuntime.MemoryManager.Ownership

/-!
# Every step keeps the ownership of blocks

One lemma for each operation: from a state that agrees with an assignment of blocks to places to one that
agrees with the assignment after the move.  Three of them need a condition.  The hot path counter must
not have wrapped in 32 bits; a compare-and-swap of `lgx_lockfree_pop` must not succeed after its block has
been popped and pushed again; and a thread must not exit while a block of its hot path table is away.
-/

namespace LgxRuntime.MemoryManager

open Function (update update_self update_of_ne)
open BlockLog (Event live held usable lastEvent Safe)
open State (CacheOutcome Prewarm allBlocks)

variable {Thread : Type}

namespace Owned

variable {s s' : State Thread} {place : ℕ → Option (Place Thread)} {stack stack' : ℕ → List ℕ}
variable {p : ℕ} {t : Thread} {y : Option (Place Thread)}

/-! ## Moves -/

theorem flight_unique (hplace : place p = some (.flight t)) :
    ∀ t' ≠ t, place p ≠ some (.flight t') := by
  intro t' htt heq
  rw [hplace] at heq
  exact htt (Place.flight.inj (Option.some.inj heq)).symm

/-- A block changes its place among the manager's own, which leaves no event. -/
theorem moveQuiet (h : Owned s place stack) (hplace : place p ≠ none) (hclient : place p ≠ some .client)
    (hy : y ≠ some .client) (hlog : s'.log = s.log) (hpools : s'.threadPools = s.threadPools)
    (hcache : s'.cache = s.cache) (hslots : SlotsMove s s' p y) (hstack : PoolsMove stack s' stack' p y)
    (hcarried : CarriedMove s s' p y) (hpc : ∀ t, PcOk s'.block (s'.pc t)) :
    Owned s' (update place p y) stack' := by
  have hheld := h.held_of_place p hplace
  obtain ⟨-, htable, hnext⟩ := State.views_of_cache hcache
  refine h.move y [] hlog (by simp) hpools htable (fun t hotClass => (hnext ▸ le_rfl)) hslots hstack
    hcarried hpc ?_ ?_ ?_ ?_ ?_ ?_
  · rw [hlog]
    exact h.safe
  · rw [hlog, h.live_iff]
    exact iff_of_false hclient hy
  · rw [hlog]
    exact fun _ => hheld
  · exact fun _ => h.valid p hheld
  · intro t hotClass hclass i hentry hle
    rw [hnext] at hle
    exact (h.not_untouched hplace hclass hentry hle).elim
  · intro t hmem hhome
    rw [hlog] at hhome
    exact absurd (h.atHome t p hmem hhome).1 hplace

/-- The client gives a block back; for a moment nobody has it. -/
theorem giveBack (h : Owned s place stack) (hlive : p ∈ live s.log) :
    Owned (s.emit (.returned t p)) (update place p none) stack := by
  have hplace := (h.live_iff p).mp hlive
  have hheld := h.held_of_place p (by simp [hplace])
  refine h.move none [.returned t p] rfl (by simp [Event.block]) rfl rfl (fun _ _ => le_rfl)
    (h.slots_keep (by simp [hplace]) rfl) (h.stack_keep (by simp [hplace]) rfl fun _ _ => rfl)
    (fun t' q hq => Or.inl ⟨hq, ?_⟩) h.pcOk h.safe ?_ (by simp) (fun _ => h.valid p hheld) ?_
    fun _ _ _ => ⟨rfl, hheld⟩
  · rintro rfl
    have hflight := h.carried t' q hq
    simp [hplace] at hflight
  · exact iff_of_false (fun hmem => hmem.2 rfl) (by simp)
  · intro t' hotClass hclass i hentry hle
    exact (h.not_untouched (by simp [hplace]) hclass hentry hle).elim

/-- The manager keeps a block that it has just got back, unless it belongs to the table of the
thread. -/
theorem settle (h : Owned s place stack) (hplace : place p = none) (hheld : p ∈ held s.log)
    (hlast : lastEvent s.log p = some (.returned t p)) (htable : p ∉ s.table t)
    (hy : y ≠ some .client) (hlog : s'.log = s.log) (hpools : s'.threadPools = s.threadPools)
    (htables : s'.tableOf = s.tableOf) (hnext : s'.nextFreeOf = s.nextFreeOf)
    (hslots : SlotsMove s s' p y) (hstack : PoolsMove stack s' stack p y)
    (hcarried : CarriedMove s s' p y) (hpc : ∀ t, PcOk s'.block (s'.pc t)) :
    Owned s' (update place p y) stack := by
  refine h.move y [] hlog (by simp) hpools htables (fun t hotClass => (hnext ▸ le_rfl)) hslots hstack
    hcarried hpc ?_ ?_ ?_ ?_ ?_ ?_
  · rw [hlog]
    exact h.safe
  · rw [hlog, h.live_iff, hplace]
    exact iff_of_false (by simp) hy
  · rw [hlog]
    exact fun _ => hheld
  · exact fun _ => h.valid p hheld
  · intro t' hotClass hclass i hentry hle
    rw [hnext] at hle
    obtain ⟨room, hlast'⟩ := h.untouched t' hotClass hclass i p hentry hle
    rw [hlast] at hlast'
    simp at hlast'
  · intro t' hmem hhome
    rw [hlog, AtHome, hlast] at hhome
    rcases hhome with ⟨room, heq⟩ | heq
    · simp at heq
    · obtain rfl : t = t' := (Event.returned.inj (Option.some.inj heq)).1
      exact absurd hmem htable

/-- The manager passes a block that nobody has to `free`. -/
theorem releaseBlock (h : Owned s place stack) (hplace : place p = none) (hheld : p ∈ held s.log)
    (hlast : lastEvent s.log p = some (.returned t p)) :
    Owned (s.emit (.released p)) place stack := by
  have hlive : p ∉ live s.log := by
    rw [h.live_iff, hplace]
    simp
  have hmove : Owned (s.emit (.released p)) (update place p none) stack := by
    refine h.move none [.released p] rfl (by simp [Event.block]) rfl rfl (fun _ _ => le_rfl)
      (h.slots_keep (by simp [hplace]) rfl) (h.stack_keep (by simp [hplace]) rfl fun _ _ => rfl)
      (fun t' q hq => Or.inl ⟨hq, ?_⟩) h.pcOk ⟨hlive, hheld, h.safe⟩ (iff_of_false hlive (by simp))
      (by simp) (fun _ => h.valid p hheld) ?_ fun _ _ hhome => absurd hhome not_atHome_released
    · rintro rfl
      have hflight := h.carried t' q hq
      simp [hplace] at hflight
    · intro t' hotClass hclass i hentry hle
      obtain ⟨room, hlast'⟩ := h.untouched t' hotClass hclass i p hentry hle
      rw [hlast] at hlast'
      simp at hlast'
  rwa [← hplace, Function.update_eq_self] at hmove

/-- A client writes into a block that it has. -/
theorem write (h : Owned s place stack) (hlive : p ∈ live s.log) (contents : FreeBlock) :
    Owned { s with block := update s.block p contents } place stack := by
  have hplace := (h.live_iff p).mp hlive
  refine ⟨h.safe, h.live_iff, h.slots_nodup, h.slots_place, fun c => ?_, h.stack_place, h.carried,
    fun t' => ?_, h.held_of_place, h.valid, h.table_nodup, h.untouched, h.atHome⟩
  · refine (h.linked c).congr fun q hq => ?_
    have hqp : q ≠ p := fun heq => h.notMem_stack (by simp [hplace]) c (heq ▸ hq)
    simp only [update_of_ne hqp]
  · have hold := h.pcOk t'
    cases hat : s.pc t' with
    | pushCas c q head =>
        rw [hat] at hold
        have hflight := h.carried t' q (by rw [hat, Pc.carries])
        have hqp : q ≠ p := by
          rintro rfl
          simp [hplace] at hflight
        simpa [PcOk, update_of_ne hqp] using hold
    | _ =>
        rw [hat] at hold
        exact hold

/-! ## What `cache_destructor` frees -/

theorem mem_slotFrees (h : Owned s place stack) {cache : ThreadCache} (hcache : s.cache t = some cache)
    (hp : p ∈ State.slotFrees s.threadPools cache) : ∃ c, place p = some (.slot t c) := by
  simp only [State.slotFrees, List.mem_filter, List.mem_flatMap, List.mem_reverse] at hp
  obtain ⟨⟨c, -, hmem⟩, -⟩ := hp
  refine ⟨c, h.slots_place t c p ?_⟩
  rwa [State.slotsOf_of_cache hcache]

theorem mem_hotFrees {cache : ThreadCache} (hcache : s.cache t = some cache)
    (hp : p ∈ State.hotFrees s.threadPools cache) :
    p ∈ s.table t ∧ p ∉ State.slotFrees s.threadPools cache := by
  simp only [State.hotFrees, List.mem_filter, decide_eq_true_eq] at hp
  refine ⟨?_, hp.2.2.1⟩
  obtain ⟨hotClass, hclass, hmem⟩ := mem_allBlocks.mp hp.1
  rw [State.table_of_cache hcache]
  exact mem_allBlocks.mpr ⟨hotClass, hclass, List.mem_of_mem_take hmem⟩

/-- `cache_destructor` frees no block twice. -/
theorem nodup_frees (h : Owned s place stack) {cache : ThreadCache} (hcache : s.cache t = some cache) :
    (State.slotFrees s.threadPools cache ++ State.hotFrees s.threadPools cache).Nodup := by
  have hslots := State.slotsOf_of_cache hcache
  refine List.nodup_append'.mpr ⟨?_, ?_, fun q hq hq' => (mem_hotFrees hcache hq').2 hq⟩
  · refine List.Nodup.filter _ (List.nodup_flatMap.mpr ⟨fun c _ => ?_, ?_⟩)
    · rw [List.nodup_reverse, ← hslots]
      exact h.slots_nodup t c
    · refine List.nodup_range.imp fun {c c'} hne q hq hq' => ?_
      rw [List.mem_reverse, ← hslots] at hq hq'
      have hplace := (h.slots_place t c q hq).symm.trans (h.slots_place t c' q hq')
      exact hne (Place.slot.inj (Option.some.inj hplace)).2
  · refine List.Nodup.filter _ ?_
    have hnodup := h.table_nodup t
    rw [State.table_of_cache hcache, allBlocks, List.nodup_flatMap] at hnodup
    refine List.nodup_flatMap.mpr ⟨fun c hc => (hnodup.1 c hc).sublist (List.take_sublist ..), ?_⟩
    exact hnodup.2.imp fun hdisjoint q hq hq' =>
      hdisjoint (List.mem_of_mem_take hq) (List.mem_of_mem_take hq')

end Owned

variable [DecidableEq Thread]

namespace Owned

variable {s s' : State Thread} {place : ℕ → Option (Place Thread)} {stack stack' : ℕ → List ℕ}
variable {p : ℕ} {t : Thread} {y : Option (Place Thread)}

/-! ## What stays -/

theorem carried_goto (h : Owned s place stack) {pc : Pc}
    (hp : ∀ t' ≠ t, place p ≠ some (.flight t')) (hpcs : s'.pc = update s.pc t pc)
    (hpc : ∀ q, pc.carries = some q → q = p ∧ y = some (.flight t)) : CarriedMove s s' p y := by
  intro t' q hq
  rw [hpcs] at hq
  by_cases htt : t' = t
  · subst htt
    rw [update_self] at hq
    exact Or.inr (hpc q hq)
  · rw [update_of_ne htt] at hq
    refine Or.inl ⟨hq, ?_⟩
    rintro rfl
    exact hp t' htt (h.carried t' q hq)

theorem pcOk_goto (h : Owned s place stack) {pc : Pc} (hp : ∀ t' ≠ t, place p ≠ some (.flight t'))
    (hpcs : s'.pc = update s.pc t pc) (hblock : ∀ q ≠ p, s'.block q = s.block q)
    (hpc : PcOk s'.block pc) (t' : Thread) : PcOk s'.block (s'.pc t') := by
  rw [hpcs]
  by_cases htt : t' = t
  · subst htt
    rwa [update_self]
  · rw [update_of_ne htt]
    have hold := h.pcOk t'
    cases hat : s.pc t' with
    | pushCas c q head =>
        rw [hat] at hold
        have hflight := h.carried t' q (by rw [hat, Pc.carries])
        have hqp : q ≠ p := by
          rintro rfl
          exact hp t' htt hflight
        rw [PcOk, hblock q hqp]
        exact hold
    | _ =>
        rw [hat] at hold
        exact hold

/-- A thread that carries nothing goes on. -/
theorem goto (h : Owned s place stack) {pc : Pc} (hpc : pc.carries = none) (hok : PcOk s.block pc) :
    Owned (s.goto t pc) place stack := by
  refine ⟨h.safe, h.live_iff, h.slots_nodup, h.slots_place, h.linked, h.stack_place, fun t' q hq => ?_,
    fun t' => ?_, h.held_of_place, h.valid, h.table_nodup, h.untouched, h.atHome⟩
  · simp only [State.goto] at hq
    by_cases htt : t' = t
    · subst htt
      rw [update_self, hpc] at hq
      simp at hq
    · rw [update_of_ne htt] at hq
      exact h.carried t' q hq
  · simp only [State.goto]
    by_cases htt : t' = t
    · subst htt
      rwa [update_self]
    · rw [update_of_ne htt]
      exact h.pcOk t'

/-! ## Granting a block -/

/-- Return what `malloc` answers. -/
theorem grantMalloc (h : Owned s place stack) {size request : ℕ} {answer : Option (ℕ × ℕ)}
    {otherwise : Pc} (hanswer : MallocOk s answer request) (hcarries : otherwise.carries = none)
    (hok : PcOk s.block otherwise) :
    ∃ place', Owned (s.grantMalloc t size answer otherwise) place' stack := by
  cases answer with
  | none => exact ⟨place, h.goto hcarries hok⟩
  | some answer =>
      obtain ⟨p, room⟩ := answer
      obtain ⟨hfresh, -⟩ := hanswer p room rfl
      have hplace : place p = none := by
        by_contra hne
        exact hfresh.2.1 (h.held_of_place p hne)
      have h₁ : Owned (s.emit (.acquired t p room)) place stack := h.acquire hfresh room
      refine ⟨update place p (some .client), h₁.grant rfl rfl rfl (fun _ _ => le_rfl)
        (h₁.slots_keep (by simp [hplace]) rfl) (h₁.stack_keep (by simp [hplace]) rfl fun _ _ => rfl)
        (h₁.carried_goto (by simp [hplace]) rfl (by simp [Pc.carries]))
        (h₁.pcOk_goto (p := p) (by simp [hplace]) rfl (fun _ _ => rfl) trivial) (by simp [hplace])
        (Set.mem_insert _ _) ?_⟩
      intro t' hotClass hclass i hentry hle
      have hmem : p ∈ s.table t' := mem_allBlocks.mpr ⟨hotClass, hclass, List.mem_of_getElem? hentry⟩
      have hlast := h.untouched t' hotClass hclass i p hentry hle
      exact hfresh.2.1 (h.atHome t' p hmem (Or.inl hlast)).2

/-- The hot path hands out a block of the table that is at home, from a position that the counter has
reached. -/
theorem grantHot (h : Owned s place stack) {cache : ThreadCache} {hotClass size i : ℕ}
    (hcache : s.cache t = some cache) (hclass : hotClass < hotPathSizeClasses)
    (hentry : (cache.hotPath.preallocatedBlocks hotClass)[i]? = some p)
    (hi : i ≤ cache.hotPath.nextFree hotClass) (hhome : AtHome s.log t p) :
    Owned ((s.setCache t (some { cache with
      hotPath := { cache.hotPath with
        nextFree := update cache.hotPath.nextFree hotClass
          (cache.hotPath.nextFree hotClass + 1) } })).grant t p size)
      (update place p (some .client)) stack := by
  have hnext := State.nextFreeOf_of_cache hcache
  have hold : (s.tableOf t hotClass)[i]? = some p := by rw [State.tableOf_of_cache hcache, hentry]
  have hmem : p ∈ s.table t := mem_allBlocks.mpr ⟨hotClass, hclass, List.mem_of_getElem? hold⟩
  obtain ⟨hplace, hheld⟩ := h.atHome t p hmem hhome
  set s' := s.setCache t (some { cache with
    hotPath := { cache.hotPath with
      nextFree := update cache.hotPath.nextFree hotClass (cache.hotPath.nextFree hotClass + 1) } })
    with hs'
  have hnext' : ∀ t' hotClass', s'.nextFreeOf t' hotClass' = if t' = t ∧ hotClass' = hotClass then
      s.nextFreeOf t hotClass + 1 else s.nextFreeOf t' hotClass' := by
    intro t' hotClass'
    rw [hs', State.nextFreeOf_setCache]
    by_cases htt : t' = t
    · subst htt
      by_cases hcc : hotClass' = hotClass
      · subst hcc
        simp [hnext]
      · simp [hnext, hcc]
    · simp [htt]
  have hle : ∀ t' hotClass', s.nextFreeOf t' hotClass' ≤ s'.nextFreeOf t' hotClass' := by
    intro t' hotClass'
    rw [hnext']
    split
    · rename_i heq
      rw [heq.1, heq.2]
      exact Nat.le_succ _
    · exact le_rfl
  refine h.grant rfl rfl (State.tableOf_setCache_of_eq _ hcache rfl) hle
    (h.slots_keep (by simp [hplace]) (State.slotsOf_setCache_of_eq _ hcache rfl))
    (h.stack_keep (by simp [hplace]) rfl fun _ _ => rfl)
    (h.carried_goto (by simp [hplace]) rfl (by simp [Pc.carries]))
    (h.pcOk_goto (p := p) (by simp [hplace]) rfl (fun _ _ => rfl) trivial) (by simp [hplace]) hheld ?_
  -- the position that has just been handed out is the only one of this block
  intro t' hotClass' hclass' j hentry' hj
  replace hj : s'.nextFreeOf t' hotClass' ≤ j := hj
  obtain ⟨room', hlast'⟩ := h.untouched t' hotClass' hclass' j p hentry' ((hle _ _).trans hj)
  rw [AtHome, hlast'] at hhome
  obtain ⟨room, heq⟩ | heq := hhome
  · obtain rfl : t' = t := (Event.acquired.inj (Option.some.inj heq)).1
    obtain ⟨rfl, rfl⟩ := h.table_inj hclass hclass' hold hentry'
    rw [hnext', if_pos ⟨rfl, rfl⟩, hnext] at hj
    omega
  · simp at heq

/-- A block of the slots is granted. -/
theorem grantSlot (h : Owned s place stack) {cache : ThreadCache} {c size : ℕ} {rest : List ℕ}
    (hcache : s.cache t = some cache) (hslots : cache.slots c = p :: rest) :
    Owned ((s.setCache t (some { cache with slots := update cache.slots c rest })).grant t p size)
      (update place p (some .client)) stack := by
  have hold := State.slotsOf_of_cache hcache
  have hplace : place p = some (.slot t c) := h.slots_place t c p (by simp [hold, hslots])
  have hnodup : (p :: rest).Nodup := by
    have := h.slots_nodup t c
    rwa [hold, hslots] at this
  have hheld := h.held_of_place p (by simp [hplace])
  have hnext := State.nextFreeOf_setCache_of_eq { cache with slots := update cache.slots c rest } hcache
    rfl
  set s' := s.setCache t (some { cache with slots := update cache.slots c rest }) with hs'
  refine h.grant rfl rfl (State.tableOf_setCache_of_eq _ hcache rfl) (fun t' hotClass => ?_)
    (fun t' c' => ?_)
    (h.stack_keep (by simp [hplace]) rfl fun _ _ => rfl)
    (h.carried_goto (by simp [hplace]) rfl (by simp [Pc.carries]))
    (h.pcOk_goto (p := p) (by simp [hplace]) rfl (fun _ _ => rfl) trivial) (by simp [hplace]) hheld ?_
  · exact (congrFun (congrFun hnext t') hotClass).ge
  · show (s'.slotsOf t' c').Nodup ∧ ∀ q ∈ s'.slotsOf t' c', _
    rw [hs', State.slotsOf_setSlots hcache]
    split
    · rename_i heq
      obtain ⟨rfl, rfl⟩ := heq
      refine ⟨(List.nodup_cons.mp hnodup).2, fun q hq => Or.inl ⟨by simp [hold, hslots, hq], ?_⟩⟩
      rintro rfl
      exact (List.nodup_cons.mp hnodup).1 hq
    · rename_i hne
      refine ⟨h.slots_nodup t' c', fun q hq => Or.inl ⟨hq, ?_⟩⟩
      rintro rfl
      have hplace' := (h.slots_place t' c' q hq).symm.trans hplace
      obtain ⟨rfl, rfl⟩ := Place.slot.inj (Option.some.inj hplace')
      exact hne ⟨rfl, rfl⟩
  · intro t' hotClass hclass i hentry hle
    exact h.not_untouched (by simp [hplace]) hclass hentry (hnext ▸ hle)

/-! ## The lock-free pools -/

omit [DecidableEq Thread] in
/-- The head of a pool that is not empty, and what it is linked to. -/
theorem stack_eq_cons (h : Owned s place stack) {c : ℕ} (hpos : s.poolHead c ≠ 0) :
    ∃ rest, stack c = s.poolHead c :: rest ∧
      Linked (fun q => toPtr (s.block q).next) (toPtr (s.block (s.poolHead c)).next) rest := by
  have hlinked := h.linked c
  rw [toPtr, if_neg hpos] at hlinked
  cases hstack : stack c with
  | nil =>
      rw [hstack, Linked.nil_iff] at hlinked
      simp at hlinked
  | cons x rest =>
      rw [hstack, Linked.cons_iff] at hlinked
      obtain rfl : s.poolHead c = x := Option.some.inj hlinked.1
      exact ⟨rest, rfl, hlinked.2⟩

/-- A compare-and-swap that finds the head it has loaded, with the link it has read, takes the top
block. -/
theorem popSwap (h : Owned s place stack) {size c head : ℕ} {again : Bool}
    (hpc : s.pc t = .popCas size c again head (s.block head).next) (hhead : s.poolHead c = head) :
    ∃ rest, stack c = head :: rest ∧
      Owned ({ s with poolHead := update s.poolHead c (s.block head).next }.goto t
        (.popClear size head)) (update place head (some (.flight t))) (update stack c rest) := by
  have hpos : head ≠ 0 := by
    have := h.pcOk t
    rwa [hpc] at this
  obtain ⟨rest, hrest, hlinked⟩ := h.stack_eq_cons (hhead ▸ hpos)
  rw [hhead] at hrest hlinked
  have hplace : place head = some (.pool c) := h.stack_place c head (by simp [hrest])
  have hnodup : (head :: rest).Nodup := by
    have := (h.linked c).nodup
    rwa [hrest] at this
  refine ⟨rest, hrest, h.moveQuiet (p := head) (y := some (.flight t)) (by simp [hplace])
    (by simp [hplace]) (by simp) rfl rfl rfl (h.slots_keep (by simp [hplace]) rfl) (fun c' => ?_)
    (h.carried_goto (by simp [hplace]) rfl (by simp [Pc.carries]))
    (h.pcOk_goto (p := head) (by simp [hplace]) rfl (fun _ _ => rfl) trivial)⟩
  simp only [State.goto]
  by_cases hcc : c' = c
  · subst hcc
    rw [update_self, update_self]
    refine ⟨hlinked, fun q hq => Or.inl ⟨by simp [hrest, hq], ?_⟩⟩
    rintro rfl
    exact (List.nodup_cons.mp hnodup).1 hq
  · rw [update_of_ne hcc, update_of_ne hcc]
    refine ⟨h.linked c', fun q hq => Or.inl ⟨hq, ?_⟩⟩
    rintro rfl
    have hplace' := h.stack_place c' q hq
    rw [hplace] at hplace'
    exact hcc (Place.pool.inj (Option.some.inj hplace')).symm

/-- The block that was popped goes to the client. -/
theorem popClear (h : Owned s place stack) {size : ℕ} (hpc : s.pc t = .popClear size p) :
    Owned (s.popClear t size p) (update place p (some .client)) stack := by
  have hplace : place p = some (.flight t) := h.carried t p (by rw [hpc, Pc.carries])
  have hother := flight_unique hplace
  exact h.grant rfl rfl rfl (fun _ _ => le_rfl) (h.slots_keep (by simp [hplace]) rfl)
    (h.stack_keep (by simp [hplace]) rfl fun q hq => update_of_ne hq ..)
    (h.carried_goto hother rfl (by simp [Pc.carries]))
    (h.pcOk_goto hother rfl (fun q hq => update_of_ne hq ..) trivial) (by simp [hplace])
    (h.held_of_place p (by simp [hplace]))
    fun t' hotClass hclass i hentry hle => h.not_untouched (by simp [hplace]) hclass hentry hle

/-- The block that a thread pushes is linked to the head of the pool. -/
theorem link (h : Owned s place stack) (c : ℕ) (hcarries : (s.pc t).carries = some p) :
    Owned (s.link t c p) place stack := by
  have hplace : place p = some (.flight t) := h.carried t p hcarries
  have hother := flight_unique hplace
  have hmove : Owned (s.link t c p) (update place p (place p)) stack := by
    refine h.moveQuiet (by simp [hplace]) (by simp [hplace]) (by simp [hplace]) rfl rfl rfl
      (h.slots_keep (by simp [hplace]) rfl)
      (h.stack_keep (by simp [hplace]) rfl fun q hq => update_of_ne hq ..)
      (h.carried_goto hother rfl ?_) (h.pcOk_goto hother rfl (fun q hq => update_of_ne hq ..) ?_)
    · intro q hq
      exact ⟨(Option.some.inj hq).symm, hplace⟩
    · simp [State.link, State.goto, PcOk]
  rwa [Function.update_eq_self] at hmove

/-- A compare-and-swap that finds the head that the block is linked to puts the block on top. -/
theorem pushSwap (h : Owned s place stack) {c head : ℕ} (hpc : s.pc t = .pushCas c p head)
    (hhead : s.poolHead c = head) :
    Owned ({ s with poolHead := update s.poolHead c p }.goto t .idle)
      (update place p (some (.pool c))) (update stack c (p :: stack c)) := by
  have hplace : place p = some (.flight t) := h.carried t p (by rw [hpc, Pc.carries])
  have hother := flight_unique hplace
  have hpos : p ≠ 0 := (h.valid p (h.held_of_place p (by simp [hplace]))).1
  have hlink : (s.block p).next = head := by
    have := h.pcOk t
    rwa [hpc] at this
  refine h.moveQuiet (by simp [hplace]) (by simp [hplace]) (by simp) rfl rfl rfl
    (h.slots_keep (by simp [hplace]) rfl) (fun c' => ?_) (h.carried_goto hother rfl (by simp [Pc.carries]))
    (h.pcOk_goto hother rfl (fun _ _ => rfl) trivial)
  have hkeep : ∀ {c'}, ∀ q ∈ stack c', q ≠ p := by
    intro c' q hq heq
    exact h.notMem_stack (by simp [hplace]) c' (heq ▸ hq)
  simp only [State.goto]
  by_cases hcc : c' = c
  · subst hcc
    rw [update_self, update_self, toPtr, if_neg hpos, Linked.cons_iff]
    refine ⟨⟨rfl, ?_⟩, fun q hq => ?_⟩
    · simp only [hlink, ← hhead]
      exact h.linked c'
    · rcases List.mem_cons.mp hq with rfl | hq
      · exact Or.inr ⟨rfl, rfl⟩
      · exact Or.inl ⟨hq, hkeep q hq⟩
  · rw [update_of_ne hcc, update_of_ne hcc]
    exact ⟨h.linked c', fun q hq => Or.inl ⟨hq, hkeep q hq⟩⟩

/-! ## Deallocation -/

/-- A block that nobody has goes to the slots of the thread. -/
theorem settleSlot (h : Owned s place stack) (hplace : place p = none) (hheld : p ∈ held s.log)
    (hlast : lastEvent s.log p = some (.returned t p)) (htable : p ∉ s.table t) {cache : ThreadCache}
    (hcache : s.cache t = some cache) (c : ℕ) :
    Owned (s.setCache t (some { cache with slots := update cache.slots c (p :: cache.slots c) }))
      (update place p (some (.slot t c))) stack := by
  have hkeep : SlotsMove s s p (some (.slot t c)) := h.slots_keep (by simp [hplace]) rfl
  have hslots := State.slotsOf_of_cache hcache
  refine h.settle hplace hheld hlast htable (by simp) rfl rfl
    (State.tableOf_setCache_of_eq _ hcache rfl) (State.nextFreeOf_setCache_of_eq _ hcache rfl)
    (fun t' c' => ?_) (h.stack_keep (by simp [hplace]) rfl fun _ _ => rfl)
    (fun t' q hq => Or.inl ⟨hq, ?_⟩) h.pcOk
  · rw [State.slotsOf_setSlots hcache]
    split
    · rename_i heq
      obtain ⟨rfl, rfl⟩ := heq
      rw [← hslots]
      refine ⟨List.nodup_cons.mpr ⟨fun hmem => ?_, (hkeep t' c').1⟩, fun q hq => ?_⟩
      · have hslot := h.slots_place t' c' p hmem
        simp [hplace] at hslot
      · rcases List.mem_cons.mp hq with rfl | hq
        · exact Or.inr ⟨rfl, rfl⟩
        · exact (hkeep t' c').2 q hq
    · exact hkeep t' c'
  · rintro rfl
    have hflight := h.carried t' q hq
    simp [hplace] at hflight

/-- `lgx_memory_manager_free` of a live block. -/
theorem free (h : Owned s place stack) (hlive : p ∈ live s.log) {outcome : CacheOutcome}
    (ho : OutcomeOk s outcome) : ∃ place', Owned (s.free t p outcome) place' stack := by
  have hheld := h.held_of_place p (by simp [(h.live_iff p).mp hlive])
  have h₀ := h.giveBack (t := t) hlive
  have ho₀ := ho.emit_returned t p
  have h₁ := h₀.getThreadCache (t := t) ho₀
  obtain ⟨hlast, -, hheld₁⟩ := State.getThreadCache_log ho₀ t (p := p) hheld
  rw [show lastEvent (s.emit (.returned t p)).log p = some (.returned t p) from
    BlockLog.lastEvent_self] at hlast
  obtain ⟨hcache, -⟩ := (s.emit (.returned t p)).getThreadCache_frame t outcome
  have hplace : update place p none p = none := update_self ..
  unfold State.free
  simp only [(h.valid p hheld).2, Bool.false_eq_true, if_false]
  generalize (s.emit (.returned t p)).getThreadCache t outcome = result at h₁ hlast hheld₁ hcache ⊢
  obtain ⟨found, s₁⟩ := result
  simp only at h₁ hlast hheld₁ hcache ⊢
  cases found with
  | none => exact ⟨_, h₁.releaseBlock hplace hheld₁ hlast⟩
  | some cache =>
      have htable := State.table_of_cache hcache.symm
      simp only
      by_cases hhot : p ∈ allBlocks cache.hotPath.preallocatedBlocks
      · rw [if_pos hhot]
        exact ⟨_, h₁⟩
      rw [if_neg hhot]
      rw [← htable] at hhot
      cases hclass : getSizeClassIndex (usable s.log p) with
      | none => exact ⟨_, h₁.releaseBlock hplace hheld₁ hlast⟩
      | some c =>
          simp only
          split
          · exact ⟨_, h₁.settleSlot hplace hheld₁ hlast hhot hcache.symm c⟩
          · exact ⟨_, h₁.settle (y := some (.flight t)) hplace hheld₁ hlast hhot (by simp)
              rfl rfl rfl rfl (h₁.slots_keep (by simp) rfl)
              (h₁.stack_keep (by simp) rfl fun q hq => update_of_ne hq ..)
              (h₁.carried_goto (by simp) rfl (by simp [Pc.carries]))
              (h₁.pcOk_goto (by simp) rfl (fun q hq => update_of_ne hq ..) trivial)⟩

end Owned

/-! ## The exit of a thread -/

/-- The places after the slots of thread `t` have been emptied. -/
def evict (t : Thread) (place : ℕ → Option (Place Thread)) (p : ℕ) : Option (Place Thread) :=
  match place p with
  | some (.slot t' c) => if t' = t then none else some (.slot t' c)
  | x => x

theorem evict_eq_some_iff {place : ℕ → Option (Place Thread)} {t : Thread} {p : ℕ}
    {x : Place Thread} : evict t place p = some x ↔ place p = some x ∧ ∀ c, x ≠ .slot t c := by
  unfold evict
  split
  · rename_i t' c heq
    rw [heq]
    by_cases htt : t' = t
    · rw [if_pos htt, htt]
      refine iff_of_false (by simp) fun hx => hx.2 c (Option.some.inj hx.1).symm
    · rw [if_neg htt]
      refine (and_iff_left_of_imp fun hx c' heq' => htt ?_).symm
      exact (Place.slot.inj ((Option.some.inj hx).trans heq')).1
  · rename_i hnot
    refine (and_iff_left_of_imp fun hx c heq => hnot t c ?_).symm
    rw [hx, heq]

theorem evict_eq_none {place : ℕ → Option (Place Thread)} {t : Thread} {p : ℕ}
    (hp : place p = none ∨ ∃ c, place p = some (.slot t c)) : evict t place p = none := by
  rcases hp with hp | ⟨c, hp⟩ <;> simp [evict, hp]

namespace Owned

variable {s : State Thread} {place : ℕ → Option (Place Thread)} {stack : ℕ → List ℕ} {t : Thread}

/-- The cache of a thread is dropped: what was in its slots is nowhere. -/
theorem dropCache (h : Owned s place stack) : Owned (s.setCache t none) (evict t place) stack := by
  refine ⟨h.safe, fun q => ?_, fun t' c => ?_, fun t' c q hq => ?_, h.linked, fun c q hq => ?_,
    fun t' q hq => ?_, h.pcOk, fun q hq => ?_, h.valid, fun t' => ?_,
    fun t' hotClass hclass i q hentry hle => ?_, fun t' q hq hhome => ?_⟩
  · rw [evict_eq_some_iff]
    exact (h.live_iff q).trans (and_iff_left (by simp)).symm
  · rw [State.slotsOf_setCache]
    split
    · exact List.nodup_nil
    · exact h.slots_nodup t' c
  · rw [State.slotsOf_setCache] at hq
    split at hq
    · cases hq
    · rename_i htt
      exact evict_eq_some_iff.mpr
        ⟨h.slots_place t' c q hq, fun c' heq => htt (Place.slot.inj heq).1⟩
  · exact evict_eq_some_iff.mpr ⟨h.stack_place c q hq, by simp⟩
  · exact evict_eq_some_iff.mpr ⟨h.carried t' q hq, by simp⟩
  · obtain ⟨x, hx⟩ := Option.ne_none_iff_exists'.mp hq
    refine h.held_of_place q ?_
    rw [(evict_eq_some_iff.mp hx).1]
    exact Option.some_ne_none x
  · rw [State.table_setCache]
    split
    · exact List.nodup_nil
    · exact h.table_nodup t'
  · rw [State.tableOf_setCache] at hentry
    rw [State.nextFreeOf_setCache] at hle
    split at hentry
    · cases hentry
    · rename_i htt
      rw [if_neg htt] at hle
      exact h.untouched t' hotClass hclass i q hentry hle
  · rw [State.table_setCache] at hq
    split at hq
    · cases hq
    · obtain ⟨hplace, hheld⟩ := h.atHome t' q hq hhome
      exact ⟨evict_eq_none (Or.inl hplace), hheld⟩

omit [DecidableEq Thread] in
/-- Blocks that are nowhere are given back to the system. -/
theorem releaseAll (h : Owned s place stack) {frees : List ℕ} (hnodup : frees.Nodup)
    (hfrees : ∀ q ∈ frees, place q = none ∧ q ∈ held s.log)
    (huntouched : ∀ t', ∀ hotClass < hotPathSizeClasses, ∀ i q, (s.tableOf t' hotClass)[i]? = some q →
      s.nextFreeOf t' hotClass ≤ i → q ∉ frees) :
    Owned { s with log := BlockLog.releaseAll frees s.log } place stack := by
  have hlive : ∀ q ∈ frees, q ∉ live s.log := by
    intro q hq
    rw [h.live_iff, (hfrees q hq).1]
    simp
  refine ⟨h.safe.releaseAll hnodup hlive fun q hq => (hfrees q hq).2, fun q => ?_, h.slots_nodup,
    h.slots_place, h.linked, h.stack_place, h.carried, h.pcOk, fun q hq => ?_, fun q hq => ?_,
    h.table_nodup, fun t' hotClass hclass i q hentry hle => ?_, fun t' q hq hhome => ?_⟩
  · rw [BlockLog.live_releaseAll]
    exact h.live_iff q
  · exact BlockLog.mem_held_releaseAll.mpr
      ⟨h.held_of_place q hq, fun hmem => hq (hfrees q hmem).1⟩
  · exact h.valid q (BlockLog.mem_held_releaseAll.mp hq).1
  · obtain ⟨room, hlast⟩ := h.untouched t' hotClass hclass i q hentry hle
    have hnot := huntouched t' hotClass hclass i q hentry hle
    exact ⟨room, (BlockLog.lastEvent_releaseAll_of_notMem hnot).trans hlast⟩
  · have hnot : q ∉ frees := by
      intro hmem
      rw [AtHome, BlockLog.lastEvent_releaseAll_of_mem hmem] at hhome
      simp at hhome
    rw [AtHome, BlockLog.lastEvent_releaseAll_of_notMem hnot] at hhome
    obtain ⟨hplace, hheld⟩ := h.atHome t' q hq hhome
    exact ⟨hplace, BlockLog.mem_held_releaseAll.mpr ⟨hheld, hnot⟩⟩

/-- A thread whose hot path blocks are all at home exits. -/
theorem exitThread (h : Owned s place stack) (hhome : ∀ p ∈ s.table t, AtHome s.log t p) :
    ∃ place', Owned (s.exitThread t) place' stack := by
  unfold State.exitThread
  cases hcache : s.cache t with
  | none => exact ⟨place, h⟩
  | some cache =>
      have hmem : ∀ q ∈ State.slotFrees s.threadPools cache ++ State.hotFrees s.threadPools cache,
          (∃ c, place q = some (.slot t c)) ∨ q ∈ s.table t := by
        intro q hq
        rcases List.mem_append.mp hq with hq | hq
        · exact Or.inl (h.mem_slotFrees hcache hq)
        · exact Or.inr (mem_hotFrees hcache hq).1
      refine ⟨evict t place, (h.dropCache (t := t)).releaseAll (h.nodup_frees hcache)
        (fun q hq => ?_) fun t' hotClass hclass i q hentry hle hq => ?_⟩
      · rcases hmem q hq with ⟨c, hplace⟩ | htable
        · exact ⟨evict_eq_none (Or.inr ⟨c, hplace⟩), h.held_of_place q (by simp [hplace])⟩
        · obtain ⟨hplace, hheld⟩ := h.atHome t q htable (hhome q htable)
          exact ⟨evict_eq_none (Or.inl hplace), hheld⟩
      · rw [State.tableOf_setCache] at hentry
        rw [State.nextFreeOf_setCache] at hle
        split at hentry
        · cases hentry
        rename_i htt
        rw [if_neg htt] at hle
        rcases hmem q hq with ⟨c, hplace⟩ | htable
        · exact h.not_untouched (by simp [hplace]) hclass hentry hle
        · -- the last event cannot name both threads
          obtain ⟨room, hlast⟩ := h.untouched t' hotClass hclass i q hentry hle
          rcases hhome q htable with ⟨room', hlast'⟩ | hlast'
          · rw [hlast] at hlast'
            exact htt (Event.acquired.inj (Option.some.inj hlast')).1
          · rw [hlast] at hlast'
            simp at hlast'

end Owned

end LgxRuntime.MemoryManager
