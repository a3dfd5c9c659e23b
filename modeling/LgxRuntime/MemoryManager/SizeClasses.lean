import LgxRuntime.MemoryManager.OwnershipRun

/-!
# Size classes

A request is rounded up to a size class, and any block that the slots or the pool of that class hold may
serve it.  So these blocks need room for the whole class.  `lgx_memory_manager_free` rounds the usable
size of a block *up* to a class as well, and a block whose usable size lies strictly between two classes
ends up in a class that it has no room for.
-/

namespace LgxRuntime.MemoryManager

open Function (update update_self update_of_ne)
open BlockLog (Event live held usable lastEvent Roomy)
open State (CacheOutcome Prewarm allBlocks)

/-! ## Rounding to a class -/

theorem getSizeClassIndex_spec {size c : ℕ} (h : getSizeClassIndex size = some c) :
    ∃ hlt : c < sizeClasses.length, size ≤ sizeClasses[c] ∧
      ∀ j (hj : j < c), ¬ size ≤ sizeClasses[j] := by
  obtain ⟨hlt, hle, hfirst⟩ := List.findIdx?_eq_some_iff_getElem.mp h
  exact ⟨hlt, by simpa using hle, fun j hj => by simpa using hfirst j hj⟩

theorem classSize_eq_getElem {c : ℕ} (h : c < sizeClasses.length) : classSize c = sizeClasses[c] := by
  rw [classSize, List.getD_eq_getElem?_getD, List.getElem?_eq_getElem h, Option.getD_some]

theorem le_classSize {size c : ℕ} (h : getSizeClassIndex size = some c) : size ≤ classSize c := by
  obtain ⟨hlt, hle, -⟩ := getSizeClassIndex_spec h
  rwa [classSize_eq_getElem hlt]

/-- Rounding up stays below a size only if the size is a class size. -/
theorem classSize_le_iff {size c : ℕ} (h : getSizeClassIndex size = some c) :
    classSize c ≤ size ↔ size ∈ sizeClasses := by
  obtain ⟨hlt, hle, hfirst⟩ := getSizeClassIndex_spec h
  rw [classSize_eq_getElem hlt]
  constructor
  · intro hge
    rw [le_antisymm hle hge]
    exact List.getElem_mem hlt
  · intro hmem
    obtain ⟨j, hj, rfl⟩ := List.getElem_of_mem hmem
    have hcj : c ≤ j := by
      by_contra hlt'
      exact hfirst j (not_le.mp hlt') le_rfl
    have hsorted : sizeClasses.Pairwise (· ≤ ·) := by decide
    exact hsorted.rel_get_of_le (show (⟨c, hlt⟩ : Fin _) ≤ ⟨j, hj⟩ from hcj)

variable {Thread : Type}

/-! ## The invariant -/

/-- What a thread in the middle of a push or a pop relies on. -/
def PcSized (room : ℕ → ℕ) : Pc → Prop
  | .popLoad size c _ => size ≤ classSize c
  | .popNext size c _ _ => size ≤ classSize c
  | .popCas size c _ _ _ => size ≤ classSize c
  | .popClear size ptr => size ≤ room ptr
  | .pushLoad c ptr => classSize c ≤ room ptr
  | .pushCas c ptr _ => classSize c ≤ room ptr
  | _ => True

theorem PcSized.congr {room room' : ℕ → ℕ} {pc : Pc} (h : PcSized room pc)
    (hroom : ∀ p, pc.carries = some p → room' p = room p) : PcSized room' pc := by
  cases pc with
  | idle | small | refused | popLoad | popNext | popCas => exact h
  | popClear size ptr => exact h.trans_eq (hroom ptr rfl).symm
  | pushLoad c ptr => exact h.trans_eq (hroom ptr rfl).symm
  | pushCas c ptr head => exact h.trans_eq (hroom ptr rfl).symm

/-- The blocks that may serve a later request: `stack c` lists pool `c`. -/
inductive Kept (s : State Thread) (stack : ℕ → List ℕ) (p : ℕ) : Prop
  | slot {t : Thread} {c : ℕ} (hp : p ∈ s.slotsOf t c)
  | pool {c : ℕ} (hp : p ∈ stack c)
  | flight {t : Thread} (hp : (s.pc t).carries = some p)
  | table {t : Thread} {hotClass i : ℕ} (hclass : hotClass < hotPathSizeClasses)
      (hp : (s.tableOf t hotClass)[i]? = some p) (hnext : s.nextFreeOf t hotClass ≤ i)

theorem Owned.held_of_kept {s : State Thread} {place : ℕ → Option (Place Thread)} {stack : ℕ → List ℕ}
    (h : Owned s place stack) {p : ℕ} (hp : Kept s stack p) : p ∈ held s.log := by
  cases hp with
  | slot hp => exact h.held_of_place p (by simp [h.slots_place _ _ p hp])
  | pool hp => exact h.held_of_place p (by simp [h.stack_place _ p hp])
  | flight hp => exact h.held_of_place p (by simp [h.carried _ p hp])
  | table hclass hp hnext =>
      have hlast := h.untouched _ _ hclass _ p hp hnext
      exact (h.atHome _ p (mem_allBlocks.mpr ⟨_, hclass, List.mem_of_getElem? hp⟩) (Or.inl hlast)).2

/-- Every block that may serve a later request has room for the class it would serve, and every request
so far was served by a block with room for it. -/
structure Sized (s : State Thread) (stack : ℕ → List ℕ) : Prop where
  roomy : Roomy s.log
  slots : ∀ t c, ∀ p ∈ s.slotsOf t c, classSize c ≤ usable s.log p
  pools : ∀ c, ∀ p ∈ stack c, classSize c ≤ usable s.log p
  pcs : ∀ t, PcSized (usable s.log) (s.pc t)
  table : ∀ t, ∀ hotClass < hotPathSizeClasses, ∀ i p, (s.tableOf t hotClass)[i]? = some p →
    s.nextFreeOf t hotClass ≤ i → hotPathSize hotClass ≤ usable s.log p

/-- A hot path counter that no longer fits 32 bits points at a block with room for `size` bytes, or at
none. -/
def WrapsRoomy (s : State Thread) (t : Thread) (size : ℕ) : Prop :=
  ∀ hotClass, getHotPathSizeClass size = some hotClass → 2 ^ 32 ≤ s.nextFreeOf t hotClass →
    ∀ p, (s.tableOf t hotClass)[s.nextFreeOf t hotClass % 2 ^ 32]? = some p → size ≤ usable s.log p

/-- The steps that keep the blocks in classes that they have room for.
* A hot path counter that has wrapped in 32 bits does not come back to an address that `malloc` has
  handed out with less room since.
* A block that is freed is in the hot path table of the thread, or its usable size is a class size or
  beyond the classes, or the thread has no cache. -/
def Classed (s : State Thread) : Action Thread → Prop
  | .alloc t size _ _ => WrapsRoomy s t size
  | .free t p outcome => p ∈ s.table t ∨ usable s.log p ∈ sizeClasses ∨ maxSmallSize < usable s.log p ∨
      s.cache t = none ∧ ∀ w, outcome ≠ .created w
  | _ => True

/-- A block that goes to the slots or to a pool has room for its class. -/
theorem Classed.room [DecidableEq Thread] {s : State Thread} {t : Thread} {p c : ℕ}
    {outcome : CacheOutcome} {cache : ThreadCache} (h : Classed s (.free t p outcome))
    (hfound : ((s.emit (.returned t p)).getThreadCache t outcome).1 = some cache)
    (hhot : p ∉ allBlocks cache.hotPath.preallocatedBlocks)
    (hclass : getSizeClassIndex (usable s.log p) = some c) : classSize c ≤ usable s.log p := by
  have hcache : (s.emit (.returned t p)).cache t = s.cache t := rfl
  rcases h with htable | hmem | hlarge | ⟨hnone, hcreated⟩
  · cases hold : s.cache t with
    | none => simp [State.table, State.tableOf, hold, allBlocks] at htable
    | some cache' =>
        simp only [State.getThreadCache, hcache, hold, Option.some.injEq] at hfound
        rw [State.table_of_cache hold, hfound] at htable
        exact absurd htable hhot
  · exact (classSize_le_iff hclass).mpr hmem
  · obtain ⟨hlt, hle, -⟩ := getSizeClassIndex_spec hclass
    have hbound : ∀ size ∈ sizeClasses, size ≤ maxSmallSize := by decide
    exact absurd (hle.trans (hbound _ (List.getElem_mem hlt))) (not_le.mpr hlarge)
  · cases outcome with
    | unavailable | unregistered => simp [State.getThreadCache, hcache, hnone] at hfound
    | created w => exact absurd rfl (hcreated w)

namespace Sized

variable {s s' : State Thread} {stack : ℕ → List ℕ} {t : Thread} {p : ℕ}

/-- The rooms of the blocks stay, and what comes in has room. -/
theorem change (h : Sized s stack) (hroom : ∀ p, Kept s stack p → usable s'.log p = usable s.log p)
    (hroomy : Roomy s'.log)
    (hslots : ∀ t c, ∀ p ∈ s'.slotsOf t c, p ∈ s.slotsOf t c ∨ classSize c ≤ usable s'.log p)
    (hpcs : ∀ t, s'.pc t = s.pc t ∨ PcSized (usable s'.log) (s'.pc t))
    (htable : ∀ t, ∀ hotClass < hotPathSizeClasses, ∀ i p, (s'.tableOf t hotClass)[i]? = some p →
      s'.nextFreeOf t hotClass ≤ i → (s.tableOf t hotClass)[i]? = some p ∧ s.nextFreeOf t hotClass ≤ i ∨
        hotPathSize hotClass ≤ usable s'.log p) : Sized s' stack := by
  refine ⟨hroomy, fun t c p hp => ?_, fun c p hp => ?_, fun t => ?_, fun t hotClass hclass i p hp hi => ?_⟩
  · obtain hold | hnew := hslots t c p hp
    · rw [hroom p (.slot hold)]
      exact h.slots t c p hold
    · exact hnew
  · rw [hroom p (.pool hp)]
    exact h.pools c p hp
  · obtain hold | hnew := hpcs t
    · rw [hold]
      exact (h.pcs t).congr fun p hp => hroom p (.flight hp)
    · exact hnew
  · obtain ⟨hold, hnext⟩ | hnew := htable t hotClass hclass i p hp hi
    · rw [hroom p (.table hclass hold hnext)]
      exact h.table t hotClass hclass i p hold hnext
    · exact hnew

/-- Heads and links do not matter. -/
theorem congr (h : Sized s stack) (hlog : s'.log = s.log) (hcache : s'.cache = s.cache)
    (hpc : s'.pc = s.pc) : Sized s' stack := by
  obtain ⟨hslots, htable, hnext⟩ := State.views_of_cache hcache
  refine ⟨hlog ▸ h.roomy, ?_, ?_, ?_, ?_⟩
  · rw [hslots, hlog]
    exact h.slots
  · rw [hlog]
    exact h.pools
  · rw [hpc, hlog]
    exact h.pcs
  · rw [htable, hnext, hlog]
    exact h.table

/-- A thread goes on, and may have written heads and links. -/
theorem moveTo [DecidableEq Thread] (h : Sized s stack) (pc : Pc) (hlog : s'.log = s.log)
    (hcache : s'.cache = s.cache) (hpc : s'.pc = update s.pc t pc) (hok : PcSized (usable s.log) pc) :
    Sized s' stack := by
  have h₁ : Sized { s' with pc := s.pc } stack := h.congr hlog hcache rfl
  refine h₁.change (fun _ _ => rfl) (hlog ▸ h.roomy) (fun _ _ _ => Or.inl) (fun t' => ?_)
    fun _ _ _ _ _ hp hi => Or.inl ⟨hp, hi⟩
  rw [hpc, hlog]
  by_cases htt : t' = t
  · subst htt
    exact Or.inr (by simpa using hok)
  · exact Or.inl (by simp [htt])

theorem goto [DecidableEq Thread] (h : Sized s stack) {pc : Pc} (hok : PcSized (usable s.log) pc) :
    Sized (s.goto t pc) stack :=
  h.moveTo pc rfl rfl rfl hok

/-- An event that acquires nothing and grants nothing. -/
theorem emit (h : Sized s stack) {e : Event Thread ℕ} (hroom : usable (e :: s.log) = usable s.log)
    (hroomy : Roomy (e :: s.log)) : Sized (s.emit e) stack :=
  h.change (fun p _ => congrFun hroom p) hroomy (fun _ _ _ => Or.inl) (fun _ => Or.inl rfl)
    fun _ _ _ _ _ hp hi => Or.inl ⟨hp, hi⟩

theorem grant [DecidableEq Thread] (h : Sized s stack) {size : ℕ} (hsize : size ≤ usable s.log p) :
    Sized (s.grant t p size) stack :=
  (h.emit (e := .granted t p size) rfl ⟨hsize, h.roomy⟩).goto trivial

variable [DecidableEq Thread] {place : ℕ → Option (Place Thread)}

theorem grantMalloc (h : Sized s stack) (howned : Owned s place stack) {size request : ℕ}
    {answer : Option (ℕ × ℕ)} {otherwise : Pc} (hanswer : MallocOk s answer request)
    (hsize : size ≤ request) (hpc : PcSized (usable s.log) otherwise) :
    Sized (s.grantMalloc t size answer otherwise) stack := by
  cases answer with
  | none => exact h.goto hpc
  | some answer =>
      obtain ⟨p, room⟩ := answer
      obtain ⟨hfresh, hroom⟩ := hanswer p room rfl
      have h₁ : Sized (s.emit (.acquired t p room)) stack := by
        refine h.change (fun q hq => ?_) h.roomy (fun _ _ _ => Or.inl) (fun _ => Or.inl rfl)
          fun _ _ _ _ _ hp hi => Or.inl ⟨hp, hi⟩
        -- nothing that is kept is fresh
        have hne : p ≠ q := fun heq => hfresh.2.1 (heq ▸ howned.held_of_kept hq)
        exact BlockLog.usable_of_ne hne
      refine h₁.grant (hsize.trans (hroom.trans_eq ?_))
      simp [State.emit, usable]

/-- A cache changes: blocks with room come into its slots, or its counters advance. -/
theorem setCache (h : Sized s stack) {cache cache' : ThreadCache} (hcache : s.cache t = some cache)
    (hslots : ∀ c, ∀ p ∈ cache'.slots c, p ∈ cache.slots c ∨ classSize c ≤ usable s.log p)
    (htable : cache'.hotPath.preallocatedBlocks = cache.hotPath.preallocatedBlocks)
    (hnext : ∀ hotClass, cache.hotPath.nextFree hotClass ≤ cache'.hotPath.nextFree hotClass) :
    Sized (s.setCache t (some cache')) stack := by
  refine h.change (fun _ _ => rfl) h.roomy (fun t' c p hp => ?_) (fun _ => Or.inl rfl)
    fun t' hotClass _ i p hp hi => Or.inl ⟨?_, ?_⟩
  · rw [State.slotsOf_setCache] at hp
    split at hp
    · rename_i htt
      rw [htt, State.slotsOf_of_cache hcache]
      exact hslots c p hp
    · exact Or.inl hp
  · rwa [State.tableOf_setCache_of_eq cache' hcache htable] at hp
  · rw [State.nextFreeOf_setCache] at hi
    split at hi
    · rename_i htt
      rw [htt, State.nextFreeOf_of_cache hcache]
      exact (hnext hotClass).trans hi
    · exact hi

/-- The slots of one class are replaced. -/
theorem setSlots (h : Sized s stack) {cache : ThreadCache} (hcache : s.cache t = some cache) {c : ℕ}
    {l : List ℕ} (hl : ∀ p ∈ l, p ∈ cache.slots c ∨ classSize c ≤ usable s.log p) :
    Sized (s.setCache t (some { cache with slots := update cache.slots c l })) stack := by
  refine h.setCache hcache (fun c' p hp => ?_) rfl fun _ => le_rfl
  by_cases hcc : c' = c
  · subst hcc
    simp only [update_self] at hp
    exact hl p hp
  · simp only [update_of_ne hcc] at hp
    exact Or.inl hp

/-- A hot path counter advances. -/
theorem advance (h : Sized s stack) {cache : ThreadCache} (hcache : s.cache t = some cache)
    (hotClass : ℕ) :
    Sized (s.setCache t (some { cache with
      hotPath := { cache.hotPath with
        nextFree := update cache.hotPath.nextFree hotClass
          (cache.hotPath.nextFree hotClass + 1) } })) stack := by
  refine h.setCache hcache (fun _ _ => Or.inl) rfl fun hotClass' => ?_
  by_cases hcc : hotClass' = hotClass
  · simp [hcc]
  · simp [hcc]

/-- A new table holds blocks of the sizes of its classes. -/
theorem getThreadCache (h : Sized s stack) (howned : Owned s place stack) {outcome : CacheOutcome}
    (ho : OutcomeOk s outcome) : Sized (s.getThreadCache t outcome).2 stack := by
  have hroom : ∀ p, Kept s stack p →
      usable (s.getThreadCache t outcome).2.log p = usable s.log p := fun p hp =>
    (State.getThreadCache_log ho t (howned.held_of_kept hp)).2.1
  unfold State.getThreadCache at hroom ⊢
  cases hcache : s.cache t with
  | some cache => exact h
  | none =>
      rw [hcache] at hroom
      cases outcome with
      | unavailable => exact h
      | unregistered w =>
          exact h.change hroom h.roomy.acquireAll (fun _ _ _ => Or.inl) (fun _ => Or.inl rfl)
            fun _ _ _ _ _ hp hi => Or.inl ⟨hp, hi⟩
      | created w =>
          refine h.change hroom h.roomy.acquireAll (fun t' c p hp => Or.inl ?_) (fun _ => Or.inl rfl)
            fun t' hotClass hclass i p hp hi => ?_
          · rw [State.slotsOf_setCache] at hp
            split at hp
            · simp at hp
            · exact hp
          · rw [State.tableOf_setCache] at hp
            rw [State.nextFreeOf_setCache] at hi
            split at hp
            · have hmem := List.mem_of_getElem? hp
              refine Or.inr ((ho.room hotClass hclass p hmem).trans_eq ?_)
              exact (BlockLog.acquireAll_of_mem (mem_allBlocks.mpr ⟨hotClass, hclass, hmem⟩)).2.symm
            · rename_i htt
              rw [if_neg htt] at hi
              exact Or.inl ⟨hp, hi⟩

/-- The block that a hot path counter points at has room. -/
theorem room_of_counter (h : Sized s stack) (howned : Owned s place stack) {size hotClass : ℕ}
    {outcome : CacheOutcome} (ho : OutcomeOk s outcome) (hwrap : WrapsRoomy s t size)
    (hclass : getHotPathSizeClass size = some hotClass) (p : ℕ)
    (hentry : ((s.getThreadCache t outcome).2.tableOf t hotClass)[
      (s.getThreadCache t outcome).2.nextFreeOf t hotClass % 2 ^ 32]? = some p) :
    size ≤ usable (s.getThreadCache t outcome).2.log p := by
  obtain ⟨hlt, hle⟩ := getHotPathSizeClass_spec hclass
  by_cases hcount : (s.getThreadCache t outcome).2.nextFreeOf t hotClass < 2 ^ 32
  · rw [Nat.mod_eq_of_lt hcount] at hentry
    exact hle.trans ((h.getThreadCache (t := t) howned ho).table t hotClass hlt _ p hentry le_rfl)
  · have hwrapped := not_lt.mp hcount
    have hsame := State.getThreadCache_of_counter ((Nat.two_pow_pos 32).trans_le hwrapped)
    rw [hsame] at hentry hwrapped ⊢
    exact hwrap hotClass hclass hwrapped p hentry

/-- `allocate_ultra_fast`, unless the counter has wrapped to a block without room. -/
theorem allocateUltraFast (h : Sized s stack) (howned : Owned s place stack) {size : ℕ}
    {outcome : CacheOutcome} (ho : OutcomeOk s outcome) (hwrap : WrapsRoomy s t size) :
    Sized (s.allocateUltraFast t size outcome) stack := by
  unfold State.allocateUltraFast
  cases hclass : getHotPathSizeClass size with
  | none => exact h.goto trivial
  | some hotClass =>
      have h₁ := h.getThreadCache (t := t) howned ho
      have hroom := h.room_of_counter howned ho hwrap hclass
      obtain ⟨hcache, -⟩ := s.getThreadCache_frame t outcome
      simp only
      generalize s.getThreadCache t outcome = result at h₁ hroom hcache ⊢
      obtain ⟨found, s₁⟩ := result
      simp only at h₁ hroom hcache ⊢
      cases found with
      | none => exact h₁.goto trivial
      | some cache =>
          rw [State.tableOf_of_cache hcache.symm, State.nextFreeOf_of_cache hcache.symm] at hroom
          have hbump := h₁.advance hcache.symm hotClass
          simp only
          split
          · exact hbump.goto trivial
          · cases hentry : (cache.hotPath.preallocatedBlocks hotClass)[
                cache.hotPath.nextFree hotClass % 2 ^ 32]? with
            | none => exact hbump.goto trivial
            | some p => exact hbump.grant (hroom p hentry)

/-- `allocate_small`. -/
theorem allocateSmall (h : Sized s stack) (howned : Owned s place stack) {size : ℕ} {again chaos : Bool}
    {outcome : CacheOutcome} {answer : Option (ℕ × ℕ)} (ho : OutcomeOk s outcome)
    (hanswer : MallocOk (s.getThreadCache t outcome).2 answer size) :
    Sized (s.allocateSmall t size again chaos outcome answer) stack := by
  have hanswer₀ := hanswer.of_getThreadCache ho
  unfold State.allocateSmall
  split
  · exact h.goto trivial
  cases hclass : getSizeClassIndex size with
  | none => exact h.grantMalloc howned hanswer₀ le_rfl trivial
  | some c =>
      have h₁ := h.getThreadCache (t := t) howned ho
      have howned₁ := howned.getThreadCache (t := t) ho
      obtain ⟨hcache, -⟩ := s.getThreadCache_frame t outcome
      simp only
      generalize s.getThreadCache t outcome = result at h₁ howned₁ hanswer hcache ⊢
      obtain ⟨found, s₁⟩ := result
      simp only at h₁ howned₁ hanswer hcache ⊢
      cases found with
      | none => exact h₁.grantMalloc howned₁ hanswer le_rfl trivial
      | some cache =>
          simp only
          cases hslots : cache.slots c with
          | nil => exact h₁.goto (le_classSize hclass)
          | cons p rest =>
              have hp : p ∈ s₁.slotsOf t c := by
                rw [State.slotsOf_of_cache hcache.symm, hslots]
                exact List.mem_cons_self ..
              refine (h₁.setSlots hcache.symm fun q hq => Or.inl ?_).grant
                ((le_classSize hclass).trans (h₁.slots t c p hp))
              rw [hslots]
              exact List.mem_cons_of_mem _ hq

/-- `lgx_lockfree_pop` once it has loaded the head. -/
theorem popWith (h : Sized s stack) (howned : Owned s place stack) {size c head : ℕ} {again : Bool}
    {answer : Option (ℕ × ℕ)} (hsize : size ≤ classSize c) (hanswer : MallocOk s answer (classSize c)) :
    Sized (s.popWith t size c again head answer) stack := by
  unfold State.popWith
  split
  · exact h.grantMalloc howned hanswer hsize trivial
  · exact h.goto hsize

/-- `lgx_memory_manager_free`. -/
theorem free (h : Sized s stack) (howned : Owned s place stack) (hlive : p ∈ live s.log)
    {outcome : CacheOutcome} (ho : OutcomeOk s outcome) (hclassed : Classed s (.free t p outcome)) :
    Sized (s.free t p outcome) stack := by
  have hheld := howned.held_of_place p (by simp [(howned.live_iff p).mp hlive])
  have ho₀ := ho.emit_returned t p
  have h₀ : Sized (s.emit (.returned t p)) stack := h.emit rfl h.roomy
  have h₁ := h₀.getThreadCache (t := t) (howned.giveBack hlive) ho₀
  obtain ⟨-, husable, -⟩ := State.getThreadCache_log ho₀ t (p := p) hheld
  obtain ⟨hcache, -⟩ := (s.emit (.returned t p)).getThreadCache_frame t outcome
  have hroom := fun cache c => @Classed.room _ _ s t p c outcome cache hclassed
  unfold State.free
  simp only [(howned.valid p hheld).2, Bool.false_eq_true, if_false]
  generalize (s.emit (.returned t p)).getThreadCache t outcome = result at h₁ husable hcache hroom ⊢
  obtain ⟨found, s₁⟩ := result
  simp only at h₁ husable hcache hroom ⊢
  cases found with
  | none => exact h₁.emit rfl h₁.roomy
  | some cache =>
      simp only
      by_cases hhot : p ∈ allBlocks cache.hotPath.preallocatedBlocks
      · rw [if_pos hhot]
        exact h₁
      rw [if_neg hhot]
      cases hclass : getSizeClassIndex (usable s.log p) with
      | none => exact h₁.emit rfl h₁.roomy
      | some c =>
          have hfit : classSize c ≤ usable s₁.log p := by
            rw [husable]
            exact hroom cache c rfl hhot hclass
          simp only
          split
          · refine h₁.setSlots hcache.symm fun q hq => ?_
            obtain rfl | hq := List.mem_cons.mp hq
            · exact Or.inr hfit
            · exact Or.inl hq
          · exact h₁.moveTo (.pushLoad c p) rfl rfl rfl hfit

/-- The thread writes a link, of which the sizes know nothing. -/
theorem link (h : Sized s stack) {c : ℕ} (hfit : classSize c ≤ usable s.log p) :
    Sized (s.link t c p) stack :=
  h.moveTo (.pushCas c p (s.poolHead c)) rfl rfl rfl hfit

/-- A thread that exits drops its cache. -/
theorem exitThread (h : Sized s stack) : Sized (s.exitThread t) stack := by
  unfold State.exitThread
  cases hcache : s.cache t with
  | none => exact h
  | some cache =>
      set frees := State.slotFrees s.threadPools cache ++ State.hotFrees s.threadPools cache
      have h₁ : Sized (s.setCache t none) stack := by
        refine h.change (fun _ _ => rfl) h.roomy (fun t' c p hp => Or.inl ?_) (fun _ => Or.inl rfl)
          fun t' hotClass _ i p hp hi => Or.inl ?_
        · rw [State.slotsOf_setCache] at hp
          split at hp
          · simp at hp
          · exact hp
        · rw [State.tableOf_setCache] at hp
          rw [State.nextFreeOf_setCache] at hi
          split at hp
          · simp at hp
          · rename_i htt
            exact ⟨hp, by rwa [if_neg htt] at hi⟩
      exact h₁.change (fun p _ => congrFun BlockLog.usable_releaseAll p) h.roomy.releaseAll
        (fun _ _ _ => Or.inl) (fun _ => Or.inl rfl) fun _ _ _ _ _ hp hi => Or.inl ⟨hp, hi⟩

end Sized

/-- One orderly step that keeps the blocks in their classes. -/
theorem Sized.step [DecidableEq Thread] {s s' : State Thread} {place : ℕ → Option (Place Thread)}
    {stack : ℕ → List ℕ} {a : Action Thread} (h : Sized s stack) (howned : Owned s place stack)
    (hadmissible : Admissible s a) (hclassed : Classed s a) (hstep : step s a = some s') :
    Sized s' stack := by
  cases transition_of_step hstep with
  | alloc size outcome answer hpc =>
      unfold State.alloc
      split
      · exact h
      split
      · exact h.allocateUltraFast howned hadmissible.1 hclassed
      · exact h.grantMalloc howned hadmissible.2 le_rfl trivial
  | allocAligned size alignment answer hpc =>
      unfold State.allocAligned
      split
      · exact h
      · exact h.grantMalloc howned hadmissible le_rfl trivial
  | small chaos outcome answer hpc =>
      exact h.allocateSmall howned hadmissible.1 (hadmissible.2 _ _ hpc)
  | retry answer hpc =>
      unfold State.retry
      split
      · exact h.goto trivial
      split
      · exact h.goto trivial
      · exact h.grantMalloc howned (hadmissible _ _ hpc) le_rfl trivial
  | @popLoad t size c again answer hpc =>
      have hsize := h.pcs t
      rw [hpc] at hsize
      exact h.popWith howned hsize (hadmissible _ _ _ hpc)
  | @popNext t size c head again hpc =>
      have hsize := h.pcs t
      rw [hpc] at hsize
      exact h.goto hsize
  | @popCas t size c head next again spurious answer hpc =>
      have hsize := h.pcs t
      rw [hpc] at hsize
      unfold State.popCas
      split
      · rename_i hswap
        have hpos := howned.pcOk t
        rw [hpc] at hpos
        obtain ⟨rest, hrest, -⟩ := howned.stack_eq_cons (hswap.1 ▸ hpos)
        have hmem : head ∈ stack c := by
          rw [hrest, hswap.1]
          exact List.mem_cons_self ..
        have hroom : size ≤ usable s.log head := hsize.trans (h.pools c head hmem)
        exact h.moveTo (.popClear size head) rfl rfl rfl hroom
      · exact h.popWith howned hsize (hadmissible _ _ _ _ _ hpc)
  | @popClear t size p hpc =>
      have hsize := h.pcs t
      rw [hpc] at hsize
      have h₁ : Sized { s with block := update s.block p { s.block p with next := 0 } } stack :=
        h.congr rfl rfl rfl
      exact h₁.grant hsize
  | free p outcome hpc => exact h.free howned hadmissible.1 hadmissible.2 hclassed
  | @pushLoad t c p hpc =>
      have hfit := h.pcs t
      rw [hpc] at hfit
      exact h.link hfit
  | @pushCas t c p head spurious hpc =>
      have hfit := h.pcs t
      rw [hpc] at hfit
      unfold State.pushCas
      split
      · exact h.moveTo .idle rfl rfl rfl trivial
      · exact h.link hfit
  | exit hpc => exact h.exitThread
  | write p contents => exact h.congr rfl rfl rfl

/-! ## Runs -/

/-- The blocks of the slots and of the pools have room for their classes, and every request was served
by a block with room for it. -/
def Fitting (s : State Thread) : Prop :=
  (∀ t c, ∀ p ∈ s.slotsOf t c, classSize c ≤ usable s.log p) ∧
    (∃ stack : ℕ → List ℕ, ∀ c,
      Linked (fun p => toPtr (s.block p).next) (toPtr (s.poolHead c)) (stack c) ∧
        ∀ p ∈ stack c, classSize c ≤ usable s.log p) ∧
    Roomy s.log

theorem Sized.init (threadPools : ℕ) (contents : ℕ → FreeBlock) :
    Sized (MemoryManager.init threadPools contents : State Thread) fun _ => [] := by
  refine ⟨trivial, ?_, by simp, fun _ => trivial, ?_⟩
  · simp [MemoryManager.init, State.slotsOf]
  · simp [MemoryManager.init, State.tableOf]

/-- In every run of orderly steps that keep the blocks in their classes, every block fits. -/
theorem fitting_of_classed [DecidableEq Thread] {s : State Thread}
    (h : Reachable (fun s a => Orderly s a ∧ Classed s a) s) : Fitting s := by
  have hinv : ∃ stack, (∃ place, Owned s place stack) ∧ Sized s stack := by
    induction h with
    | init threadPools contents =>
        exact ⟨_, ⟨_, Owned.init threadPools contents⟩, Sized.init threadPools contents⟩
    | @step s s' a _ hadmissible hok hstep ih =>
        obtain ⟨stack, ⟨place, howned⟩, hsized⟩ := ih
        obtain ⟨stack', howned', hgrow⟩ := howned.step hadmissible hok.1 hstep
        have hsized' := hsized.step howned hadmissible hok.2 hstep
        refine ⟨stack', howned', { hsized' with pools := fun c p hp => ?_ }⟩
        obtain hold | ⟨hlog, t, head, hpc⟩ := hgrow c p hp
        · exact hsized'.pools c p hold
        · -- the thread that pushes `p` knows that it fits
          have hfit := hsized.pcs t
          rw [hpc] at hfit
          rw [hlog]
          exact hfit
  obtain ⟨stack, ⟨place, howned⟩, hsized⟩ := hinv
  exact ⟨hsized.slots, ⟨stack, fun c => ⟨howned.linked c, hsized.pools c⟩⟩, hsized.roomy⟩

/-! ## A block freed on another thread

Thread 0 has allocated 64 bytes and thread 1 frees them. -/

/-- Thread 1 has freed the block. -/
def sampleMoved (slack : ℕ) : State ℕ :=
  (sampleAllocated slack).free 1 firstBlock (.created (samplePrewarm 1 slack))

theorem firstBlock_room (slack : ℕ) : usable (sampleAllocated slack).log firstBlock = 64 + slack := by
  rw [sampleAllocated_log]
  exact ((BlockLog.acquireAll_of_mem (firstBlock_mem slack)).2).trans
    (@samplePrewarm_usable 0 slack 0 0 (by decide) (by decide))

theorem samplePrewarm_one_ok (slack : ℕ) :
    PrewarmOk (sampleAllocated slack) (samplePrewarm 1 slack) := by
  refine samplePrewarm_ok (by decide) (sampleAllocated_threadPools slack) fun p hp => ?_
  rw [sampleAllocated_log] at hp
  obtain hp | hp := BlockLog.mem_held_acquireAll.mp hp
  · obtain ⟨hotClass, hclass, i, hi, rfl⟩ := mem_samplePrewarm.mp hp
    exact (sampleBlock_bounds hclass hi).2
  · simp [held] at hp

theorem firstBlock_notMem (slack : ℕ) : firstBlock ∉ allBlocks (samplePrewarm 1 slack).blocks := by
  intro hmem
  refine ((samplePrewarm_one_ok slack).fresh firstBlock hmem).2.1 ?_
  rw [sampleAllocated_log]
  exact BlockLog.mem_held_acquireAll.mpr (Or.inl (firstBlock_mem slack))

theorem sampleMoved_reachable {condition : State ℕ → Action ℕ → Prop} {slack : ℕ}
    (halloc : condition sampleInit (.alloc 0 64 (.created (samplePrewarm 0 slack)) none))
    (hfree : condition (sampleAllocated slack)
      (.free 1 firstBlock (.created (samplePrewarm 1 slack)))) :
    Reachable condition (sampleMoved slack) := by
  refine .step (.free 1 firstBlock (.created (samplePrewarm 1 slack))) (sampleAllocated_reachable halloc)
    ⟨firstBlock_mem_live slack, samplePrewarm_one_ok slack⟩ hfree ?_
  simp only [step, sampleAllocated_pc]
  rfl

theorem sampleMoved_eq {slack c : ℕ} (hclass : getSizeClassIndex (64 + slack) = some c) :
    sampleMoved slack = (((sampleAllocated slack).emit (.returned 1 firstBlock)).prewarm 1
      (samplePrewarm 1 slack)).setCache 1
        (some ⟨update (fun _ => []) c [firstBlock], (samplePrewarm 1 slack).blocks, fun _ => 0⟩) := by
  have hpools : inThreadPools (sampleAllocated slack).threadPools firstBlock = false := by
    rw [sampleAllocated_threadPools]
    decide
  have hcache : (sampleAllocated slack).cache 1 = none := by
    rw [sampleAllocated_eq]
    simp [State.grant, State.goto, State.emit, State.setCache, State.prewarm, sampleInit, init]
  simp [sampleMoved, State.free, hpools, State.getThreadCache, State.emit, hcache, firstBlock_notMem,
    firstBlock_room, hclass, cacheCapacity, State.setCache, State.prewarm]

theorem sampleMoved_slots {slack c : ℕ} (hclass : getSizeClassIndex (64 + slack) = some c) :
    (sampleMoved slack).slotsOf 1 c = [firstBlock] := by
  rw [sampleMoved_eq hclass, State.slotsOf_setCache]
  simp

theorem sampleMoved_room {slack c : ℕ} (hclass : getSizeClassIndex (64 + slack) = some c) :
    usable (sampleMoved slack).log firstBlock = 64 + slack := by
  rw [sampleMoved_eq hclass, ← firstBlock_room slack]
  exact (BlockLog.acquireAll_of_notMem (firstBlock_notMem slack)).2

/-- A block of 64 usable bytes goes to the slots for 64 bytes. -/
theorem fitting_after_exact_free : (sampleMoved 0).slotsOf 1 3 = [firstBlock] ∧
    Reachable (fun s a => Orderly s a ∧ Classed s a) (sampleMoved 0) ∧ Fitting (sampleMoved 0) := by
  have hreach : Reachable (fun s a => Orderly s a ∧ Classed s a) (sampleMoved 0) := by
    refine sampleMoved_reachable ⟨fun _ _ hcount => ?_, fun _ _ hcount => ?_⟩ ⟨trivial, Or.inr (Or.inl ?_)⟩
    · simp [State.nextFreeOf, sampleInit, init] at hcount
    · simp [State.nextFreeOf, sampleInit, init] at hcount
    · rw [firstBlock_room]
      decide
  exact ⟨sampleMoved_slots (by decide), hreach, fitting_of_classed hreach⟩

/-- A block of 72 usable bytes goes to the slots for 96 bytes. -/
theorem not_fitting_of_round_up :
    ¬ ∀ s : State ℕ, Reachable (fun _ _ => True) s → Fitting s := by
  intro hall
  have hclass : getSizeClassIndex (64 + 8) = some 4 := by decide
  have hfit := (hall (sampleMoved 8) (sampleMoved_reachable trivial trivial)).1 1 4 firstBlock (by
    rw [sampleMoved_slots hclass]
    exact List.mem_singleton_self _)
  rw [sampleMoved_room hclass] at hfit
  exact absurd hfit (by decide)

end LgxRuntime.MemoryManager
