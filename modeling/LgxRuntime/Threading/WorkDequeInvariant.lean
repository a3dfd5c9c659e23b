import LgxRuntime.Threading.WorkDeque
import Mathlib.Data.List.Induction

/-!
# The jobs in the deque

As long as the race for the last job is not lost, the positions from `top` on hold the jobs that are left,
the one that the owner tries to get included.  A thief that has seen a job at `top` gets this job if `top`
is still the same: the owner cannot take it without a compare-and-swap on `top`, and has no room to
overwrite it.
-/

namespace LgxRuntime.Threading.WorkDeque

open Function (update update_self update_of_ne)
open Ring (slot slot_ne)

variable {Job Thief : Type}

/-- What the owner knows. -/
def OwnerOk (d : Deque Job) : OwnerPc Job → Prop
  | .idle | .popLoad | .popped _ => True
  | .pushLoad _ => d.bottom < 2 ^ 63 - 1
  | .pushWrite _ b => b = d.bottom ∧ d.bottom < 2 ^ 63 - 1
  | .pushStore job b => b = d.bottom ∧ d.bottom < 2 ^ 63 - 1 ∧ d.buffer (d.index b) = some job
  | .popStore b => b = d.bottom - 1
  | .popTop b => b = d.bottom
  | .popRead b t => b = d.bottom ∧ t ≤ d.top
  | .popCas t job => t = d.bottom ∧ t ≤ d.top ∧ job = d.buffer (d.index t)
  | .popFinish t _ => t = d.bottom ∧ d.top = t + 1
  | .popEmpty t => t = d.bottom + 1 ∧ d.top = t

/-- What a thief knows: as long as `top` is the same, the first job is still there. -/
def ThiefOk (t : ℕ) (items : List Job) : ThiefPc Job → Prop
  | .idle | .stealTop | .stolen _ => True
  | .stealBottom t' => t' ≤ t
  | .stealRead t' => t' ≤ t ∧ (t' = t → items ≠ [])
  | .stealCas t' job => t' ≤ t ∧ (t' = t → items ≠ [] ∧ job = items.head?)

/-- The deque holds `items` from position `t` on. -/
structure Rep (d : Deque Job) (owner : OwnerPc Job) (thieves : Thief → ThiefPc Job)
    (pushed returned : List Job) (t : ℕ) (items : List Job) : Prop where
  shape : ∃ k, d.capacity = 2 ^ k
  mask_eq : d.mask = d.capacity - 1
  top_eq : d.top = t
  bottom_eq : d.bottom + owner.reserve = t + items.length
  bound : t + items.length < 2 ^ 63
  slots : ∀ i job, items[i]? = some job → d.buffer (slot d.capacity (t + i)) = some job
  balance : pushed.Perm (returned ++ (owner.hand d ++ items))
  room : pushed.length ≤ returned.length + d.capacity
  owner_ok : OwnerOk d owner
  thief_ok : ∀ thief, ThiefOk t items (thieves thief)

theorem ThiefOk.of_head {t : ℕ} {items items' : List Job} {pc : ThiefPc Job} (h : ThiefOk t items pc)
    (hhead : items ≠ [] → items'.head? = items.head?) : ThiefOk t items' pc := by
  have hne : items ≠ [] → items' ≠ [] := by
    rintro hitems rfl
    have hnone := hhead hitems
    cases items with
    | nil => exact hitems rfl
    | cons job rest => cases hnone
  cases pc with
  | idle | stealTop | stolen result => trivial
  | stealBottom t' => exact h
  | stealRead t' => exact ⟨h.1, fun ht => hne (h.2 ht)⟩
  | stealCas t' job => exact ⟨h.1, fun ht => ⟨hne (h.2 ht).1, (h.2 ht).2.trans (hhead (h.2 ht).1).symm⟩⟩

/-- Once `top` has moved on, no thief gets the job that it has seen. -/
theorem ThiefOk.advance {t : ℕ} {items items' : List Job} {pc : ThiefPc Job} (h : ThiefOk t items pc) :
    ThiefOk (t + 1) items' pc := by
  cases pc with
  | idle | stealTop | stolen result => trivial
  | stealBottom t' =>
      simp only [ThiefOk] at h ⊢
      omega
  | stealRead t' | stealCas t' job =>
      obtain ⟨hle, -⟩ := h
      refine ⟨by omega, fun heq => ?_⟩
      omega

namespace Rep

variable {d : Deque Job} {owner : OwnerPc Job} {thieves : Thief → ThiefPc Job}
  {pushed returned : List Job} {t : ℕ} {items : List Job}

theorem index_eq (h : Rep d owner thieves pushed returned t items) {n : ℕ} (hn : n < 2 ^ 64) :
    d.index n = slot d.capacity n := by
  have hmod : ((n : ℤ) % 2 ^ 64).toNat = n := by omega
  rw [Deque.index, hmod, h.mask_eq, slot]

theorem length_le (h : Rep d owner thieves pushed returned t items) :
    (owner.hand d).length + items.length ≤ d.capacity := by
  have hlength := h.balance.length_eq
  simp only [List.length_append] at hlength
  have hroom := h.room
  omega

/-- The owner moves on without touching the deque. -/
theorem stay (h : Rep d owner thieves pushed returned t items) {owner' : OwnerPc Job}
    (hreserve : owner'.reserve = owner.reserve) (hhand : owner'.hand d = owner.hand d)
    (hok : OwnerOk d owner') : Rep d owner' thieves pushed returned t items :=
  ⟨h.shape, h.mask_eq, h.top_eq, by rw [hreserve]; exact h.bottom_eq, h.bound, h.slots,
    by rw [hhand]; exact h.balance, h.room, hok, h.thief_ok⟩

/-! ### The steps of the owner -/

theorem pushWrite {job : Job} {b : ℤ} (h : Rep d (.pushWrite job b) thieves pushed returned t items) :
    Rep { d with buffer := update d.buffer (d.index b) (some job) } (.pushStore job b) thieves pushed
      returned t items := by
  obtain ⟨rfl, hbound⟩ := h.owner_ok
  have hbottom := h.bottom_eq
  have hlength := h.length_le
  simp only [OwnerPc.reserve, OwnerPc.hand, List.length_singleton] at hbottom hlength
  obtain ⟨k, hk⟩ := h.shape
  have hindex : d.index d.bottom = slot d.capacity (t + items.length) := by
    rw [show d.bottom = ((t + items.length : ℕ) : ℤ) by push_cast; omega]
    exact h.index_eq (by have := h.bound; omega)
  refine ⟨h.shape, h.mask_eq, h.top_eq, h.bottom_eq, h.bound, fun i j hi => ?_, h.balance, h.room,
    ⟨rfl, hbound, ?_⟩, h.thief_ok⟩
  · -- there is room: the slot is not one of those in use
    have hlt : i < items.length := (List.getElem?_eq_some_iff.mp hi).1
    have hne : slot d.capacity (t + i) ≠ d.index d.bottom := by
      rw [hindex, hk]
      exact slot_ne (by omega) (by omega)
    simp only [update_of_ne hne]
    exact h.slots i j hi
  · exact update_self ..

theorem pushStore {job : Job} {b : ℤ} (h : Rep d (.pushStore job b) thieves pushed returned t items) :
    Rep { d with bottom := wrapInt64 (b + 1) } .idle thieves pushed returned t (items ++ [job]) := by
  obtain ⟨rfl, hbound, hjob⟩ := h.owner_ok
  have hbottom := h.bottom_eq
  simp only [OwnerPc.reserve] at hbottom
  have hwrap : wrapInt64 (d.bottom + 1) = d.bottom + 1 := wrapInt64_of_lt (by omega) (by omega)
  have hbuffer : d.buffer (slot d.capacity (t + items.length)) = some job := by
    rw [← h.index_eq (by have := h.bound; omega), ← hjob]
    congr 2
    push_cast
    omega
  refine ⟨h.shape, h.mask_eq, h.top_eq, ?_, ?_, fun i j hi => ?_, ?_, h.room, trivial, fun thief => ?_⟩
  · simp only [OwnerPc.reserve, hwrap, List.length_append, List.length_singleton]
    push_cast
    omega
  · simp only [List.length_append, List.length_singleton]
    omega
  · rw [List.getElem?_append] at hi
    split at hi
    · exact h.slots i j hi
    · rename_i hge
      obtain ⟨hlt, rfl⟩ := List.getElem?_eq_some_iff.mp hi
      obtain rfl : i = items.length := by
        simp only [List.length_singleton] at hlt
        omega
      simpa using hbuffer
  · have hswap : ([job] ++ items).Perm (items ++ [job]) := List.perm_append_comm
    exact h.balance.trans (hswap.append_left returned)
  · refine (h.thief_ok thief).of_head fun hne => ?_
    exact List.head?_append_of_ne_nil _ hne

/-- `bottom` goes down before `top` is loaded. -/
theorem popStore {b : ℤ} (h : Rep d (.popStore b) thieves pushed returned t items) :
    Rep { d with bottom := b } (.popTop b) thieves pushed returned t items := by
  have hb : b = d.bottom - 1 := h.owner_ok
  have hbottom := h.bottom_eq
  simp only [OwnerPc.reserve] at hbottom
  refine ⟨h.shape, h.mask_eq, h.top_eq, ?_, h.bound, h.slots, h.balance, h.room, rfl, h.thief_ok⟩
  simp only [OwnerPc.reserve]
  omega

/-- There are at least two jobs: the last one is the owner's, and no thief has seen it. -/
theorem popTake {b : ℤ} (h : Rep d (.popTop b) thieves pushed returned t items) (hlt : d.top < b) :
    ∃ items', Rep d (.popRead b d.top) thieves pushed returned t items' := by
  obtain rfl : b = d.bottom := h.owner_ok
  have hbottom := h.bottom_eq
  have htop := h.top_eq
  simp only [OwnerPc.reserve] at hbottom
  obtain rfl | ⟨items', job, rfl⟩ := items.eq_nil_or_concat'
  · simp only [List.length_nil] at hbottom
    omega
  simp only [List.length_append, List.length_singleton] at hbottom
  push_cast at hbottom
  have hbound := h.bound
  simp only [List.length_append, List.length_singleton] at hbound
  have hne : d.top ≠ d.bottom := by omega
  have hbuffer : d.buffer (d.index d.bottom) = some job := by
    rw [show d.bottom = ((t + items'.length : ℕ) : ℤ) by push_cast; omega, h.index_eq (by omega)]
    exact h.slots _ _ (by simp)
  refine ⟨items', h.shape, h.mask_eq, h.top_eq, ?_, by omega, fun i j hi => ?_, ?_, h.room,
    ⟨rfl, le_rfl⟩, fun thief => ?_⟩
  · simp only [OwnerPc.reserve, if_neg hne]
    omega
  · have hi' : (items' ++ [job])[i]? = some j := by
      rw [List.getElem?_append_left (List.getElem?_eq_some_iff.mp hi).1]
      exact hi
    exact h.slots i j hi'
  · simp only [OwnerPc.hand, if_neg hne, hbuffer, Option.toList_some]
    have hbalance : pushed.Perm (returned ++ (items' ++ [job])) := h.balance
    have hswap : (items' ++ [job]).Perm ([job] ++ items') := List.perm_append_comm
    exact hbalance.trans (hswap.append_left returned)
  · have hitems : items' ≠ [] := by
      rintro rfl
      simp only [List.length_nil] at hbottom
      omega
    refine (h.thief_ok thief).of_head fun _ => ?_
    exact (List.head?_append_of_ne_nil _ hitems).symm

/-- The load of `top`. -/
theorem popTop {b : ℤ} (h : Rep d (.popTop b) thieves pushed returned t items) :
    ∃ items', Rep d (if d.top ≤ b then .popRead b d.top else .popEmpty d.top) thieves pushed returned t
      items' := by
  obtain rfl : b = d.bottom := h.owner_ok
  rcases lt_trichotomy d.top d.bottom with hlt | heq | hgt
  · rw [if_pos hlt.le]
    exact h.popTake hlt
  · rw [if_pos heq.le]
    refine ⟨items, h.stay ?_ ?_ ⟨rfl, le_rfl⟩⟩
    · simp [OwnerPc.reserve, heq]
    · simp [OwnerPc.hand, heq]
  · rw [if_neg (not_le.mpr hgt)]
    have hbottom := h.bottom_eq
    have htop := h.top_eq
    simp only [OwnerPc.reserve] at hbottom
    exact ⟨items, h.stay rfl rfl ⟨by omega, rfl⟩⟩

/-- The read of the buffer: the job is returned unless it is the last one. -/
theorem popRead {b t' : ℤ} (h : Rep d (.popRead b t') thieves pushed returned t items) :
    let owner' : OwnerPc Job :=
      if t' = b then .popCas t' (d.buffer (d.index b)) else .popped (d.buffer (d.index b))
    Rep d owner' thieves pushed (owner'.result.toList ++ returned) t items := by
  obtain ⟨rfl, hle⟩ := h.owner_ok
  intro owner'
  have hbottom := h.bottom_eq
  have hbalance := h.balance
  by_cases heq : t' = d.bottom
  · have howner : owner' = .popCas t' (d.buffer (d.index d.bottom)) := if_pos heq
    simp only [OwnerPc.reserve, OwnerPc.hand, if_pos heq] at hbottom hbalance
    rw [howner]
    refine ⟨h.shape, h.mask_eq, h.top_eq, hbottom, h.bound, h.slots, hbalance, h.room, ?_, h.thief_ok⟩
    exact ⟨heq, hle, by rw [heq]⟩
  · have howner : owner' = .popped (d.buffer (d.index d.bottom)) := if_neg heq
    simp only [OwnerPc.reserve, OwnerPc.hand, if_neg heq] at hbottom hbalance
    rw [howner]
    refine ⟨h.shape, h.mask_eq, h.top_eq, hbottom, h.bound, h.slots, ?_, ?_, trivial, h.thief_ok⟩
    · refine hbalance.trans ?_
      rw [← List.append_assoc]
      exact List.perm_append_comm.append_right items
    · have hroom := h.room
      simp only [List.length_append]
      omega

/-- The owner wins the race for the last job. -/
theorem popCas {t' : ℤ} {job : Option Job}
    (h : Rep d (.popCas t' job) thieves pushed returned t items) (hwon : d.top = t') :
    Rep { d with top := wrapInt64 (t' + 1) } (.popFinish t' job) thieves pushed returned (t + 1) [] := by
  obtain ⟨hb, hle, rfl⟩ := h.owner_ok
  have hbottom := h.bottom_eq
  have htop := h.top_eq
  have hbound := h.bound
  simp only [OwnerPc.reserve] at hbottom
  have hlength : items.length = 1 := by omega
  obtain ⟨j, rfl⟩ := List.length_eq_one_iff.mp hlength
  have hwrap : wrapInt64 (t' + 1) = t' + 1 := wrapInt64_of_lt (by omega) (by omega)
  have hbuffer : d.buffer (d.index t') = some j := by
    rw [← hwon, htop, h.index_eq (by omega)]
    exact h.slots 0 j rfl
  refine ⟨h.shape, h.mask_eq, ?_, ?_, ?_, ?_, ?_, h.room, ⟨hb, hwrap⟩, fun thief => ?_⟩
  · simp only [hwrap]
    push_cast
    omega
  · simp only [OwnerPc.reserve, List.length_nil]
    push_cast
    omega
  · simpa using hbound
  · intro i j' hi
    cases hi
  · simp only [OwnerPc.hand, hbuffer, Option.toList_some, List.append_nil]
    exact h.balance
  · exact (h.thief_ok thief).advance

theorem popFinish {t' : ℤ} {job : Option Job}
    (h : Rep d (.popFinish t' job) thieves pushed returned t items) :
    Rep { d with bottom := wrapInt64 (t' + 1) } (.popped job) thieves pushed (job.toList ++ returned) t
      items := by
  obtain ⟨hb, htop'⟩ := h.owner_ok
  have hbottom := h.bottom_eq
  have htop := h.top_eq
  have hbound := h.bound
  simp only [OwnerPc.reserve] at hbottom
  have hwrap : wrapInt64 (t' + 1) = t' + 1 := wrapInt64_of_lt (by omega) (by omega)
  refine ⟨h.shape, h.mask_eq, h.top_eq, ?_, h.bound, h.slots, ?_, ?_, trivial, h.thief_ok⟩
  · simp only [OwnerPc.reserve, hwrap]
    omega
  · refine h.balance.trans ?_
    simp only [OwnerPc.hand]
    rw [← List.append_assoc]
    exact List.perm_append_comm.append_right items
  · have hroom := h.room
    simp only [List.length_append]
    omega

theorem popEmpty {t' : ℤ} (h : Rep d (.popEmpty t') thieves pushed returned t items) :
    Rep { d with bottom := t' } (.popped none) thieves pushed returned t items := by
  obtain ⟨hb, -⟩ := h.owner_ok
  have hbottom := h.bottom_eq
  simp only [OwnerPc.reserve] at hbottom
  refine ⟨h.shape, h.mask_eq, h.top_eq, ?_, h.bound, h.slots, h.balance, h.room, trivial, h.thief_ok⟩
  simp only [OwnerPc.reserve]
  omega

/-- One step of the owner that does not lose the race. -/
theorem ownerStep (h : Rep d owner thieves pushed returned t items)
    (hfits : ∀ t' job, owner = .popCas t' job → d.top = t') {d' : Deque Job} {owner' : OwnerPc Job}
    (hstep : ownerStep d owner = some (d', owner')) :
    ∃ t' items', Rep d' owner' thieves pushed (owner'.result.toList ++ returned) t' items' := by
  cases owner with
  | idle => cases hstep
  | pushLoad job =>
      cases hstep
      exact ⟨t, items, h.stay rfl rfl ⟨rfl, h.owner_ok⟩⟩
  | pushWrite job b =>
      cases hstep
      exact ⟨t, items, h.pushWrite⟩
  | pushStore job b =>
      cases hstep
      exact ⟨t, _, h.pushStore⟩
  | popLoad =>
      cases hstep
      have hbottom := h.bottom_eq
      have hbound := h.bound
      simp only [OwnerPc.reserve] at hbottom
      exact ⟨t, items, h.stay rfl rfl (wrapInt64_of_lt (by omega) (by omega))⟩
  | popStore b =>
      cases hstep
      exact ⟨t, items, h.popStore⟩
  | popTop b =>
      cases hstep
      obtain ⟨items', h'⟩ := h.popTop
      refine ⟨t, items', ?_⟩
      split at h'
      · rename_i hle
        rwa [if_pos hle]
      · rename_i hle
        rwa [if_neg hle]
  | popRead b t' =>
      cases hstep
      exact ⟨t, items, h.popRead⟩
  | popCas t' job =>
      have hwon := hfits t' job rfl
      rw [WorkDeque.ownerStep, if_pos hwon] at hstep
      cases hstep
      exact ⟨t + 1, [], h.popCas hwon⟩
  | popFinish t' job =>
      cases hstep
      exact ⟨t, items, h.popFinish⟩
  | popEmpty t' =>
      cases hstep
      exact ⟨t, items, h.popEmpty⟩
  | popped result =>
      cases hstep
      exact ⟨t, items, h.stay rfl rfl trivial⟩

/-! ### The steps of a thief -/

variable [DecidableEq Thief] {thief : Thief}

/-- A thief moves on without touching the deque. -/
theorem setThief (h : Rep d owner thieves pushed returned t items) {pc : ThiefPc Job}
    (hok : ThiefOk t items pc) : Rep d owner (update thieves thief pc) pushed returned t items := by
  refine ⟨h.shape, h.mask_eq, h.top_eq, h.bottom_eq, h.bound, h.slots, h.balance, h.room, h.owner_ok,
    fun other => ?_⟩
  by_cases hother : other = thief
  · rw [hother, update_self]
    exact hok
  · rw [update_of_ne hother]
    exact h.thief_ok other

omit [DecidableEq Thief] in
/-- What the owner knows stays true when a job is stolen. -/
theorem ownerOk_of_steal (h : Rep d owner thieves pushed returned t items) (hne : items ≠ []) :
    OwnerOk { d with top := (t : ℤ) + 1 } owner := by
  have hok := h.owner_ok
  have htop := h.top_eq
  have hbottom := h.bottom_eq
  have hlength := List.length_pos_iff.mpr hne
  cases owner with
  | idle | popLoad | popped result | pushLoad job | pushWrite job b | pushStore job b | popStore b
  | popTop b => exact hok
  | popRead b t' => exact ⟨hok.1, hok.2.trans (by simp only [htop]; omega)⟩
  | popCas t' job => exact ⟨hok.1, hok.2.1.trans (by simp only [htop]; omega), hok.2.2⟩
  | popFinish t' job =>
      obtain ⟨hb, htop'⟩ := hok
      simp only [OwnerPc.reserve] at hbottom
      omega
  | popEmpty t' =>
      obtain ⟨hb, htop'⟩ := hok
      simp only [OwnerPc.reserve] at hbottom
      omega

/-- A thief wins the first job. -/
theorem stealCas {job : Job} {rest : List Job}
    (h : Rep d owner thieves pushed returned t (job :: rest)) :
    Rep { d with top := wrapInt64 ((t : ℤ) + 1) } owner (update thieves thief (.stolen (some job)))
      pushed (job :: returned) (t + 1) rest := by
  have hbottom := h.bottom_eq
  have hbound := h.bound
  have hroom := h.room
  simp only [List.length_cons] at hbottom hbound
  push_cast at hbottom
  have hwrap : wrapInt64 ((t : ℤ) + 1) = (t : ℤ) + 1 := wrapInt64_of_lt (by omega) (by omega)
  rw [hwrap]
  refine ⟨h.shape, h.mask_eq, ?_, ?_, by omega, fun i j hi => ?_, ?_, ?_,
    h.ownerOk_of_steal (List.cons_ne_nil _ _), fun other => ?_⟩
  · push_cast
    rfl
  · push_cast
    omega
  · have hslot := h.slots (i + 1) j (by simpa using hi)
    rwa [show t + (i + 1) = t + 1 + i by omega] at hslot
  · -- the job moves from the front of the deque to what was returned
    have hmove : (returned ++ (owner.hand d ++ job :: rest)).Perm
        (job :: (returned ++ (owner.hand d ++ rest))) := by
      rw [← List.append_assoc, ← List.append_assoc]
      exact List.perm_middle
    exact h.balance.trans hmove
  · simp only [List.length_cons]
    omega
  · by_cases hother : other = thief
    · rw [hother, update_self]
      trivial
    · rw [update_of_ne hother]
      exact (h.thief_ok other).advance

/-- One step of a thief. -/
theorem thiefStep (h : Rep d owner thieves pushed returned t items) {d' : Deque Job}
    {pc' : ThiefPc Job} (hstep : thiefStep d (thieves thief) = some (d', pc')) :
    ∃ t' items', Rep d' owner (update thieves thief pc') pushed (pc'.result.toList ++ returned) t'
      items' := by
  have hok := h.thief_ok thief
  cases hpc : thieves thief with
  | idle =>
      rw [hpc] at hstep
      cases hstep
  | stealTop =>
      rw [hpc] at hstep
      cases hstep
      exact ⟨t, items, h.setThief h.top_eq.le⟩
  | stealBottom t' =>
      rw [hpc] at hstep hok
      cases hstep
      split
      · rename_i hlt
        have hbottom := h.bottom_eq
        refine ⟨t, items, h.setThief ⟨hok, ?_⟩⟩
        rintro rfl rfl
        simp only [List.length_nil] at hbottom
        omega
      · exact ⟨t, items, h.setThief trivial⟩
  | stealRead t' =>
      rw [hpc] at hstep hok
      cases hstep
      refine ⟨t, items, h.setThief ⟨hok.1, ?_⟩⟩
      rintro rfl
      have hbound := h.bound
      refine ⟨hok.2 rfl, ?_⟩
      rw [h.index_eq (by omega)]
      cases items with
      | nil => exact absurd rfl (hok.2 rfl)
      | cons job rest => exact h.slots 0 job rfl
  | stealCas t' job =>
      rw [hpc] at hstep hok
      rw [WorkDeque.thiefStep] at hstep
      split at hstep
      · rename_i hwon
        cases hstep
        obtain rfl : t' = t := hwon.symm.trans h.top_eq
        obtain ⟨hne, rfl⟩ := hok.2 rfl
        cases items with
        | nil => exact absurd rfl hne
        | cons job rest => exact ⟨t + 1, rest, h.stealCas⟩
      · cases hstep
        exact ⟨t, items, h.setThief trivial⟩
  | stolen result =>
      rw [hpc] at hstep
      cases hstep
      exact ⟨t, items, h.setThief trivial⟩

end Rep

/-! ## Runs -/

variable [DecidableEq Thief]

/-- The deque holds some jobs. -/
def Kept (s : State Job Thief) : Prop :=
  ∃ t items, Rep s.deque s.owner s.thieves s.pushed s.returned t items

omit [DecidableEq Thief] in
theorem Kept.init {s : State Job Thief} {capacity : ℕ} (h : Initial s capacity) : Kept s := by
  obtain ⟨cap, hcap, hdeque⟩ := Option.map_eq_some_iff.mp h.deque
  have hshape : ∃ k, cap = 2 ^ k := by
    rcases Nat.eq_zero_or_pos capacity with rfl | hpos
    · exact ⟨0, (Option.some.inj hcap).symm⟩
    · obtain ⟨k, -, hk, -⟩ := Ring.roundUp_spec hpos hcap
      exact ⟨k, hk⟩
  refine ⟨0, [], ?_⟩
  rw [← hdeque, h.owner, h.pushed, h.returned]
  refine ⟨hshape, rfl, rfl, rfl, by simp, ?_, List.Perm.refl _, Nat.zero_le _, trivial, fun thief => ?_⟩
  · intro i job hi
    cases hi
  · rw [h.thieves thief]
    trivial

/-- Every step within the limits keeps the jobs. -/
theorem Kept.step {s s' : State Job Thief} {a : Action Job Thief} (h : Kept s)
    (hallowed : Allowed s a) (hfits : Fits s a) (hstep : step s a = some s') : Kept s' := by
  obtain ⟨t, items, h⟩ := h
  cases a with
  | push job =>
      simp only [WorkDeque.step] at hstep
      split at hstep
      · rename_i howner
        cases hstep
        rw [howner] at h
        refine ⟨t, items, h.shape, h.mask_eq, h.top_eq, h.bottom_eq, h.bound, h.slots, ?_, hallowed, hfits,
          h.thief_ok⟩
        exact (h.balance.cons job).trans List.perm_middle.symm
      · cases hstep
  | pop =>
      simp only [WorkDeque.step] at hstep
      split at hstep
      · rename_i howner
        cases hstep
        rw [howner] at h
        exact ⟨t, items, h.stay rfl rfl trivial⟩
      · cases hstep
  | owner =>
      obtain ⟨⟨d', owner'⟩, howner, rfl⟩ := Option.map_eq_some_iff.mp hstep
      refine h.ownerStep (fun t' job hpc => ?_) howner
      simp only [Fits, hpc] at hfits
      exact hfits
  | steal thief =>
      simp only [WorkDeque.step] at hstep
      split at hstep
      · cases hstep
        exact ⟨t, items, h.setThief trivial⟩
      · cases hstep
  | thief thief =>
      obtain ⟨⟨d', pc'⟩, hthief, rfl⟩ := Option.map_eq_some_iff.mp hstep
      exact h.thiefStep hthief

omit [DecidableEq Thief] in
theorem Kept.subperm {s : State Job Thief} (h : Kept s) : s.returned.Subperm s.pushed := by
  obtain ⟨t, items, h⟩ := h
  refine List.Subperm.trans ?_ h.balance.symm.subperm
  exact (List.sublist_append_left _ _).subperm

omit [DecidableEq Thief] in
/-- Everything was returned if the deque is empty. -/
theorem Kept.perm_of_empty {s : State Job Thief} (h : Kept s) (hempty : s.Empty) :
    s.pushed.Perm s.returned := by
  obtain ⟨t, items, h⟩ := h
  have hbottom := h.bottom_eq
  have htop := h.top_eq
  have hle := hempty.1
  have hnil : items = [] := List.length_eq_zero_iff.mp (by omega)
  have hbalance := h.balance
  rw [hempty.2.1, hnil] at hbalance
  simpa using hbalance

omit [DecidableEq Thief] in
/-- There is room for a job if `bottom` is less than a lap ahead of `top`. -/
theorem Kept.allowed_push {s : State Job Thief} (h : Kept s) (howner : s.owner = .idle)
    (hroom : s.deque.bottom - s.deque.top < s.deque.capacity) (job : Job) : Allowed s (.push job) := by
  obtain ⟨t, items, h⟩ := h
  have hbottom := h.bottom_eq
  have htop := h.top_eq
  have hlength := h.balance.length_eq
  rw [howner] at hbottom hlength
  simp only [OwnerPc.reserve] at hbottom
  simp only [OwnerPc.hand, List.length_append, List.length_nil] at hlength
  simp only [Allowed]
  omega

omit [DecidableEq Thief] in
/-- `lgx_work_deque_pop` returns. -/
theorem Kept.return {s : State Job Thief} (h : Kept s) {result : Option Job}
    (howner : s.owner = .popped result) : Kept { s with owner := .idle } := by
  obtain ⟨t, items, h⟩ := h
  rw [howner] at h
  exact ⟨t, items, h.stay rfl rfl trivial⟩

/-- `lgx_work_deque_steal` returns. -/
theorem Kept.returnThief {s : State Job Thief} (h : Kept s) (thief : Thief) :
    Kept { s with thieves := update s.thieves thief .idle } := by
  obtain ⟨t, items, h⟩ := h
  exact ⟨t, items, h.setThief trivial⟩

theorem FitReachable.kept {s : State Job Thief} (h : FitReachable s) : Kept s := by
  apply Interleaving.Reachable.invariant (I := Kept) h
  · rintro s ⟨capacity, hinit⟩
    exact Kept.init hinit
  · intro s s' a hs hallowed hstep
    exact hs.step hallowed.1 hallowed.2 hstep

/-! ## Retrieval -/

section

variable {s : State Job Thief} {job : Job}

/-- A pop that is not the last one, without interference. -/
theorem run_pop (howner : s.owner = .idle) (hlow : -2 ^ 63 < s.deque.bottom)
    (hhigh : s.deque.bottom < 2 ^ 63) (hlt : s.deque.top < s.deque.bottom - 1)
    (hjob : s.deque.buffer (s.deque.index (s.deque.bottom - 1)) = some job) :
    Interleaving.run step (.pop :: List.replicate 5 .owner) s =
      some
        { s with
          deque := { s.deque with bottom := s.deque.bottom - 1 }
          owner := .idle
          returned := job :: s.returned } := by
  have hwrap : wrapInt64 (s.deque.bottom - 1) = s.deque.bottom - 1 :=
    wrapInt64_of_lt (by omega) (by omega)
  simp only [Deque.index, Int.reducePow] at hjob
  simp [Interleaving.run, List.replicate, step, howner, ownerStep, Deque.index, hwrap, hlt.le, hlt.ne,
    hjob, OwnerPc.result]

/-- A pop of the last job, without interference. -/
theorem run_pop_last (howner : s.owner = .idle) (hlow : -2 ^ 63 < s.deque.bottom)
    (hhigh : s.deque.bottom < 2 ^ 63) (heq : s.deque.top = s.deque.bottom - 1)
    (hjob : s.deque.buffer (s.deque.index (s.deque.bottom - 1)) = some job) :
    Interleaving.run step (.pop :: List.replicate 7 .owner) s =
      some
        { s with
          deque := { s.deque with top := s.deque.bottom }
          owner := .idle
          returned := job :: s.returned } := by
  have hwrap : wrapInt64 (s.deque.bottom - 1) = s.deque.bottom - 1 :=
    wrapInt64_of_lt (by omega) (by omega)
  have hwrap' : wrapInt64 s.deque.bottom = s.deque.bottom := wrapInt64_of_lt (by omega) (by omega)
  simp only [Deque.index, Int.reducePow] at hjob
  simp [Interleaving.run, List.replicate, step, howner, ownerStep, Deque.index, hwrap, hwrap', heq, hjob,
    OwnerPc.result]

/-- The owner takes a job out of a deque that is not empty. -/
theorem Rep.run_pop {t : ℕ} {items : List Job}
    (h : Rep s.deque s.owner s.thieves s.pushed s.returned t (items ++ [job]))
    (hquiet : Quiescent s) : ∃ actions s', (∀ a ∈ actions, a = Action.pop ∨ a = Action.owner) ∧
      Interleaving.run step actions s = some s' ∧ s'.pushed = s.pushed ∧ Quiescent s' ∧
      ∃ t', Rep s'.deque s'.owner s'.thieves s'.pushed s'.returned t' items := by
  obtain ⟨howner, hthieves⟩ := hquiet
  have htop := h.top_eq
  have hbottom := h.bottom_eq
  have hbound := h.bound
  have hroom := h.room
  have hbalance := h.balance
  simp only [howner, OwnerPc.reserve, List.length_append, List.length_singleton] at hbottom hbound
  push_cast at hbottom
  have hjob : s.deque.buffer (s.deque.index (s.deque.bottom - 1)) = some job := by
    rw [show s.deque.bottom - 1 = ((t + items.length : ℕ) : ℤ) by push_cast; omega,
      h.index_eq (by omega)]
    exact h.slots _ _ (by simp)
  have hactions : ∀ n, ∀ a ∈ Action.pop :: List.replicate n Action.owner,
      a = (Action.pop : Action Job Thief) ∨ a = Action.owner := by
    intro n a ha
    rcases List.mem_cons.mp ha with rfl | ha
    · exact Or.inl rfl
    · exact Or.inr (List.eq_of_mem_replicate ha)
  have hslots : ∀ i j, items[i]? = some j → s.deque.buffer (slot s.deque.capacity (t + i)) = some j := by
    intro i j hi
    refine h.slots i j ?_
    rw [List.getElem?_append_left (List.getElem?_eq_some_iff.mp hi).1]
    exact hi
  have hmove : s.pushed.Perm (job :: s.returned ++ ([] ++ items)) := by
    have hlast : (s.returned ++ (items ++ [job])).Perm (job :: (s.returned ++ items)) := by
      rw [← List.append_assoc]
      exact List.perm_append_comm
    rw [howner] at hbalance
    exact hbalance.trans hlast
  have hidle : ∀ thief, ∀ t' items', ThiefOk t' items' (s.thieves thief) := by
    intro thief t' items'
    rw [hthieves thief]
    trivial
  rcases lt_or_eq_of_le (show s.deque.top ≤ s.deque.bottom - 1 by omega) with hlt | heq
  · refine ⟨_, _, hactions 5, WorkDeque.run_pop howner (by omega) (by omega) hlt hjob, rfl,
      ⟨rfl, hthieves⟩, t, h.shape, h.mask_eq, htop, ?_, by omega, hslots, hmove, ?_, trivial,
      fun thief => hidle thief _ _⟩
    · simp only [OwnerPc.reserve]
      omega
    · simp only [List.length_cons]
      omega
  · have hnil : items = [] := List.length_eq_zero_iff.mp (by omega)
    subst hnil
    refine ⟨_, _, hactions 7, run_pop_last howner (by omega) (by omega) heq hjob, rfl,
      ⟨rfl, hthieves⟩, t + 1, h.shape, h.mask_eq, ?_, ?_, by simpa using hbound, ?_, hmove, ?_, trivial,
      fun thief => hidle thief _ _⟩
    · push_cast
      omega
    · simp only [OwnerPc.reserve, List.length_nil]
      push_cast
      omega
    · intro i j hi
      cases hi
    · simp only [List.length_cons]
      omega

end

/-- The owner alone empties the deque. -/
theorem Rep.retrievable {s : State Job Thief} {t : ℕ} {items : List Job}
    (h : Rep s.deque s.owner s.thieves s.pushed s.returned t items) (hquiet : Quiescent s) :
    Retrievable s := by
  induction items using List.reverseRecOn generalizing s t with
  | nil =>
      refine ⟨[], s, ?_, rfl, rfl, ?_⟩
      · intro a ha
        cases ha
      · have hbalance := h.balance
        rw [hquiet.1] at hbalance
        simpa [OwnerPc.hand] using hbalance.symm
  | append_singleton items job ih =>
      obtain ⟨actions, s₁, hactions, hrun, hpushed, hquiet₁, t₁, h₁⟩ := h.run_pop hquiet
      obtain ⟨actions', s₂, hactions', hrun', hpushed', hperm⟩ := ih h₁ hquiet₁
      refine ⟨actions ++ actions', s₂, ?_, Interleaving.run_append hrun hrun', hpushed'.trans hpushed, ?_⟩
      · intro a ha
        exact (List.mem_append.mp ha).elim (hactions a) (hactions' a)
      · rwa [hpushed] at hperm

/-- In a run that never loses the race for the last job and keeps `bottom` below `INT64_MAX`, every job
is returned at most once, and the others can be retrieved. -/
theorem sound_of_fitReachable [DecidableEq Job] {s : State Job Thief} (hreach : FitReachable s) :
    Sound s := by
  have hsub := hreach.kept.subperm
  obtain ⟨t, items, h⟩ := hreach.kept
  exact ⟨fun job hjob => hsub.subset hjob, fun job => hsub.count_le job, h.retrievable⟩

instance (s : State Job Thief) : (a : Action Job Thief) → Decidable (Fits s a)
  | .push _ => inferInstanceAs (Decidable (s.deque.bottom < 2 ^ 63 - 1))
  | .owner =>
      match h : s.owner with
      | .popCas t _ => decidable_of_iff (s.deque.top = t) (by simp only [Fits, h])
      | .idle | .pushLoad _ | .pushWrite _ _ | .pushStore _ _ | .popLoad | .popStore _ | .popTop _
      | .popRead _ _ | .popFinish _ _ | .popEmpty _ | .popped _ =>
          isTrue (by simp only [Fits, h])
  | .pop | .steal _ | .thief _ => inferInstanceAs (Decidable True)

/-- Two jobs are pushed; the first one is stolen and the second one popped. -/
theorem sound_after_steal_and_pop : ∃ s : State ℕ Unit, FitReachable s ∧ s.pushed = [1, 0] ∧
    s.returned = [1, 0] ∧ Sound s := by
  let d : Deque ℕ := { buffer := fun _ => none, top := 0, bottom := 0, capacity := 2, mask := 1 }
  let s₀ : State ℕ Unit :=
    { deque := d, owner := .idle, thieves := fun _ => .idle, pushed := [], returned := [] }
  let owner (n : ℕ) : List (Action ℕ Unit) := List.replicate n .owner
  let actions : List (Action ℕ Unit) :=
    .push 0 :: owner 3 ++ .push 1 :: owner 3 ++ .steal () :: List.replicate 4 (.thief ()) ++
      .pop :: owner 6
  have hresult : (Interleaving.run
      (Interleaving.guarded step fun s a => decide (Allowed s a ∧ Fits s a)) actions s₀).map
      (fun s => (s.pushed, s.returned)) = some ([1, 0], [1, 0]) := by
    decide +kernel
  have hinit : FitReachable s₀ := .init ⟨2, rfl, rfl, fun _ => rfl, rfl, rfl⟩
  obtain ⟨s, hreach, hs⟩ :=
    hinit.exists_of_run_guarded (fun _ _ _ h => of_decide_eq_true h) hresult
  obtain ⟨hpushed, hreturned⟩ := Prod.mk.inj hs
  exact ⟨s, hreach, hpushed, hreturned, sound_of_fitReachable hreach⟩

end LgxRuntime.Threading.WorkDeque
