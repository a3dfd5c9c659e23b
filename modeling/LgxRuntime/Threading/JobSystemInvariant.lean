import LgxRuntime.Threading.JobSystem
import LgxRuntime.Threading.WorkDequeInvariant

/-!
# Every job is at one place

A job that has been submitted and not been called is with a thread, in the ring or in a deque, and at one
of these places only.  As long as `alloc_job` returns an index that is at no place, nobody else writes to
its record, and the thread that gets the index calls the function that was submitted.
-/

namespace LgxRuntime.Threading.JobSystem

open Function (update update_self update_of_ne)
open Interleaving (comp_update comp_update_self apply_update_self forall_update)

variable {n : ℕ} {Client : Type} [DecidableEq Client]

/-- The owner of a deque inside of `lgx_work_deque_push`. -/
def pushes : WorkDeque.OwnerPc ℕ → Bool
  | .pushLoad _ | .pushWrite _ _ | .pushStore _ _ => true
  | _ => false

/-- What a thread knows about the rings, and about the job that it has. -/
def Known (s : State n Client) (content : ℕ → ℕ × ℕ) (t : Thread n Client) : Pc → Prop
  | .submitFill job desc _ => content job = (desc.func, desc.data)
  | .casTail _ tail => tail < s.submitHead
  | .clear _ tail job => s.submitQueue (tail % submitQueueCap) = some job
  | .pushing => ∀ w, t = .worker w → pushes (s.deques w).owner
  | _ => True

/-- What was submitted was called, or is pending.  The record of a job that is pending says what was
submitted, once it is filled. -/
structure Rep (s : State n Client) (pending : List ℕ) (content : ℕ → ℕ × ℕ) : Prop where
  balance : s.submitted.Perm (s.called ++ pending.map content)
  custody : Custody s.Holds pending
  filled : ∀ job ∈ pending, (∀ t desc descs, s.pc t ≠ .submitFill job desc descs) →
    ((s.jobPool job).func, (s.jobPool job).data) = content job
  kept : ∀ w, WorkDeque.Kept (s.deques w)
  once : ∀ w job, (s.deques w).pushed.count job ≤ (s.deques w).returned.count job + 1
  ring : TicketRing submitQueueCap s.submitHead s.submitTail s.submitQueue (fun t => (s.pc t).writes)
    fun t => (s.pc t).reads
  bound : s.submitHead < 2 ^ 64
  known : ∀ t, Known s content t (s.pc t)

/-- What is pending after the next step of a thread. -/
def pendingAfter (pending : List ℕ) (head : ℕ) : Pc → List ℕ
  | .submitAlloc _ _ => head % jobPoolCapacity :: pending
  | .call _ job => pending.erase job
  | _ => pending

namespace Rep

variable {s : State n Client} {pending : List ℕ} {content : ℕ → ℕ × ℕ} {t : Thread n Client} {pc' : Pc}

omit [DecidableEq Client] in
/-- The record of a job that a thread has, and has filled, says what was submitted. -/
theorem content_eq (h : Rep s pending content) {job : ℕ} (hhand : (s.pc t).hand = some job)
    (hpc : ∀ desc descs, s.pc t ≠ .submitFill job desc descs) :
    ((s.jobPool job).func, (s.jobPool job).data) = content job := by
  have hplace : s.Holds job (.thread t) := hhand
  refine h.filled job (h.custody.mem hplace) fun u desc descs hu => ?_
  have hplace' : s.Holds job (.thread u) := by
    simp only [State.Holds, hu, Pc.hand]
  obtain rfl : t = u := Place.thread.inj (h.custody.unique job _ _ hplace hplace')
  exact hpc desc descs hu

/-- What the other threads know does not change. -/
theorem known_update (h : Rep s pending content) {s' : State n Client} {content' : ℕ → ℕ × ℕ}
    (hpc : s'.pc = update s.pc t pc') (hother : ∀ u, u ≠ t → Known s content u (s.pc u) →
      Known s' content' u (s.pc u)) (hself : Known s' content' t pc') :
    ∀ u, Known s' content' u (s'.pc u) := by
  rw [hpc]
  exact forall_update (P := Known s content) (Q := Known s' content') h.known hother hself

/-- The jobs that were filled are so after a thread has moved on that is not at `submitFill`. -/
theorem filled_update (h : Rep s pending content)
    (hfill : ∀ job desc descs, s.pc t ≠ .submitFill job desc descs) (job : ℕ) (hjob : job ∈ pending)
    (hnot : ∀ u desc descs, update s.pc t pc' u ≠ .submitFill job desc descs) :
    ((s.jobPool job).func, (s.jobPool job).data) = content job := by
  refine h.filled job hjob fun u desc descs hu => hnot u desc descs ?_
  rw [update_of_ne]
  · exact hu
  · rintro rfl
    exact hfill job desc descs hu

/-- A thread moves on with the job that it has, and the other places stay as they are. -/
theorem custody_goto (h : Rep s pending content) {s' : State n Client} (hpc : s'.pc = update s.pc t pc')
    (hhand : pc'.hand = (s.pc t).hand) (hqueue : s'.submitQueue = s.submitQueue)
    (hdeques : s'.deques = s.deques) : Custody s'.Holds pending := by
  refine h.custody.congr fun y r => ?_
  cases r with
  | thread u => simp only [State.Holds, hpc, apply_update_self hhand u]
  | slot i => simp only [State.Holds, hqueue]
  | deque w => simp only [State.Holds, hdeques]

/-- A thread moves on with what it has. -/
theorem goto (h : Rep s pending content) (hhand : pc'.hand = (s.pc t).hand)
    (hwrites : pc'.writes = (s.pc t).writes) (hreads : pc'.reads = (s.pc t).reads)
    (hknown : Known s content t pc') (hfill : ∀ job desc descs, s.pc t ≠ .submitFill job desc descs) :
    Rep (s.goto t pc') pending content := by
  refine ⟨h.balance, h.custody_goto rfl hhand rfl rfl, h.filled_update hfill, h.kept, h.once, ?_, h.bound,
    h.known_update rfl (fun _ _ hu => hu) hknown⟩
  simp only [State.goto, comp_update_self hwrites, comp_update_self hreads]
  exact h.ring

omit [DecidableEq Client] in
/-- A write to a job that leaves its function and its data. -/
theorem setJob (h : Rep s pending content) (job : ℕ) {f : JobInternal → JobInternal}
    (hf : ∀ j, (f j).func = j.func ∧ (f j).data = j.data) : Rep (s.setJob job f) pending content := by
  refine ⟨h.balance, h.custody.congr fun y r => ?_, fun x hx hnot => ?_, h.kept, h.once, h.ring, h.bound,
    h.known⟩
  · cases r <;> exact Iff.rfl
  · have hfilled := h.filled x hx hnot
    by_cases hxj : x = job
    · subst hxj
      simp only [State.setJob, update_self, (hf _).1, (hf _).2]
      exact hfilled
    · simp only [State.setJob, update_of_ne hxj]
      exact hfilled

/-! ### Submission -/

/-- `alloc_job` returns an index that is not in use. -/
theorem submitAlloc (h : Rep s pending content) {desc : JobDesc} {descs : List JobDesc}
    (hpc : s.pc t = .submitAlloc desc descs) {job : ℕ} (hfree : ∀ place, ¬ s.Holds job place) (head : ℕ) :
    Rep
      { s.goto t (.submitFill job desc descs) with
        jobPoolHead := head
        submitted := (desc.func, desc.data) :: s.submitted }
      (job :: pending) (update content job (desc.func, desc.data)) := by
  have hnew : job ∉ pending := by
    intro hmem
    obtain ⟨place, hplace⟩ := (h.custody.mem_iff job).mp hmem
    exact hfree place hplace
  have hcontent : ∀ x ∈ pending, update content job (desc.func, desc.data) x = content x := by
    intro x hx
    rw [update_of_ne]
    rintro rfl
    exact hnew hx
  have hwrites : Pc.writes (.submitFill job desc descs) = (s.pc t).writes := by rw [hpc]; rfl
  have hreads : Pc.reads (.submitFill job desc descs) = (s.pc t).reads := by rw [hpc]; rfl
  refine ⟨?_, ?_, ?_, h.kept, h.once, ?_, h.bound, h.known_update rfl (fun u hut hu => ?_) (update_self ..)⟩
  · rw [List.map_cons, update_self, List.map_congr_left hcontent]
    exact (h.balance.cons _).trans List.perm_middle.symm
  · refine h.custody.create hfree (p := .thread t) (fun y r hr => ?_) fun y => ?_
    · cases r with
      | thread u =>
          have hut : u ≠ t := fun hut => hr (congrArg _ hut)
          simp only [State.Holds, State.goto, update_of_ne hut]
      | slot i => exact Iff.rfl
      | deque w => exact Iff.rfl
    · simp [State.Holds, State.goto, Pc.hand, hpc, eq_comm]
  · intro x hx hnot
    have hxj : x ≠ job := by
      rintro rfl
      exact hnot t desc descs (update_self ..)
    have hx : x ∈ pending := (List.mem_cons.mp hx).resolve_left hxj
    rw [hcontent x hx]
    exact h.filled_update (by rw [hpc]; simp) x hx hnot
  · simp only [State.goto, comp_update_self hwrites, comp_update_self hreads]
    exact h.ring
  · -- another thread at `submitFill` has another job
    cases hpcu : s.pc u with
    | submitFill x desc' descs' =>
        have hplace : s.Holds x (.thread u) := by simp only [State.Holds, hpcu, Pc.hand]
        rw [hpcu] at hu
        exact (hcontent x (h.custody.mem hplace)).trans hu
    | _ => rw [hpcu] at hu; exact hu

/-- The writes of the function and the data. -/
theorem submitFill (h : Rep s pending content) {job : ℕ} {desc : JobDesc} {descs : List JobDesc}
    (hpc : s.pc t = .submitFill job desc descs) :
    Rep ((s.setJob job fun j => { j with func := desc.func, data := desc.data }).goto t
      (.submitChildren job desc descs)) pending content := by
  have hhand : Pc.hand (.submitChildren job desc descs) = (s.pc t).hand := by rw [hpc]; rfl
  have hwrites : Pc.writes (.submitChildren job desc descs) = (s.pc t).writes := by rw [hpc]; rfl
  have hreads : Pc.reads (.submitChildren job desc descs) = (s.pc t).reads := by rw [hpc]; rfl
  refine ⟨h.balance, h.custody_goto rfl hhand rfl rfl, fun x hx hnot => ?_, h.kept, h.once, ?_, h.bound,
    h.known_update rfl (fun _ _ hu => hu) trivial⟩
  · by_cases hxj : x = job
    · subst hxj
      have hknown := h.known t
      rw [hpc] at hknown
      simp only [State.goto, State.setJob, update_self]
      exact hknown.symm
    · simp only [State.goto, State.setJob, update_of_ne hxj]
      refine h.filled x hx fun u desc' descs' hu => hnot u desc' descs' ?_
      refine (update_of_ne ?_ ..).trans hu
      rintro rfl
      rw [hpc] at hu
      injection hu with hjob
      exact hxj hjob.symm
  · simp only [State.goto, State.setJob, comp_update_self hwrites, comp_update_self hreads]
    exact h.ring

/-- A position is taken from `submit_head` when its entry is vacant. -/
theorem submitHead (h : Rep s pending content) {job : ℕ} {descs : List JobDesc}
    (hpc : s.pc t = .submitHead job descs) (hbound : s.submitHead + 1 < 2 ^ 64)
    (hvacant : TicketRing.Vacant submitQueueCap s.submitQueue (fun u => (s.pc u).writes)
      (fun u => (s.pc u).reads) s.submitHead) :
    Rep { s.goto t (.submitWrite job s.submitHead descs) with submitHead := wrap64 (s.submitHead + 1) }
      pending content := by
  have hhand : Pc.hand (.submitWrite job s.submitHead descs) = (s.pc t).hand := by rw [hpc]; rfl
  have hreads : Pc.reads (.submitWrite job s.submitHead descs) = (s.pc t).reads := by rw [hpc]; rfl
  rw [wrap64_of_lt hbound]
  refine ⟨h.balance, h.custody_goto rfl hhand rfl rfl, h.filled_update (by rw [hpc]; simp), h.kept,
    h.once, ?_, hbound, h.known_update rfl (fun u _ hu => ?_) trivial⟩
  · simp only [State.goto, comp_update_self hreads, comp_update Pc.writes]
    exact h.ring.reserve (by rw [hpc]; rfl) hvacant
  · cases hpcu : s.pc u with
    | casTail mode tail =>
        rw [hpcu] at hu
        exact Nat.lt_succ_of_lt hu
    | _ => rw [hpcu] at hu; exact hu

/-- The index goes from the hand of the thread into the ring. -/
theorem submitWrite (h : Rep s pending content) {job pos : ℕ} {descs : List JobDesc}
    (hpc : s.pc t = .submitWrite job pos descs) :
    Rep
      { s.goto t (.submitNext descs) with
        submitQueue := update s.submitQueue (pos % submitQueueCap) (some job) }
      pending content := by
  have hplace : s.Holds job (.thread t) := by simp only [State.Holds, hpc, Pc.hand]
  have hwrites : (s.pc t).writes = some pos := by rw [hpc]; rfl
  have hreads : Pc.reads (.submitNext descs) = (s.pc t).reads := by rw [hpc]; rfl
  have hempty : s.submitQueue (pos % submitQueueCap) = none := h.ring.unwritten t pos hwrites
  refine ⟨h.balance, ?_, h.filled_update (by rw [hpc]; simp), h.kept, h.once, ?_, h.bound,
    h.known_update rfl (fun u _ hu => ?_) trivial⟩
  · refine h.custody.move hplace (q := .slot (pos % submitQueueCap)) (by simp) (fun y r hr hr' => ?_)
      (fun y => ?_) fun y => ?_
    · cases r with
      | thread u =>
          have hut : u ≠ t := fun hut => hr (congrArg _ hut)
          simp only [State.Holds, State.goto, update_of_ne hut]
      | slot i =>
          have hi : i ≠ pos % submitQueueCap := fun hi => hr' (congrArg _ hi)
          simp only [State.Holds, update_of_ne hi]
      | deque w => exact Iff.rfl
    · simp only [State.Holds, State.goto, update_self, hpc, Pc.hand, Option.some.injEq]
      simp [eq_comm]
    · simp only [State.Holds, update_self, hempty, Option.some.injEq]
      simp [eq_comm]
  · simp only [State.goto, comp_update_self hreads, comp_update Pc.writes]
    exact h.ring.fill hwrites job
  · cases hpcu : s.pc u with
    | clear mode tail x =>
        -- the entry was empty, so that no thread has read it
        rw [hpcu] at hu
        have hne : tail % submitQueueCap ≠ pos % submitQueueCap := by
          intro heq
          have hfull : s.submitQueue (tail % submitQueueCap) = some x := hu
          rw [heq, hempty] at hfull
          cases hfull
        exact (update_of_ne hne ..).trans hu
    | _ => rw [hpcu] at hu; exact hu

/-! ### The ring -/

/-- A position is taken from `submit_tail`. -/
theorem casTail (h : Rep s pending content) {mode : Mode} {tail : ℕ} (hpc : s.pc t = .casTail mode tail)
    (htail : s.submitTail = tail) :
    Rep { s.goto t (.take mode tail) with submitTail := wrap64 (tail + 1) } pending content := by
  have hhand : Pc.hand (.take mode tail) = (s.pc t).hand := by rw [hpc]; rfl
  have hwrites : Pc.writes (.take mode tail) = (s.pc t).writes := by rw [hpc]; rfl
  have hlt : tail < s.submitHead := by
    have hknown := h.known t
    rwa [hpc] at hknown
  have hbound := h.bound
  rw [wrap64_of_lt (by omega)]
  refine ⟨h.balance, h.custody_goto rfl hhand rfl rfl, h.filled_update (by rw [hpc]; simp), h.kept,
    h.once, ?_, h.bound, h.known_update rfl (fun u _ hu => ?_) trivial⟩
  · simp only [State.goto, comp_update_self hwrites, comp_update Pc.reads]
    subst htail
    exact h.ring.claim hlt (by rw [hpc]; rfl)
  · cases hpcu : s.pc u <;> rw [hpcu] at hu <;> exact hu

/-- The index goes from the ring into the hand of the thread. -/
theorem clear (h : Rep s pending content) {mode : Mode} {tail job : ℕ}
    (hpc : s.pc t = .clear mode tail job) (hhand : pc'.hand = some job) (hwrites : pc'.writes = none)
    (hreads : pc'.reads = none)
    (hknown : Known { s.goto t pc' with
      submitQueue := update s.submitQueue (tail % submitQueueCap) none } content t pc') :
    Rep { s.goto t pc' with submitQueue := update s.submitQueue (tail % submitQueueCap) none }
      pending content := by
  have hfull : s.submitQueue (tail % submitQueueCap) = some job := by
    have hknown := h.known t
    rwa [hpc] at hknown
  have hread : (s.pc t).reads = some tail := by rw [hpc]; rfl
  have hplace : s.Holds job (.slot (tail % submitQueueCap)) := hfull
  have hwrites' : pc'.writes = (s.pc t).writes := by rw [hpc, hwrites]; rfl
  refine ⟨h.balance, ?_, h.filled_update (by rw [hpc]; simp), h.kept, h.once, ?_, h.bound,
    h.known_update rfl (fun u hut hu => ?_) hknown⟩
  · refine h.custody.move hplace (q := .thread t) (by simp) (fun y r hr hr' => ?_) (fun y => ?_)
      fun y => ?_
    · cases r with
      | thread u =>
          have hut : u ≠ t := fun hut => hr' (congrArg _ hut)
          simp only [State.Holds, State.goto, update_of_ne hut]
      | slot i =>
          have hi : i ≠ tail % submitQueueCap := fun hi => hr (congrArg _ hi)
          simp only [State.Holds, update_of_ne hi]
      | deque w => exact Iff.rfl
    · simp only [State.Holds, update_self, hfull, Option.some.injEq]
      simp [eq_comm]
    · simp only [State.Holds, State.goto, update_self, hpc, hhand, Option.some.injEq]
      simp [Pc.hand, eq_comm]
  · simp only [State.goto, comp_update_self hwrites', comp_update Pc.reads, hreads]
    exact h.ring.empty hread (by rw [hfull]; simp)
  · cases hpcu : s.pc u with
    | clear mode' tail' x =>
        rw [hpcu] at hu
        have hne : tail' % submitQueueCap ≠ tail % submitQueueCap := by
          intro heq
          have hread' : (s.pc u).reads = some tail' := by rw [hpcu]; rfl
          exact hut (h.ring.reads_unique hread' hread heq)
        exact (update_of_ne hne ..).trans hu
    | _ => rw [hpcu] at hu; exact hu

/-! ### The deques -/

/-- A deque changes, and a thread moves on. -/
theorem setDeque (h : Rep s pending content) {w : Fin n} {d : WorkDeque.State ℕ (Thread n Client)}
    (hkept : WorkDeque.Kept d) (honce : ∀ job, d.pushed.count job ≤ d.returned.count job + 1)
    (hcustody : Custody (s.setDeque w d t pc').Holds pending) (hwrites : pc'.writes = (s.pc t).writes)
    (hreads : pc'.reads = (s.pc t).reads) (hfill : ∀ job desc descs, s.pc t ≠ .submitFill job desc descs)
    (howner : d.owner = (s.deques w).owner ∨ t = .worker w)
    (hknown : Known (s.setDeque w d t pc') content t pc') :
    Rep (s.setDeque w d t pc') pending content := by
  refine ⟨h.balance, hcustody, h.filled_update hfill, fun v => ?_, fun v job => ?_, ?_, h.bound,
    h.known_update rfl (fun u hut hu => ?_) hknown⟩
  · by_cases hv : v = w
    · subst hv
      simp only [State.setDeque, update_self]
      exact hkept
    · simp only [State.setDeque, update_of_ne hv]
      exact h.kept v
  · by_cases hv : v = w
    · subst hv
      simp only [State.setDeque, update_self]
      exact honce job
    · simp only [State.setDeque, update_of_ne hv]
      exact h.once v job
  · simp only [State.setDeque, State.goto, comp_update_self hwrites, comp_update_self hreads]
    exact h.ring
  · cases hpcu : s.pc u with
    | pushing =>
        rw [hpcu] at hu
        intro v hv
        have hpushes := hu v hv
        by_cases hvw : v = w
        · subst hvw
          simp only [State.setDeque, update_self]
          rcases howner with howner | rfl
          · rw [howner]
            exact hpushes
          · exact absurd hv hut
        · simp only [State.setDeque, update_of_ne hvw]
          exact hpushes
    | _ => rw [hpcu] at hu; exact hu

/-- Nothing goes into the deque or out of it. -/
theorem custody_frame (h : Rep s pending content) {w : Fin n} {d : WorkDeque.State ℕ (Thread n Client)}
    (hpushed : d.pushed = (s.deques w).pushed) (hreturned : d.returned = (s.deques w).returned)
    (hhand : pc'.hand = (s.pc t).hand) : Custody (s.setDeque w d t pc').Holds pending := by
  refine h.custody.congr fun y r => ?_
  cases r with
  | thread u => simp only [State.Holds, State.setDeque, State.goto, apply_update_self hhand u]
  | slot i => exact Iff.rfl
  | deque v =>
      by_cases hv : v = w
      · subst hv
        simp only [State.Holds, State.setDeque, update_self, hpushed, hreturned]
      · simp only [State.Holds, State.setDeque, update_of_ne hv]

/-- A job goes from the hand of a thread into the deque. -/
theorem custody_push (h : Rep s pending content) {w : Fin n} {d : WorkDeque.State ℕ (Thread n Client)}
    {job : ℕ} (hhand : (s.pc t).hand = some job) (hpushed : d.pushed = job :: (s.deques w).pushed)
    (hreturned : d.returned = (s.deques w).returned) (hhand' : pc'.hand = none) :
    Custody (s.setDeque w d t pc').Holds pending := by
  have hplace : s.Holds job (.thread t) := hhand
  refine h.custody.move hplace (q := .deque w) (by simp) (fun y r hr hr' => ?_) (fun y => ?_) fun y => ?_
  · cases r with
    | thread u =>
        have hut : u ≠ t := fun hut => hr (congrArg _ hut)
        simp only [State.Holds, State.setDeque, State.goto, update_of_ne hut]
    | slot i => exact Iff.rfl
    | deque v =>
        have hv : v ≠ w := fun hv => hr' (congrArg _ hv)
        simp only [State.Holds, State.setDeque, update_of_ne hv]
  · simp only [State.Holds, State.setDeque, State.goto, update_self, hhand, hhand', Option.some.injEq]
    simp [eq_comm]
  · simp only [State.Holds, State.setDeque, update_self, hpushed, hreturned, List.count_cons]
    by_cases hy : y = job
    · subst hy
      have hle := (h.kept w).subperm.count_le y
      simp only [beq_self_eq_true, if_true, or_true, iff_true]
      omega
    · simp [hy, Ne.symm hy]

/-- A job goes from the deque into the hand of a thread. -/
theorem custody_take (h : Rep s pending content) {w : Fin n} {d : WorkDeque.State ℕ (Thread n Client)}
    {job : ℕ} (hkept : WorkDeque.Kept d) (hhand : (s.pc t).hand = none)
    (hpushed : d.pushed = (s.deques w).pushed) (hreturned : d.returned = job :: (s.deques w).returned)
    (hhand' : pc'.hand = some job) : Custody (s.setDeque w d t pc').Holds pending := by
  have hplace : s.Holds job (.deque w) := by
    have hle := hkept.subperm.count_le job
    rw [hpushed, hreturned, List.count_cons_self] at hle
    exact hle
  refine h.custody.move hplace (q := .thread t) (by simp) (fun y r hr hr' => ?_) (fun y => ?_) fun y => ?_
  · cases r with
    | thread u =>
        have hut : u ≠ t := fun hut => hr' (congrArg _ hut)
        simp only [State.Holds, State.setDeque, State.goto, update_of_ne hut]
    | slot i => exact Iff.rfl
    | deque v =>
        have hv : v ≠ w := fun hv => hr (congrArg _ hv)
        simp only [State.Holds, State.setDeque, update_of_ne hv]
  · simp only [State.Holds, State.setDeque, update_self, hpushed, hreturned, List.count_cons]
    by_cases hy : y = job
    · subst hy
      have honce := h.once w y
      simp only [beq_self_eq_true, if_true, ne_eq, not_true_eq_false, and_false, iff_false]
      omega
    · simp [hy, Ne.symm hy]
  · simp only [State.Holds, State.setDeque, State.goto, update_self, hhand, hhand', Option.some.injEq]
    simp [eq_comm]

/-! ### Calls -/

/-- The function of the job that a thread has is called. -/
theorem call (h : Rep s pending content) {mode : Mode} {job : ℕ} (hpc : s.pc t = .call mode job) :
    Rep
      { s.goto t (.finish mode job) with
        called := ((s.jobPool job).func, (s.jobPool job).data) :: s.called }
      (pending.erase job) content := by
  have hplace : s.Holds job (.thread t) := by simp only [State.Holds, hpc, Pc.hand]
  have hmem := h.custody.mem hplace
  have hwrites : Pc.writes (.finish mode job) = (s.pc t).writes := by rw [hpc]; rfl
  have hreads : Pc.reads (.finish mode job) = (s.pc t).reads := by rw [hpc]; rfl
  have hcontent : ((s.jobPool job).func, (s.jobPool job).data) = content job :=
    h.content_eq hplace (by rw [hpc]; simp)
  refine ⟨?_, ?_, fun x hx hnot => ?_, h.kept, h.once, ?_, h.bound, h.known_update rfl ?_ trivial⟩
  · have hsplit : (pending.map content).Perm (content job :: (pending.erase job).map content) :=
      (List.perm_cons_erase hmem).map content
    rw [hcontent]
    exact (h.balance.trans (hsplit.append_left _)).trans List.perm_middle
  · refine h.custody.consume hplace (fun y r hr => ?_) fun y => ?_
    · cases r with
      | thread u =>
          have hut : u ≠ t := fun hut => hr (congrArg _ hut)
          simp only [State.Holds, State.goto, update_of_ne hut]
      | slot i => exact Iff.rfl
      | deque w => exact Iff.rfl
    · simp only [State.Holds, State.goto, update_self, hpc, Pc.hand, Option.some.injEq]
      simp [eq_comm]
  · exact h.filled_update (by rw [hpc]; simp) x (List.mem_of_mem_erase hx) hnot
  · simp only [State.goto, comp_update_self hwrites, comp_update_self hreads]
    exact h.ring
  · intro u _ hu
    cases hpcu : s.pc u <;> rw [hpcu] at hu <;> exact hu

/-! ### The functions -/

/-- A place without a job and without a position of the ring. -/
def Plain (pc : Pc) : Prop :=
  pc.hand = none ∧ pc.writes = none ∧ pc.reads = none

/-- A thread moves on without a job. -/
theorem gotoPlain (h : Rep s pending content) (hpc : Plain (s.pc t)) (hpc' : Plain pc')
    (hknown : Known s content t pc') : Rep (s.goto t pc') pending content := by
  refine h.goto (by rw [hpc.1, hpc'.1]) (by rw [hpc.2.1, hpc'.2.1]) (by rw [hpc.2.2, hpc'.2.2]) hknown ?_
  intro job desc descs heq
  rw [heq] at hpc
  cases hpc.1

/-- A write to a job that leaves its function and its data, after which a thread moves on with what it
has. -/
theorem setJobGoto (h : Rep s pending content) (job : ℕ) {f : JobInternal → JobInternal}
    (hf : ∀ j, (f j).func = j.func ∧ (f j).data = j.data) (hhand : pc'.hand = (s.pc t).hand)
    (hwrites : pc'.writes = (s.pc t).writes) (hreads : pc'.reads = (s.pc t).reads)
    (hknown : Known s content t pc') (hfill : ∀ job desc descs, s.pc t ≠ .submitFill job desc descs) :
    Rep ((s.setJob job f).goto t pc') pending content :=
  (h.setJob job hf).goto hhand hwrites hreads hknown hfill

theorem loop (h : Rep s pending content) {s' : State n Client}
    (hstep : stepLoop s t (s.pc t) = some s') : Rep s' pending content := by
  cases hpc : s.pc t with
  | enter mode =>
      have hplain : Plain (s.pc t) := by rw [hpc]; exact ⟨rfl, rfl, rfl⟩
      rw [hpc] at hstep
      cases mode with
      | worker =>
          cases hstep
          split
          · exact h.gotoPlain hplain ⟨rfl, rfl, rfl⟩ trivial
          · exact h.gotoPlain hplain ⟨rfl, rfl, rfl⟩ trivial
      | waiter handle =>
          cases hstep
          split
          · exact h.gotoPlain hplain ⟨rfl, rfl, rfl⟩ trivial
          · exact h.gotoPlain hplain ⟨rfl, rfl, rfl⟩ trivial
  | park | returns result =>
      have hplain : Plain (s.pc t) := by rw [hpc]; exact ⟨rfl, rfl, rfl⟩
      rw [hpc] at hstep
      cases hstep
      exact h.gotoPlain hplain ⟨rfl, rfl, rfl⟩ trivial
  | _ =>
      rw [hpc] at hstep
      cases hstep

/-- One step of `lgx_job_submit` or `lgx_job_submit_batch`. -/
theorem submit (h : Rep s pending content) {weak : Bool} (hfits : Fits s (.next t weak))
    {s' : State n Client} (hstep : stepSubmit s t (s.pc t) = some s') :
    ∃ content', Rep s' (pendingAfter pending s.jobPoolHead (s.pc t)) content' := by
  cases hpc : s.pc t with
  | submitNext descs =>
      have hplain : Plain (s.pc t) := by rw [hpc]; exact ⟨rfl, rfl, rfl⟩
      rw [hpc] at hstep
      refine ⟨content, ?_⟩
      cases descs with
      | nil =>
          cases hstep
          exact h.gotoPlain hplain ⟨rfl, rfl, rfl⟩ trivial
      | cons desc descs =>
          simp only [stepSubmit] at hstep
          split at hstep
          · cases hstep
            exact h.gotoPlain hplain ⟨rfl, rfl, rfl⟩ trivial
          · cases hstep
            exact h.gotoPlain hplain ⟨rfl, rfl, rfl⟩ trivial
  | submitAlloc desc descs =>
      rw [hpc] at hstep
      cases hstep
      simp only [Fits, hpc] at hfits
      exact ⟨_, h.submitAlloc hpc hfits _⟩
  | submitFill job desc descs =>
      rw [hpc] at hstep
      cases hstep
      exact ⟨content, h.submitFill hpc⟩
  | submitChildren job desc descs | submitFlag job desc descs =>
      rw [hpc] at hstep
      cases hstep
      refine ⟨content, h.setJobGoto job ?_ ?_ ?_ ?_ ?_ ?_⟩
      all_goals simp [hpc, Pc.hand, Pc.writes, Pc.reads, Known]
  | submitParent job desc descs =>
      rw [hpc] at hstep
      simp only [stepSubmit] at hstep
      split at hstep
      · rename_i parent hparent
        cases hstep
        refine ⟨content, (h.setJob job ?_).setJobGoto parent ?_ ?_ ?_ ?_ ?_ ?_⟩
        all_goals simp [State.setJob, hpc, Pc.hand, Pc.writes, Pc.reads, Known]
      · cases hstep
        refine ⟨content, h.setJobGoto job ?_ ?_ ?_ ?_ ?_ ?_⟩
        all_goals simp [hpc, Pc.hand, Pc.writes, Pc.reads, Known]
  | submitHead job descs =>
      rw [hpc] at hstep
      cases hstep
      simp only [Fits, hpc] at hfits
      exact ⟨content, h.submitHead hpc hfits.1 hfits.2⟩
  | submitWrite job pos descs =>
      rw [hpc] at hstep
      cases hstep
      exact ⟨content, h.submitWrite hpc⟩
  | _ =>
      rw [hpc] at hstep
      cases hstep

/-- One step of taking a job from the ring. -/
theorem take (h : Rep s pending content) {weak : Bool} {s' : State n Client}
    (hstep : stepTake s t weak (s.pc t) = some s') : Rep s' pending content := by
  cases hpc : s.pc t with
  | loadTail mode =>
      rw [hpc] at hstep
      cases hstep
      exact h.gotoPlain (by rw [hpc]; exact ⟨rfl, rfl, rfl⟩) ⟨rfl, rfl, rfl⟩ trivial
  | loadHead mode tail =>
      have hplain : Plain (s.pc t) := by rw [hpc]; exact ⟨rfl, rfl, rfl⟩
      rw [hpc] at hstep
      simp only [stepTake] at hstep
      split at hstep
      · cases mode <;> cases hstep <;> exact h.gotoPlain hplain ⟨rfl, rfl, rfl⟩ trivial
      · rename_i hlt
        cases hstep
        exact h.gotoPlain hplain ⟨rfl, rfl, rfl⟩ (not_le.mp hlt)
  | casTail mode tail =>
      have hplain : Plain (s.pc t) := by rw [hpc]; exact ⟨rfl, rfl, rfl⟩
      rw [hpc] at hstep
      simp only [stepTake] at hstep
      split at hstep
      · rename_i hwon
        cases hstep
        exact h.casTail hpc hwon.1
      · cases mode <;> cases hstep <;> exact h.gotoPlain hplain ⟨rfl, rfl, rfl⟩ trivial
  | take mode tail =>
      rw [hpc] at hstep
      simp only [stepTake] at hstep
      split at hstep
      · cases hstep
        exact h
      · rename_i job hjob
        cases hstep
        exact h.goto (by rw [hpc]; rfl) (by rw [hpc]; rfl) (by rw [hpc]; rfl) hjob (by rw [hpc]; simp)
  | clear mode tail job =>
      rw [hpc] at hstep
      cases mode <;> cases hstep <;> exact h.clear hpc rfl rfl rfl trivial
  | _ =>
      rw [hpc] at hstep
      cases hstep

/-- One step of calling a job. -/
theorem calls (h : Rep s pending content) {s' : State n Client}
    (hstep : stepCall s t (s.pc t) = some s') :
    Rep s' (pendingAfter pending s.jobPoolHead (s.pc t)) content := by
  cases hpc : s.pc t with
  | call mode job =>
      rw [hpc] at hstep
      cases hstep
      exact h.call hpc
  | finish mode job =>
      rw [hpc] at hstep
      cases hstep
      refine h.setJobGoto job ?_ ?_ ?_ ?_ ?_ ?_
      all_goals simp [hpc, Pc.hand, Pc.writes, Pc.reads, Known]
  | parent mode job =>
      rw [hpc] at hstep
      simp only [stepCall] at hstep
      split at hstep
      · cases hstep
        exact h.gotoPlain (by rw [hpc]; exact ⟨rfl, rfl, rfl⟩) ⟨rfl, rfl, rfl⟩ trivial
      · rename_i parent hparent
        obtain rfl := Option.some.inj hstep
        split
        · refine h.setJobGoto parent ?_ ?_ ?_ ?_ ?_ ?_
          all_goals simp [hpc, Pc.hand, Pc.writes, Pc.reads, Known]
        · refine h.setJobGoto parent ?_ ?_ ?_ ?_ ?_ ?_
          all_goals simp [hpc, Pc.hand, Pc.writes, Pc.reads, Known]
  | parentDone mode parent =>
      rw [hpc] at hstep
      cases hstep
      refine h.setJobGoto parent ?_ ?_ ?_ ?_ ?_ ?_
      all_goals simp [hpc, Pc.hand, Pc.writes, Pc.reads, Known]
  | _ =>
      rw [hpc] at hstep
      cases hstep

/-- A step of the owner of a deque. -/
theorem kept_owner (h : Rep s pending content) {w : Fin n} (hfits : WorkDeque.Fits (s.deques w) .owner)
    {d : WorkDeque.State ℕ (Thread n Client)} (hstep : WorkDeque.step (s.deques w) .owner = some d) :
    WorkDeque.Kept d ∧ d.pushed = (s.deques w).pushed ∧
      d.returned = d.owner.result.toList ++ (s.deques w).returned := by
  refine ⟨(h.kept w).step (a := .owner) trivial hfits hstep, ?_⟩
  obtain ⟨⟨deque, owner⟩, -, rfl⟩ := Option.map_eq_some_iff.mp hstep
  exact ⟨rfl, rfl⟩

/-- A step on a deque that moves no job. -/
theorem frame (h : Rep s pending content) {w : Fin n} {d : WorkDeque.State ℕ (Thread n Client)}
    (hkept : WorkDeque.Kept d) (hpushed : d.pushed = (s.deques w).pushed)
    (hreturned : d.returned = (s.deques w).returned) (hpc : Plain (s.pc t)) (hpc' : Plain pc')
    (howner : d.owner = (s.deques w).owner ∨ t = .worker w)
    (hknown : Known (s.setDeque w d t pc') content t pc') :
    Rep (s.setDeque w d t pc') pending content := by
  refine h.setDeque hkept (fun job => ?_) (h.custody_frame hpushed hreturned (by rw [hpc.1, hpc'.1]))
    (by rw [hpc.2.1, hpc'.2.1]) (by rw [hpc.2.2, hpc'.2.2]) ?_ howner hknown
  · rw [hpushed, hreturned]
    exact h.once w job
  · intro job desc descs heq
    rw [heq] at hpc
    cases hpc.1

/-- A step on a deque that brings a job into the hand of a thread. -/
theorem taken (h : Rep s pending content) {w : Fin n} {d : WorkDeque.State ℕ (Thread n Client)} {job : ℕ}
    {mode : Mode} (hkept : WorkDeque.Kept d) (hpushed : d.pushed = (s.deques w).pushed)
    (hreturned : d.returned = job :: (s.deques w).returned) (hpc : Plain (s.pc t))
    (howner : d.owner = (s.deques w).owner ∨ t = .worker w) :
    Rep (s.setDeque w d t (.call mode job)) pending content := by
  refine h.setDeque hkept (fun x => ?_) (h.custody_take hkept hpc.1 hpushed hreturned rfl)
    (by rw [hpc.2.1]; rfl) (by rw [hpc.2.2]; rfl) ?_ howner trivial
  · have honce := h.once w x
    rw [hpushed, hreturned, List.count_cons]
    omega
  · intro x desc descs heq
    rw [heq] at hpc
    cases hpc.1

/-- A worker pushes a job on its deque. -/
theorem push (h : Rep s pending content) {w : Fin n} {job : ℕ} (hpc : s.pc (.worker w) = .push job)
    (hroom : (s.deques w).deque.bottom - (s.deques w).deque.top < (s.deques w).deque.capacity)
    (hfits : WorkDeque.Fits (s.deques w) (.push job)) {d : WorkDeque.State ℕ (Thread n Client)}
    (hstep : WorkDeque.step (s.deques w) (.push job) = some d) :
    Rep (s.setDeque w d (.worker w) .pushing) pending content := by
  have hhand : (s.pc (.worker w)).hand = some job := by rw [hpc]; rfl
  simp only [WorkDeque.step] at hstep
  split at hstep
  · rename_i howner
    have hallowed := (h.kept w).allowed_push howner hroom job
    have hkept := (h.kept w).step hallowed hfits (by simp only [WorkDeque.step, howner]; rfl)
    cases hstep
    refine h.setDeque hkept (fun x => ?_) (h.custody_push hhand rfl rfl rfl) (by rw [hpc]; rfl)
      (by rw [hpc]; rfl) (by rw [hpc]; simp) (Or.inr rfl) ?_
    · -- the job was in the hand of the worker, so that it was not in the deque
      simp only [List.count_cons]
      have honce := h.once w x
      split
      · rename_i hx
        obtain rfl := beq_iff_eq.mp hx
        have hplace : s.Holds job (.thread (.worker w)) := hhand
        have hnot : ¬ s.Holds job (.deque w) := by
          intro hdeque
          cases h.custody.unique job _ _ hplace hdeque
        simp only [State.Holds] at hnot
        omega
      · omega
    · intro v hv
      obtain rfl := Thread.worker.inj hv
      simp only [State.setDeque, update_self]
      rfl
  · cases hstep

omit [DecidableEq Client] in
/-- `lgx_work_deque_push` goes on, or returns. -/
theorem owner_of_pushes [DecidableEq (Thread n Client)] {d d' : WorkDeque.State ℕ (Thread n Client)}
    (hpushes : pushes d.owner) (hstep : WorkDeque.step d .owner = some d') :
    d'.owner = .idle ∨ pushes d'.owner = true := by
  obtain ⟨⟨deque, owner⟩, howner, rfl⟩ := Option.map_eq_some_iff.mp hstep
  cases hpc : d.owner with
  | pushLoad job | pushWrite job b =>
      rw [hpc] at howner
      cases howner
      exact Or.inr rfl
  | pushStore job b =>
      rw [hpc] at howner
      cases howner
      exact Or.inl rfl
  | _ =>
      rw [hpc] at hpushes
      cases hpushes

/-- One step of a worker on its own deque. -/
theorem own (h : Rep s pending content) {weak : Bool} (hfits : Fits s (.next t weak))
    {s' : State n Client} (hstep : stepOwn s t (s.pc t) = some s') : Rep s' pending content := by
  cases t with
  | client c => cases hpc : s.pc (.client c) <;> rw [hpc] at hstep <;> cases hstep
  | worker w =>
      cases hpc : s.pc (.worker w) with
      | push job =>
          rw [hpc] at hstep
          obtain ⟨d, hd, rfl⟩ := Option.map_eq_some_iff.mp hstep
          simp only [Fits, hpc] at hfits
          obtain ⟨hroom, hfits⟩ := hfits w rfl
          exact h.push hpc hroom hfits hd
      | pushing =>
          have hplain : Plain (s.pc (.worker w)) := by rw [hpc]; exact ⟨rfl, rfl, rfl⟩
          have hpushes : pushes (s.deques w).owner := by
            have hknown := h.known (.worker w)
            rw [hpc] at hknown
            exact hknown w rfl
          rw [hpc] at hstep
          obtain ⟨d, hd, rfl⟩ := Option.map_eq_some_iff.mp hstep
          have hfits : WorkDeque.Fits (s.deques w) .owner := by
            cases howner : (s.deques w).owner <;> simp_all [WorkDeque.Fits, pushes]
          obtain ⟨hkept, hpushed, hreturned⟩ := h.kept_owner hfits hd
          have hresult : d.owner.result = none := by
            rcases owner_of_pushes hpushes hd with howner | howner
            · rw [howner]
              rfl
            · cases hd' : d.owner <;> first | rfl | simp [hd', pushes] at howner
          rw [hresult] at hreturned
          split
          · exact h.frame hkept hpushed hreturned hplain ⟨rfl, rfl, rfl⟩ (Or.inr rfl) trivial
          · rename_i hne
            refine h.frame hkept hpushed hreturned hplain ⟨rfl, rfl, rfl⟩ (Or.inr rfl) fun v hv => ?_
            obtain rfl := Thread.worker.inj hv
            simp only [State.setDeque, update_self]
            exact (owner_of_pushes hpushes hd).resolve_left hne
      | pop round =>
          have hplain : Plain (s.pc (.worker w)) := by rw [hpc]; exact ⟨rfl, rfl, rfl⟩
          rw [hpc] at hstep
          obtain ⟨d, hd, rfl⟩ := Option.map_eq_some_iff.mp hstep
          have hkept := (h.kept w).step (a := .pop) trivial trivial hd
          simp only [WorkDeque.step] at hd
          split at hd
          · cases hd
            exact h.frame hkept rfl rfl hplain ⟨rfl, rfl, rfl⟩ (Or.inr rfl) trivial
          · cases hd
      | popping round =>
          have hplain : Plain (s.pc (.worker w)) := by rw [hpc]; exact ⟨rfl, rfl, rfl⟩
          rw [hpc] at hstep
          obtain ⟨d, hd, rfl⟩ := Option.map_eq_some_iff.mp hstep
          simp only [Fits, hpc] at hfits
          obtain ⟨hkept, hpushed, hreturned⟩ := h.kept_owner (hfits w rfl) hd
          cases howner : d.owner with
          | popped result =>
              rw [howner] at hreturned
              cases result with
              | some job => exact h.taken (hkept.return howner) hpushed hreturned hplain (Or.inr rfl)
              | none =>
                  exact h.frame (hkept.return howner) hpushed hreturned hplain ⟨rfl, rfl, rfl⟩
                    (Or.inr rfl) trivial
          | _ =>
              rw [howner] at hreturned
              exact h.frame hkept hpushed hreturned hplain ⟨rfl, rfl, rfl⟩ (Or.inr rfl) trivial
      | _ =>
          rw [hpc] at hstep
          cases hstep

/-- One step of a thief. -/
theorem steal (h : Rep s pending content) {s' : State n Client}
    (hstep : stepSteal s t (s.pc t) = some s') : Rep s' pending content := by
  cases hpc : s.pc t with
  | steal mode round i =>
      have hplain : Plain (s.pc t) := by rw [hpc]; exact ⟨rfl, rfl, rfl⟩
      rw [hpc] at hstep
      simp only [stepSteal] at hstep
      split at hstep
      · split at hstep
        · rename_i v hv
          obtain ⟨d, hd, rfl⟩ := Option.map_eq_some_iff.mp hstep
          have hkept := (h.kept v).step (a := .steal t) trivial trivial hd
          simp only [WorkDeque.step] at hd
          split at hd
          · cases hd
            exact h.frame hkept rfl rfl hplain ⟨rfl, rfl, rfl⟩ (Or.inl rfl) trivial
          · cases hd
        · cases hstep
          exact h.gotoPlain hplain ⟨rfl, rfl, rfl⟩ trivial
      · cases hstep
        cases mode with
        | worker =>
            cases round with
            | first => exact h.gotoPlain hplain ⟨rfl, rfl, rfl⟩ trivial
            | spin k =>
                simp only [Mode.exhausted]
                split <;> exact h.gotoPlain hplain ⟨rfl, rfl, rfl⟩ trivial
        | waiter handle => exact h.gotoPlain hplain ⟨rfl, rfl, rfl⟩ trivial
  | stealing mode round i =>
      have hplain : Plain (s.pc t) := by rw [hpc]; exact ⟨rfl, rfl, rfl⟩
      rw [hpc] at hstep
      simp only [stepSteal] at hstep
      split at hstep
      · rename_i v hv
        obtain ⟨d, hd, rfl⟩ := Option.map_eq_some_iff.mp hstep
        have hkept := (h.kept v).step (a := .thief t) trivial trivial hd
        obtain ⟨⟨deque, pc⟩, -, rfl⟩ := Option.map_eq_some_iff.mp hd
        simp only [update_self]
        cases pc with
        | stolen result =>
            cases result with
            | some job => exact h.taken (hkept.returnThief t) rfl rfl hplain (Or.inl rfl)
            | none =>
                exact h.frame (hkept.returnThief t) rfl rfl hplain ⟨rfl, rfl, rfl⟩ (Or.inl rfl) trivial
        | _ => exact h.frame hkept rfl rfl hplain ⟨rfl, rfl, rfl⟩ (Or.inl rfl) trivial
      · cases hstep
  | _ =>
      rw [hpc] at hstep
      cases hstep

end Rep

/-! ## Runs -/

/-- What was submitted is accounted for. -/
def Accounted (s : State n Client) : Prop :=
  ∃ pending content, Rep s pending content

omit [DecidableEq Client] in
/-- Nothing is pending in a new pool. -/
theorem Rep.init {d : WorkDeque.Deque ℕ} (hd : WorkDeque.lgxWorkDequeInit dequeInitialCap = some d) :
    Rep (poolCreate d : State n Client) [] fun _ => (0, 0) := by
  have hpc : ∀ t : Thread n Client, Rep.Plain ((poolCreate d).pc t) ∧
      Known (poolCreate d) (fun _ => (0, 0)) t ((poolCreate d).pc t) := by
    intro t
    cases t with
    | worker w => exact ⟨⟨rfl, rfl, rfl⟩, trivial⟩
    | client c => exact ⟨⟨rfl, rfl, rfl⟩, trivial⟩
  have hnone : ∀ x place, ¬ (poolCreate d : State n Client).Holds x place := by
    intro x place hplace
    cases place with
    | thread t =>
        simp only [State.Holds, (hpc t).1.1] at hplace
        cases hplace
    | slot i => cases hplace
    | deque w => exact absurd hplace (lt_irrefl _)
  refine ⟨List.Perm.refl _, ⟨List.nodup_nil, fun x => ?_, fun x p q hp => ?_⟩, ?_, fun w => ?_,
    fun w job => Nat.zero_le _, ?_, Nat.two_pow_pos 64, fun t => (hpc t).2⟩
  · refine ⟨fun hx => (List.not_mem_nil hx).elim, fun hx => ?_⟩
    obtain ⟨place, hplace⟩ := hx
    exact absurd hplace (hnone x place)
  · exact absurd hp (hnone x p)
  · intro job hjob
    cases hjob
  · exact WorkDeque.Kept.init ⟨hd, rfl, fun _ => rfl, rfl, rfl⟩
  · have hwrites : (fun t => ((poolCreate d : State n Client).pc t).writes) = fun _ => none :=
      funext fun t => (hpc t).1.2.1
    have hreads : (fun t => ((poolCreate d : State n Client).pc t).reads) = fun _ => none :=
      funext fun t => (hpc t).1.2.2
    rw [hwrites, hreads]
    exact TicketRing.init submitQueueCap

omit [DecidableEq Client] in
theorem Accounted.init {s : State n Client} (h : Initial s) : Accounted s := by
  obtain ⟨d, hd, rfl⟩ := h
  exact ⟨[], _, Rep.init hd⟩

omit [DecidableEq Client] in
/-- Only `alloc_job` and a call change what is pending. -/
theorem pendingAfter_eq {pending : List ℕ} {head : ℕ} {f : Pc → Option (State n Client)} {pc : Pc}
    {s' : State n Client} (halloc : ∀ desc descs, f (.submitAlloc desc descs) = none)
    (hcall : ∀ mode job, f (.call mode job) = none) (hstep : f pc = some s') :
    pendingAfter pending head pc = pending := by
  cases pc with
  | submitAlloc desc descs =>
      rw [halloc] at hstep
      cases hstep
  | call mode job =>
      rw [hcall] at hstep
      cases hstep
  | _ => rfl

/-- A step of a thread that fits. -/
theorem Rep.next {s s' : State n Client} {pending : List ℕ} {content : ℕ → ℕ × ℕ} {t : Thread n Client}
    {weak : Bool} (h : Rep s pending content) (hfits : Fits s (.next t weak))
    (hstep : step s (.next t weak) = some s') :
    ∃ content', Rep s' (pendingAfter pending s.jobPoolHead (s.pc t)) content' := by
  simp only [JobSystem.step, stepThread, Option.orElse_eq_orElse, Option.orElse_eq_or,
    Option.or_eq_some_iff] at hstep
  rcases hstep with hstep | ⟨-, hstep | ⟨-, hstep | ⟨-, hstep | ⟨-, hstep | ⟨-, hstep⟩⟩⟩⟩⟩
  · rw [pendingAfter_eq (f := stepLoop s t) (fun _ _ => rfl) (fun _ _ => rfl) hstep]
    exact ⟨content, h.loop hstep⟩
  · exact h.submit hfits hstep
  · rw [pendingAfter_eq (f := stepTake s t weak) (fun _ _ => rfl) (fun _ _ => rfl) hstep]
    exact ⟨content, h.take hstep⟩
  · rw [pendingAfter_eq (f := stepOwn s t) (fun _ _ => by cases t <;> rfl) (fun _ _ => by cases t <;> rfl)
      hstep]
    exact ⟨content, h.own hfits hstep⟩
  · rw [pendingAfter_eq (f := stepSteal s t) (fun _ _ => rfl) (fun _ _ => rfl) hstep]
    exact ⟨content, h.steal hstep⟩
  · exact ⟨content, h.calls hstep⟩

/-- A client is at no place that matters when it calls a function. -/
theorem Rep.enterCall {s s' : State n Client} {pending : List ℕ} {content : ℕ → ℕ × ℕ} {c : Client}
    {pc' : Pc} (h : Rep s pending content) (hstep : enterCall s c pc' = some s') (hplain : Rep.Plain pc')
    (hknown : Known s content (.client c) pc') : Rep s' pending content := by
  simp only [JobSystem.enterCall] at hstep
  split at hstep
  · rename_i hpc
    cases hstep
    exact h.gotoPlain (by rw [hpc]; exact ⟨rfl, rfl, rfl⟩) hplain hknown
  · cases hstep

/-- A call of a client, or the request of a shutdown. -/
theorem Rep.outside {s s' : State n Client} {pending : List ℕ} {content : ℕ → ℕ × ℕ}
    {a : Action n Client} (h : Rep s pending content) (hnext : ∀ t weak, a ≠ .next t weak)
    (hstep : step s a = some s') : Rep s' pending content := by
  cases a with
  | submit c desc => exact h.enterCall hstep ⟨rfl, rfl, rfl⟩ trivial
  | submitBatch c descs =>
      cases descs with
      | nil => exact h.enterCall hstep ⟨rfl, rfl, rfl⟩ trivial
      | cons desc descs => exact h.enterCall hstep ⟨rfl, rfl, rfl⟩ trivial
  | wait c handle =>
      cases handle with
      | none => exact h.enterCall hstep ⟨rfl, rfl, rfl⟩ trivial
      | some handle => exact h.enterCall hstep ⟨rfl, rfl, rfl⟩ trivial
  | next t weak => exact absurd rfl (hnext t weak)
  | shutdown =>
      cases hstep
      refine ⟨h.balance, h.custody.congr fun y r => ?_, h.filled, h.kept, h.once, h.ring, h.bound, h.known⟩
      cases r <;> exact Iff.rfl

/-- Every step that fits keeps the jobs accounted for. -/
theorem Accounted.step {s s' : State n Client} {a : Action n Client} (h : Accounted s) (hfits : Fits s a)
    (hstep : step s a = some s') : Accounted s' := by
  obtain ⟨pending, content, h⟩ := h
  cases a with
  | next t weak =>
      obtain ⟨content', h'⟩ := h.next hfits hstep
      exact ⟨_, content', h'⟩
  | _ => exact ⟨pending, content, h.outside (by simp) hstep⟩

theorem FitReachable.accounted {s : State n Client} (h : FitReachable s) : Accounted s := by
  apply Interleaving.Reachable.invariant (I := Accounted) h
  · exact fun s hinit => Accounted.init hinit
  · exact fun s s' a hs hfits hstep => hs.step hfits hstep

/-- In a run in which none of the rings is overrun and no race for the last job of a deque is lost, every
job that was submitted is called once with its data. -/
theorem calledOnce_of_fitReachable {s : State n Client} (hreach : FitReachable s) : CalledOnce s := by
  intro hquiet
  obtain ⟨pending, content, h⟩ := hreach.accounted
  have hhand : ∀ t, (s.pc t).hand = none ∧ (s.pc t).reads = none := by
    intro t
    have hbusy := hquiet.threads t
    cases hpc : s.pc t <;> simp_all [Pc.busy, Pc.hand, Pc.reads]
  have hnone : pending = [] := by
    refine List.eq_nil_iff_forall_not_mem.mpr fun job hjob => ?_
    obtain ⟨place, hplace⟩ := (h.custody.mem_iff job).mp hjob
    cases place with
    | thread t =>
        simp only [State.Holds, (hhand t).1] at hplace
        cases hplace
    | slot i =>
        simp only [State.Holds, h.ring.cell_eq_none hquiet.queue (fun t => (hhand t).2) i] at hplace
        cases hplace
    | deque w =>
        have hperm := (h.kept w).perm_of_empty (hquiet.deques w)
        simp only [State.Holds, hperm.count_eq, lt_irrefl] at hplace
  have hbalance := h.balance
  rw [hnone] at hbalance
  simpa using hbalance.symm

/-- A check for runs with one job at a time, which a client submits and takes from the ring. -/
def oneJob (s : State 1 Unit) : Action 1 Unit → Bool
  | .next t _ =>
      match s.pc t with
      | .submitAlloc _ _ => decide (s.submitted.length = s.called.length)
      | .submitHead _ _ =>
          decide (s.submitHead + 1 < 2 ^ 64 ∧ s.submitTail = s.submitHead) &&
            [Thread.worker 0, Thread.client ()].all fun u =>
              (s.pc u).writes.isNone && (s.pc u).reads.isNone
      | .push _ | .popping _ => false
      | _ => true
  | _ => true

theorem fits_of_oneJob {s : State 1 Unit} {a : Action 1 Unit} (hreach : FitReachable s)
    (hcheck : oneJob s a = true) : Fits s a := by
  obtain ⟨pending, content, h⟩ := hreach.accounted
  cases a with
  | next t weak =>
      cases hpc : s.pc t with
      | submitAlloc desc descs =>
          simp only [Fits, hpc]
          simp only [oneJob, hpc, decide_eq_true_eq] at hcheck
          have hlength := h.balance.length_eq
          simp only [List.length_append, List.length_map] at hlength
          have hnil : pending = [] := List.length_eq_zero_iff.mp (by omega)
          intro place hplace
          have hmem := h.custody.mem hplace
          rw [hnil] at hmem
          cases hmem
      | submitHead job descs =>
          simp only [Fits, hpc]
          simp only [oneJob, hpc, Bool.and_eq_true, decide_eq_true_eq, List.all_eq_true,
            Option.isNone_iff_eq_none] at hcheck
          obtain ⟨⟨hbound, htail⟩, hthreads⟩ := hcheck
          have hnone : ∀ u, (s.pc u).writes = none ∧ (s.pc u).reads = none := by
            intro u
            apply hthreads u
            cases u with
            | worker w => simp [Subsingleton.elim w 0]
            | client c => simp
          refine ⟨hbound, h.ring.cell_eq_none htail (fun u => (hnone u).2) _, ?_, ?_⟩
          · intro u q hu
            rw [(hnone u).1] at hu
            cases hu
          · intro u q hu
            rw [(hnone u).2] at hu
            cases hu
      | push job => simp [oneJob, hpc] at hcheck
      | popping round => simp [oneJob, hpc] at hcheck
      | _ => simp only [Fits, hpc]
  | _ => trivial

/-- A client submits a job and waits for it, while the worker does nothing: it takes the job from the ring
and calls it. -/
theorem calledOnce_after_wait : ∃ s : State 1 Unit, FitReachable s ∧ s.submitted = [(7, 42)] ∧
    s.called = [(7, 42)] ∧ CalledOnce s := by
  let d : WorkDeque.Deque ℕ :=
    { buffer := fun _ => none, top := 0, bottom := 0, capacity := 1024, mask := 1023 }
  let client (k : ℕ) : List (Action 1 Unit) := List.replicate k (.next (.client ()) false)
  let actions : List (Action 1 Unit) :=
    .submit () ⟨7, 42, none⟩ :: client 10 ++ .wait () (some 0) :: client 11
  have hresult : (Interleaving.run (Interleaving.guarded step oneJob) actions (poolCreate d)).map
      (fun s => (s.submitted, s.called)) = some ([(7, 42)], [(7, 42)]) := by
    decide +kernel
  have hinit : FitReachable (poolCreate d : State 1 Unit) := .init ⟨d, rfl, rfl⟩
  obtain ⟨s, hreach, hs⟩ := hinit.exists_of_run_guarded (fun _ _ hs => fits_of_oneJob hs) hresult
  obtain ⟨hsubmitted, hcalled⟩ := Prod.mk.inj hs
  exact ⟨s, hreach, hsubmitted, hcalled, calledOnce_of_fitReachable hreach⟩

end LgxRuntime.Threading.JobSystem
