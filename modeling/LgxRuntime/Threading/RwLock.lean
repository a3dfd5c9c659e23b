import LgxRuntime.Lib.Headcount
import Mathlib.Data.ENat.Basic

/-!
# The read-write lock

The word of a lock is the number of its readers, or the writer bit alone.  A reader counts itself in by a
compare-and-swap from a word that it has loaded before, and out by a subtraction; a writer gets the lock by
a compare-and-swap from 0, and gives it up by a store of 0, whatever the word is.

`sched_yield` has no effect here, so that a thread that yields is at the place where it goes on.
-/

namespace LgxRuntime.Threading.RwLock

open Function (update update_self update_of_ne)
open Interleaving (headcount headcount_stay headcount_enter headcount_leave headcount_eq_zero
  apply_update_self update_cases forall_update)

/-! ## The threads -/

/-- `RWLOCK_WRITER_BIT`. -/
def writerBit : ℕ := 0x80000000

/-- Where a thread is. -/
inductive Pc
  /-- Outside of the functions of the lock, and not holding it. -/
  | idle
  /-- `lgx_rwlock_read_lock`, at the load of the word. -/
  | readLoad
  /-- At the compare-and-swap, with the word that it has loaded. -/
  | readCas (s : ℕ)
  /-- Between `lgx_rwlock_read_lock` and the call of `lgx_rwlock_read_unlock`. -/
  | reading
  /-- `lgx_rwlock_read_unlock`, at `atomic_fetch_sub`. -/
  | readUnlock
  /-- `lgx_rwlock_write_lock`, at the compare-and-swap. -/
  | writeCas
  /-- Between `lgx_rwlock_write_lock` and the call of `lgx_rwlock_write_unlock`. -/
  | writing
  /-- `lgx_rwlock_write_unlock`, at the store of 0. -/
  | writeUnlock
  deriving DecidableEq

/-- The lock with its threads. -/
structure State (Thread : Type) where
  word : ℕ
  pc : Thread → Pc

/-- `lgx_rwlock_init`. -/
def init {Thread : Type} : State Thread :=
  { word := 0, pc := fun _ => .idle }

/-- The next atomic step of a thread: the word and its place afterwards.  A weak compare-and-swap may fail
for no reason. -/
def move (word : ℕ) (weak : Bool) : Pc → Option (ℕ × Pc)
  | .readLoad =>
      if word &&& writerBit ≠ 0 then some (word, .readLoad)
      else some (word, .readCas word)
  | .readCas s =>
      if word = s ∧ weak = false then some ((s + 1) % 2 ^ 32, .reading)
      else some (word, .readLoad)
  | .readUnlock => some ((word + (2 ^ 32 - 1)) % 2 ^ 32, .idle)
  | .writeCas =>
      if word = 0 ∧ weak = false then some (writerBit, .writing)
      else some (word, .writeCas)
  -- nothing checks that the word is the writer bit
  | .writeUnlock => some (0, .idle)
  | .idle | .reading | .writing => none

/-- A call, or the next step of a thread. -/
inductive Action (Thread : Type)
  | readLock (t : Thread)
  | writeLock (t : Thread)
  | readUnlock (t : Thread)
  | writeUnlock (t : Thread)
  | next (t : Thread) (weak : Bool)

variable {Thread : Type} [DecidableEq Thread]

/-- One step.  Only a thread that holds the lock gives it up, in the mode in which it holds it. -/
def step (s : State Thread) : Action Thread → Option (State Thread)
  | .readLock t => if s.pc t = .idle then some { s with pc := update s.pc t .readLoad } else none
  | .writeLock t => if s.pc t = .idle then some { s with pc := update s.pc t .writeCas } else none
  | .readUnlock t => if s.pc t = .reading then some { s with pc := update s.pc t .readUnlock } else none
  | .writeUnlock t => if s.pc t = .writing then some { s with pc := update s.pc t .writeUnlock } else none
  | .next t weak => (move s.word weak (s.pc t)).map fun result => ⟨result.1, update s.pc t result.2⟩

/-- A thread that holds the lock as a reader. -/
def Pc.reads : Pc → Bool
  | .reading | .readUnlock => true
  | _ => false

/-- A thread that holds the lock as a writer. -/
def Pc.writes : Pc → Bool
  | .writing | .writeUnlock => true
  | _ => false

/-- There are fewer than `2 ^ 31` readers at a time. -/
def Allowed (s : State Thread) (a : Action Thread) : Prop :=
  ∀ s', step s a = some s' → headcount Pc.reads s'.pc < 2 ^ 31

/-- The states of the runs of any number of threads. -/
def Reachable : State Thread → Prop :=
  Interleaving.Reachable (fun s => s = init) step Allowed

/-- What an atomic step of one thread does to the word, and where the thread is afterwards. -/
inductive Moved (word : ℕ) : Pc → ℕ → Pc → Prop
  | yields : Moved word .readLoad word .readLoad
  | loaded (hbit : word &&& writerBit = 0) : Moved word .readLoad word (.readCas word)
  | counted : Moved word (.readCas word) ((word + 1) % 2 ^ 32) .reading
  | failed (s : ℕ) : Moved word (.readCas s) word .readLoad
  | uncounted : Moved word .readUnlock ((word + (2 ^ 32 - 1)) % 2 ^ 32) .idle
  | locked (hzero : word = 0) : Moved word .writeCas writerBit .writing
  | retries : Moved word .writeCas word .writeCas
  | unlocked : Moved word .writeUnlock 0 .idle

theorem moved_of_move {word word' : ℕ} {weak : Bool} {pc pc' : Pc}
    (hmove : move word weak pc = some (word', pc')) : Moved word pc word' pc' := by
  cases pc with
  | idle | reading | writing => cases hmove
  | readLoad =>
      simp only [move, ne_eq, ite_not] at hmove
      split at hmove
      · rename_i hbit
        cases hmove
        exact .loaded hbit
      · cases hmove
        exact .yields
  | readCas s =>
      simp only [move] at hmove
      split at hmove
      · rename_i hwon
        obtain ⟨rfl, -⟩ := hwon
        obtain ⟨rfl, rfl⟩ := Prod.mk.inj (Option.some.inj hmove)
        exact .counted
      · cases hmove
        exact .failed s
  | readUnlock =>
      obtain ⟨rfl, rfl⟩ := Prod.mk.inj (Option.some.inj hmove)
      exact .uncounted
  | writeCas =>
      simp only [move] at hmove
      split at hmove
      · rename_i hwon
        cases hmove
        exact .locked hwon.1
      · cases hmove
        exact .retries
  | writeUnlock =>
      cases hmove
      exact .unlocked

/-! ## The encoding of the word -/

/-- The word is the number of readers if there is no writer.  If there is a writer, it is the writer bit,
the writer is the only one, and there are no readers. -/
inductive Encodes (word : ℕ) (pc : Thread → Pc) : Prop
  | readers (hcount : headcount Pc.reads pc = word) (hlt : word < 2 ^ 31)
      (hwriters : ∀ t, (pc t).writes = false)
  | writer (t : Thread) (hword : word = writerBit) (hwriter : (pc t).writes = true)
      (honly : ∀ u, (pc u).writes = true → u = t) (hreaders : headcount Pc.reads pc = 0)

namespace Encodes

variable {word : ℕ} {pc : Thread → Pc} {t : Thread} {pc' : Pc}

/-- A thread moves on without getting or giving up the lock. -/
theorem stay (h : Encodes word pc) (hreads : pc'.reads = (pc t).reads)
    (hwrites : pc'.writes = (pc t).writes) : Encodes word (update pc t pc') := by
  have hkeep : ∀ u, (update pc t pc' u).writes = (pc u).writes := apply_update_self hwrites
  cases h with
  | readers hcount hlt hwriters =>
      refine .readers ((headcount_stay hreads).trans hcount) hlt fun u => ?_
      rw [hkeep]
      exact hwriters u
  | writer w hword hwriter honly hreaders =>
      refine .writer w hword ?_ (fun u hu => ?_) ((headcount_stay hreads).trans hreaders)
      · rw [hkeep]
        exact hwriter
      · rw [hkeep] at hu
        exact honly u hu

omit [DecidableEq Thread] in
/-- If a thread reads, the word is the number of readers. -/
theorem of_reads (h : Encodes word pc) (hreads : (pc t).reads = true) :
    headcount Pc.reads pc = word ∧ word < 2 ^ 31 ∧ ∀ u, (pc u).writes = false := by
  cases h with
  | readers hcount hlt hwriters => exact ⟨hcount, hlt, hwriters⟩
  | writer w hword hwriter honly hreaders =>
      have hnot := headcount_eq_zero.mp hreaders t
      rw [hreads] at hnot
      cases hnot

omit [DecidableEq Thread] in
/-- If a thread writes, there are no readers and no other writers. -/
theorem of_writes (h : Encodes word pc) (hwrites : (pc t).writes = true) :
    word = writerBit ∧ headcount Pc.reads pc = 0 ∧ ∀ u, (pc u).writes = true → u = t := by
  cases h with
  | readers hcount hlt hwriters =>
      rw [hwriters t] at hwrites
      cases hwrites
  | writer w hword hwriter honly hreaders =>
      obtain rfl : t = w := honly t hwrites
      exact ⟨hword, hreaders, honly⟩

omit [DecidableEq Thread] in
/-- Without the writer bit the word is the number of readers. -/
theorem of_bit (h : Encodes word pc) (hbit : word &&& writerBit = 0) :
    headcount Pc.reads pc = word ∧ word < 2 ^ 31 ∧ ∀ u, (pc u).writes = false := by
  cases h with
  | readers hcount hlt hwriters => exact ⟨hcount, hlt, hwriters⟩
  | writer w hword hwriter honly hreaders =>
      rw [hword] at hbit
      exact absurd hbit (by decide)

/-- Without a writer, nobody is one after a thread that is not has moved on. -/
theorem writes_update (hwriters : ∀ u, (pc u).writes = false) (hpc' : pc'.writes = false) (u : Thread) :
    (update pc t pc' u).writes = false :=
  forall_update (P := fun _ p => Pc.writes p = false) (Q := fun _ p => Pc.writes p = false) hwriters
    (fun _ _ hu => hu) hpc' u

/-- A reader gets the lock. -/
theorem counted (h : Encodes word pc) (hbit : word &&& writerBit = 0) (hpc : (pc t).reads = false)
    (hreads : pc'.reads = true) (hwrites : pc'.writes = false)
    (hlt : headcount Pc.reads (update pc t pc') < 2 ^ 31) :
    Encodes ((word + 1) % 2 ^ 32) (update pc t pc') := by
  obtain ⟨hcount, hword, hwriters⟩ := h.of_bit hbit
  have hnew : headcount Pc.reads (update pc t pc') = ((word + 1 : ℕ) : ℕ∞) := by
    rw [headcount_enter hpc hreads, hcount]
    rfl
  rw [hnew] at hlt
  have hlt : word + 1 < 2 ^ 31 := by exact_mod_cast hlt
  rw [Nat.mod_eq_of_lt (by omega)]
  exact .readers hnew hlt (writes_update hwriters hwrites)

/-- A reader gives the lock up: the subtraction does not wrap, as the reader itself was counted. -/
theorem uncounted (h : Encodes word pc) (hpc : (pc t).reads = true) (hreads : pc'.reads = false)
    (hwrites : pc'.writes = false) : Encodes ((word + (2 ^ 32 - 1)) % 2 ^ 32) (update pc t pc') := by
  obtain ⟨hcount, hword, hwriters⟩ := h.of_reads hpc
  have hleave := headcount_leave hpc hreads
  rw [hcount] at hleave
  obtain ⟨rest, hrest⟩ : ∃ rest : ℕ, headcount Pc.reads (update pc t pc') = rest := by
    have hfinite : headcount Pc.reads (update pc t pc') ≠ ⊤ := by
      intro htop
      rw [htop, top_add] at hleave
      exact ENat.natCast_ne_top word hleave.symm
    exact ⟨_, (ENat.natCast_toNat hfinite).symm⟩
  rw [hrest] at hleave
  have hword' : rest + 1 = word := by exact_mod_cast hleave
  have hmod : (word + (2 ^ 32 - 1)) % 2 ^ 32 = rest := by omega
  rw [hmod]
  exact .readers hrest (by omega) (writes_update hwriters hwrites)

/-- A writer gets a free lock. -/
theorem locked (h : Encodes 0 pc) (hpc : (pc t).reads = false) (hreads : pc'.reads = false)
    (hwrites : pc'.writes = true) : Encodes writerBit (update pc t pc') := by
  obtain ⟨hcount, -, hwriters⟩ := h.of_bit (Nat.zero_and _)
  refine .writer t rfl (by rwa [update_self]) (fun u hu => ?_) ?_
  · by_contra hut
    rw [update_of_ne hut, hwriters u] at hu
    cases hu
  · rw [headcount_stay (by rw [hreads, hpc]), hcount]
    rfl

/-- The writer gives the lock up: its store erases nothing but the writer bit. -/
theorem unlocked (h : Encodes word pc) (hpc : (pc t).writes = true) (hpcr : (pc t).reads = false)
    (hreads : pc'.reads = false) (hwrites : pc'.writes = false) : Encodes 0 (update pc t pc') := by
  obtain ⟨-, hreaders, honly⟩ := h.of_writes hpc
  refine .readers ?_ (by omega) fun u => ?_
  · rw [headcount_stay (by rw [hreads, hpcr]), hreaders]
    rfl
  · by_cases hut : u = t
    · rw [hut, update_self]
      exact hwrites
    · rw [update_of_ne hut, ← Bool.not_eq_true]
      exact fun hu => hut (honly u hu)

end Encodes

/-- The lock in a run: a reader that is about to count itself in has seen no writer bit. -/
structure Locked (s : State Thread) : Prop where
  encodes : Encodes s.word s.pc
  loaded : ∀ t word, s.pc t = .readCas word → word &&& writerBit = 0

namespace Locked

variable {s s' : State Thread} {t : Thread} {pc' : Pc}

theorem loaded_update (h : Locked s) (hpc' : ∀ word, pc' = .readCas word → word &&& writerBit = 0)
    (u : Thread) (word : ℕ) (hu : update s.pc t pc' u = .readCas word) : word &&& writerBit = 0 := by
  rcases update_cases hu with ⟨-, hpc⟩ | ⟨-, hu⟩
  · exact hpc' word hpc
  · exact h.loaded u word hu

/-- A call, which does not concern the word. -/
theorem enter (h : Locked s) (hreads : pc'.reads = (s.pc t).reads)
    (hwrites : pc'.writes = (s.pc t).writes) (hpc' : ∀ word, pc' ≠ .readCas word) :
    Locked { s with pc := update s.pc t pc' } :=
  ⟨h.encodes.stay hreads hwrites, h.loaded_update fun word heq => absurd heq (hpc' word)⟩

/-- An atomic step of one thread. -/
theorem next (h : Locked s) {word' : ℕ} {weak : Bool}
    (hmove : move s.word weak (s.pc t) = some (word', pc'))
    (hlt : headcount Pc.reads (update s.pc t pc') < 2 ^ 31) :
    Locked ⟨word', update s.pc t pc'⟩ := by
  have hmoved := moved_of_move hmove
  generalize hpc : s.pc t = place at hmoved
  refine ⟨?_, h.loaded_update ?_⟩
  · cases hmoved with
    | yields | retries => exact h.encodes.stay (by rw [hpc]) (by rw [hpc])
    | loaded | failed => exact h.encodes.stay (by rw [hpc]; rfl) (by rw [hpc]; rfl)
    | counted => exact h.encodes.counted (h.loaded t _ hpc) (by rw [hpc]; rfl) rfl rfl hlt
    | uncounted => exact h.encodes.uncounted (by rw [hpc]; rfl) rfl rfl
    | locked hzero => exact (hzero ▸ h.encodes).locked (by rw [hpc]; rfl) rfl rfl
    | unlocked => exact h.encodes.unlocked (by rw [hpc]; rfl) (by rw [hpc]; rfl) rfl rfl
  · intro word heq
    cases hmoved with
    | loaded hbit =>
        obtain rfl := Pc.readCas.inj heq
        exact hbit
    | _ => cases heq

/-- Every step keeps the encoding of the word. -/
theorem step {a : Action Thread} (h : Locked s) (hallowed : Allowed s a) (hstep : step s a = some s') :
    Locked s' := by
  have hlt := hallowed s' hstep
  cases a with
  | next t weak =>
      obtain ⟨⟨word', pc'⟩, hmove, rfl⟩ := Option.map_eq_some_iff.mp hstep
      exact h.next hmove hlt
  | readLock t | writeLock t | readUnlock t | writeUnlock t =>
      obtain ⟨hpc, rfl⟩ := Option.ite_none_right_eq_some.mp hstep |>.imp_right Option.some.inj
      exact h.enter (by rw [hpc]; rfl) (by rw [hpc]; rfl) (by simp)

end Locked

theorem Reachable.locked {s : State Thread} (h : Reachable s) : Locked s := by
  apply Interleaving.Reachable.invariant (I := Locked) h
  · rintro s rfl
    refine ⟨.readers (headcount_eq_zero.mpr fun _ => rfl) (by simp [init]) fun _ => rfl, ?_⟩
    intro t word ht
    cases ht
  · exact fun s s' a hs hallowed hstep => hs.step hallowed hstep

/-- A writer holds the lock alone, and the word is the number of readers or the writer bit. -/
structure Exclusive (s : State Thread) : Prop where
  writer_alone : ∀ t u, (s.pc t).writes = true → (s.pc u).reads = false
  writer_unique : ∀ t u, (s.pc t).writes = true → (s.pc u).writes = true → t = u
  word_eq : ((∀ t, (s.pc t).writes = false) ∧ headcount Pc.reads s.pc = s.word) ∨
    ((∃ t, (s.pc t).writes = true) ∧ s.word = writerBit)

/-- In every run a writer excludes all others, and the word says who holds the lock. -/
theorem exclusive_of_reachable {s : State Thread} (hreach : Reachable s) : Exclusive s := by
  have h := hreach.locked.encodes
  refine ⟨fun t u ht => ?_, fun t u ht hu => ?_, ?_⟩
  · exact headcount_eq_zero.mp (h.of_writes ht).2.1 u
  · exact (h.of_writes hu).2.2 t ht
  · cases h with
    | readers hcount _ hwriters => exact Or.inl ⟨hwriters, hcount⟩
    | writer t hword hwriter _ _ => exact Or.inr ⟨⟨t, hwriter⟩, hword⟩

/-! ## A run with two readers and a writer -/

/-- Fewer than `2 ^ 31` threads are fewer than `2 ^ 31` readers. -/
theorem allowed_of_card [Fintype Thread] (hcard : Fintype.card Thread < 2 ^ 31) (s : State Thread)
    (a : Action Thread) : Allowed s a := by
  intro s' _
  refine (Interleaving.headcount_le_card Pc.reads s'.pc).trans_lt ?_
  exact_mod_cast hcard

/-- Both threads read, a writer waits, and gets the lock when they are through. -/
theorem exclusive_after_readers : ∃ s : State (Fin 3), Reachable s ∧ s.word = writerBit ∧
    s.pc 2 = .writing ∧ Exclusive s := by
  let next (t : Fin 3) : Action (Fin 3) := .next t false
  let actions : List (Action (Fin 3)) :=
    [.readLock 0, next 0, .readLock 1, next 1, next 0, next 1, next 1, next 1, .writeLock 2, next 2,
      .readUnlock 0, next 0, next 2, .readUnlock 1, next 1, next 2]
  have hresult : (Interleaving.run step actions init).map (fun s => (s.word, s.pc 2)) =
      some (writerBit, .writing) := by
    decide +kernel
  obtain ⟨s, hrun, hs⟩ := Option.map_eq_some_iff.mp hresult
  obtain ⟨hword, hpc⟩ := Prod.mk.inj hs
  have hreach : Reachable s :=
    Interleaving.Reachable.run (.init rfl) (allowed_of_card (by simp)) hrun
  exact ⟨s, hreach, hword, hpc, exclusive_of_reachable hreach⟩

end LgxRuntime.Threading.RwLock
