import LgxRuntime.Lib.Headcount
import LgxRuntime.Lib.Linearization
import LgxRuntime.Threading.ConcurrentMap
import LgxRuntime.Threading.Mutex

/-!
# The concurrent map, step by step

Threads that use the map at the same time lock the mutex of a bucket, walk along the entries one by one, write one
word after the other, count the entry beside the buckets and unlock the mutex.  A thread that waits for its mutex
sleeps and wakes as the futex lets it.  What the callers see is that each call takes effect at one point of time
between its start and its end, and the calls, in the order of these points, are those of a finite map.

A call is decided by the write that changes its bucket, or by the read that ends its walk.  As only one thread is in a
bucket, what a walk has seen stays true until then (`At`), and what another thread does in its own bucket leaves it
alone.
-/

namespace LgxRuntime.Threading.MapSteps

open Function (update update_self update_of_ne)
open ConcurrentMap (Map Rep Agrees latest lgxConcurrentMapCreate lgxConcurrentMapSize)
open Linearization (Phase)
open Interleaving (headcount)

/-! ## The threads -/

variable {Thread Value : Type}

/-- A call of a thread. -/
inductive Call (Value : Type)
  | insert (key : UInt64) (value : Value)
  | lookup (key : UInt64)
  | remove (key : UInt64)
  deriving DecidableEq

/-- The key of a call. -/
def Call.key : Call Value → UInt64
  | .insert key _ | .lookup key | .remove key => key

/-- What a call returns, and the value that it stores for its caller. -/
abbrev Result (Value : Type) := ThreadingError × Option Value

/-- Where a thread is while it has the mutex of its bucket. -/
inductive Place
  /-- At the test of the walk of an insertion or a lookup, with its `e`. -/
  | find (e : Option ℕ)
  /-- Before `e->value = value`. -/
  | store (e : ℕ)
  /-- Before `*out_value = e->value`. -/
  | load (e : ℕ)
  /-- At the call of `malloc`. -/
  | malloc
  /-- Before the key, the value and the next entry are written into new memory. -/
  | fill (e : ℕ)
  /-- Before `bucket->head = entry`. -/
  | push (e : ℕ)
  /-- Before the count is incremented. -/
  | countUp
  /-- At the test of the walk of a removal, with its `pp`. -/
  | findLink (pp : Option ℕ)
  /-- Before `*pp = victim->next`. -/
  | unlink (pp : Option ℕ) (victim : ℕ)
  /-- Before `free(victim)`. -/
  | free (victim : ℕ)
  /-- Before the count is decremented. -/
  | countDown

/-- Where a thread is. -/
inductive Pc (Value : Type)
  | idle
  /-- In `lgx_mutex_lock`. -/
  | lock (call : Call Value)
  | inside (call : Call Value) (place : Place)
  /-- Before the call of `lgx_mutex_unlock`. -/
  | unlock (call : Call Value) (result : Result Value)
  /-- In `lgx_mutex_unlock`. -/
  | unlocking (call : Call Value) (result : Result Value)

/-- Where a thread begins in its bucket. -/
def Call.start (m : Map Value) : Call Value → Place
  | .insert key _ | .lookup key => .find (m.head (m.index key))
  | .remove _ => .findLink none

/-- The next step in the bucket, with what `malloc` returns if it is called: the map, and where the thread is
afterwards, or what it will return. -/
def move (m : Map Value) (malloc : Option ℕ) : Call Value → Place → Option (Map Value × (Place ⊕ Result Value))
  | .insert key _, .find (some e) =>
      some (m, .inl (if (m.entry e).key = key then .store e else .find (m.entry e).next))
  | .insert _ _, .find none => some (m, .inl .malloc)
  | .insert _ value, .store e =>
      some ({ m with entry := update m.entry e { m.entry e with value } }, .inr (.success, none))
  | .insert _ _, .malloc =>
      match malloc with
      | none => some (m, .inr (.outOfMemory, none))
      | some e => some (m, .inl (.fill e))
  | .insert key value, .fill e =>
      some ({ m with entry := update m.entry e { key, value, next := m.head (m.index key) } }, .inl (.push e))
  | .insert key _, .push e => some ({ m with head := update m.head (m.index key) (some e) }, .inl .countUp)
  | .insert _ _, .countUp => some ({ m with count := wrap64 (m.count + 1) }, .inr (.success, none))
  | .lookup key, .find (some e) =>
      some (m, .inl (if (m.entry e).key = key then .load e else .find (m.entry e).next))
  -- "not found"
  | .lookup _, .find none => some (m, .inr (.queueEmpty, none))
  | .lookup _, .load e => some (m, .inr (.success, some (m.entry e).value))
  | .remove key, .findLink pp =>
      match m.readLink (m.index key) pp with
      | none => some (m, .inr (.queueEmpty, none))
      | some e => some (m, .inl (if (m.entry e).key = key then .unlink pp e else .findLink (some e)))
  | .remove key, .unlink pp victim =>
      some (m.writeLink (m.index key) (m.entry victim).next pp, .inl (.free victim))
  | .remove _, .free _ => some (m, .inl .countDown)
  | .remove _, .countDown => some ({ m with count := sub64 m.count 1 }, .inr (.success, none))
  | _, _ => none

/-- Where a thread is after a step in its bucket. -/
def Pc.after (call : Call Value) : Place ⊕ Result Value → Pc Value
  | .inl place => .inside call place
  | .inr result => .unlock call result

/-- The map with the mutexes of its buckets, the threads, and what they have called and got, the latest first. -/
structure State (Thread Value : Type) where
  map : Map Value
  lock : ℕ → Mutex.State Thread
  pc : Thread → Pc Value
  history : List (Linearization.Event Thread (Call Value) (Result Value))

/-- The bucket of a call. -/
def State.bucket (s : State Thread Value) (call : Call Value) : ℕ :=
  s.map.index call.key

/-- What happens next: a call, a step of a thread in a mutex, its first step with the mutex, a step in its bucket with
what `malloc` returns, the call of `lgx_mutex_unlock`, or a return. -/
inductive Action (Thread Value : Type)
  | call (t : Thread) (call : Call Value)
  | mutex (i : ℕ) (action : Mutex.Action Thread)
  | enter (t : Thread)
  | move (t : Thread) (malloc : Option ℕ)
  | leave (t : Thread)
  | ret (t : Thread)

/-- The steps inside of `lgx_mutex_lock` and `lgx_mutex_unlock`. -/
def inMutex : Mutex.Action Thread → Bool
  | .next _ | .spurious _ | .wake _ _ => true
  | .lock _ | .tryLock _ | .unlock _ => false

variable [DecidableEq Thread]

/-- One step. -/
def step (s : State Thread Value) : Action Thread Value → Option (State Thread Value)
  | .call t call =>
      match s.pc t with
      | .idle => (Mutex.step (s.lock (s.bucket call)) (.lock t)).map fun lock =>
          { s with
            lock := update s.lock (s.bucket call) lock
            pc := update s.pc t (.lock call)
            history := .called t call :: s.history }
      | _ => none
  | .mutex i action =>
      if inMutex action then
        (Mutex.step (s.lock i) action).map fun lock => { s with lock := update s.lock i lock }
      else none
  | .enter t =>
      match s.pc t with
      | .lock call =>
          if (s.lock (s.bucket call)).pc t = .holding then
            some { s with pc := update s.pc t (.inside call (call.start s.map)) }
          else none
      | _ => none
  | .move t malloc =>
      match s.pc t with
      | .inside call place => (move s.map malloc call place).map fun result =>
          { s with map := result.1, pc := update s.pc t (.after call result.2) }
      | _ => none
  | .leave t =>
      match s.pc t with
      | .unlock call result => (Mutex.step (s.lock (s.bucket call)) (.unlock t)).map fun lock =>
          { s with lock := update s.lock (s.bucket call) lock, pc := update s.pc t (.unlocking call result) }
      | _ => none
  | .ret t =>
      match s.pc t with
      | .unlocking call result =>
          if (s.lock (s.bucket call)).pc t = .idle then
            some { s with pc := update s.pc t .idle, history := .returned t result :: s.history }
          else none
      | _ => none

/-- Memory that only this thread uses. -/
def Pc.memory : Pc Value → Option ℕ
  | .inside _ (.fill e) | .inside _ (.push e) | .inside _ (.free e) => some e
  | _ => none

/-- `malloc` fails, or returns memory that is not in use; `futex_wake` wakes a thread if one sleeps. -/
def Allowed (s : State Thread Value) : Action Thread Value → Prop
  | .mutex i action => Mutex.Allowed (s.lock i) action
  | .move _ (some e) =>
      (0 < e ∧ e < 2 ^ 64) ∧ (∀ i, ¬ s.map.InBucket i e) ∧ ∀ u, (s.pc u).memory ≠ some e
  | _ => True

/-- A new map. -/
def Initial (s : State Thread Value) : Prop :=
  ∃ bucketCount ≤ 2 ^ 63, ∃ contents,
    s = ⟨lgxConcurrentMapCreate bucketCount contents, fun _ => Mutex.init, fun _ => .idle, []⟩

/-- The states of the runs of any number of threads. -/
def Reachable : State Thread Value → Prop :=
  Interleaving.Reachable Initial step Allowed

/-! ## The sequential map -/

/-- The event of a decided call. -/
def event : Call Value × Result Value → ConcurrentMap.Event Value
  | (.insert key value, result) => .insert key value result.1
  | (.lookup key, result) => .lookup key result.1 result.2
  | (.remove key, result) => .remove key result.1

/-- What a finite map with these values answers.  An insertion of a key without a value may find no memory. -/
def Answers (values : UInt64 → Option Value) : Call Value → Result Value → Prop
  | .insert key _, result => result = (.success, none) ∨ result = (.outOfMemory, none) ∧ values key = none
  | .lookup key, result =>
      result = match values key with
        | some value => (.success, some value)
        | none => (.queueEmpty, none)
  | .remove key, result =>
      result = match values key with
        | some _ => (.success, none)
        | none => (.queueEmpty, none)

/-- Every call was answered as the finite map of the last values does, the latest call first. -/
def Legal : List (Call Value × Result Value) → Prop
  | [] => True
  | (call, result) :: decisions => Answers (latest (decisions.map event)) call result ∧ Legal decisions

/-! ## What a step does -/

/-- A call is decided before the entry is counted. -/
def Place.decided : Place → Bool
  | .countUp | .free _ | .countDown => true
  | _ => false

/-- Where the call of a thread is. -/
def Pc.phase : Pc Value → Phase (Call Value) (Result Value)
  | .idle => .idle
  | .lock call => .pending call
  | .inside call place => if place.decided then .decided (.success, none) else .pending call
  | .unlock _ result | .unlocking _ result => .decided result

/-- What a step in a bucket does to the map, where it leads, and what it decides. -/
inductive Moved (m : Map Value) (malloc : Option ℕ) :
    Call Value → Place → Map Value → Place ⊕ Result Value → Option (Result Value) → Prop
  | missed {call e} (hkey : (m.entry e).key ≠ call.key) :
      Moved m malloc call (.find (some e)) m (.inl (.find (m.entry e).next)) none
  | toStore {key value e} (hkey : (m.entry e).key = key) :
      Moved m malloc (.insert key value) (.find (some e)) m (.inl (.store e)) none
  | toLoad {key e} (hkey : (m.entry e).key = key) :
      Moved m malloc (.lookup key) (.find (some e)) m (.inl (.load e)) none
  | absent {key value} : Moved m malloc (.insert key value) (.find none) m (.inl .malloc) none
  | store {key value e} :
      Moved m malloc (.insert key value) (.store e)
        { m with entry := update m.entry e { m.entry e with value } } (.inr (.success, none)) (some (.success, none))
  | noMemory {key value} :
      Moved m malloc (.insert key value) .malloc m (.inr (.outOfMemory, none)) (some (.outOfMemory, none))
  | memory {key value e} (hmalloc : malloc = some e) :
      Moved m malloc (.insert key value) .malloc m (.inl (.fill e)) none
  | fill {key value e} :
      Moved m malloc (.insert key value) (.fill e)
        { m with entry := update m.entry e { key, value, next := m.head (m.index key) } } (.inl (.push e)) none
  | push {key value e} :
      Moved m malloc (.insert key value) (.push e)
        { m with head := update m.head (m.index key) (some e) } (.inl .countUp) (some (.success, none))
  | countUp {key value} :
      Moved m malloc (.insert key value) .countUp { m with count := wrap64 (m.count + 1) } (.inr (.success, none)) none
  | notFound {key} :
      Moved m malloc (.lookup key) (.find none) m (.inr (.queueEmpty, none)) (some (.queueEmpty, none))
  | load {key e} :
      Moved m malloc (.lookup key) (.load e) m (.inr (.success, some (m.entry e).value))
        (some (.success, some (m.entry e).value))
  | missedLink {key pp e} (hread : m.readLink (m.index key) pp = some e) (hkey : (m.entry e).key ≠ key) :
      Moved m malloc (.remove key) (.findLink pp) m (.inl (.findLink (some e))) none
  | toUnlink {key pp e} (hread : m.readLink (m.index key) pp = some e) (hkey : (m.entry e).key = key) :
      Moved m malloc (.remove key) (.findLink pp) m (.inl (.unlink pp e)) none
  | noLink {key pp} (hread : m.readLink (m.index key) pp = none) :
      Moved m malloc (.remove key) (.findLink pp) m (.inr (.queueEmpty, none)) (some (.queueEmpty, none))
  | unlink {key pp victim} :
      Moved m malloc (.remove key) (.unlink pp victim) (m.writeLink (m.index key) (m.entry victim).next pp)
        (.inl (.free victim)) (some (.success, none))
  | free {key victim} : Moved m malloc (.remove key) (.free victim) m (.inl .countDown) none
  | countDown {key} :
      Moved m malloc (.remove key) .countDown { m with count := sub64 m.count 1 } (.inr (.success, none)) none

theorem moved_of_move {m m' : Map Value} {malloc : Option ℕ} {call : Call Value} {place : Place}
    {next : Place ⊕ Result Value} (hmove : move m malloc call place = some (m', next)) :
    ∃ decision, Moved m malloc call place m' next decision := by
  cases call with
  | insert key value =>
      cases place with
      | find e =>
          cases e with
          | none =>
              cases hmove
              exact ⟨_, .absent⟩
          | some e =>
              rw [move] at hmove
              split_ifs at hmove with hkey
              · cases hmove
                exact ⟨_, .toStore hkey⟩
              · cases hmove
                exact ⟨_, .missed hkey⟩
      | malloc =>
          cases malloc with
          | none =>
              cases hmove
              exact ⟨_, .noMemory⟩
          | some e =>
              cases hmove
              exact ⟨_, .memory rfl⟩
      | store e =>
          cases hmove
          exact ⟨_, .store⟩
      | fill e =>
          cases hmove
          exact ⟨_, .fill⟩
      | push e =>
          cases hmove
          exact ⟨_, .push⟩
      | countUp =>
          cases hmove
          exact ⟨_, .countUp⟩
      | load | findLink | unlink | free | countDown => cases hmove
  | lookup key =>
      cases place with
      | find e =>
          cases e with
          | none =>
              cases hmove
              exact ⟨_, .notFound⟩
          | some e =>
              rw [move] at hmove
              split_ifs at hmove with hkey
              · cases hmove
                exact ⟨_, .toLoad hkey⟩
              · cases hmove
                exact ⟨_, .missed hkey⟩
      | load e =>
          cases hmove
          exact ⟨_, .load⟩
      | store | malloc | fill | push | countUp | findLink | unlink | free | countDown => cases hmove
  | remove key =>
      cases place with
      | findLink pp =>
          rw [move] at hmove
          cases hread : m.readLink (m.index key) pp with
          | none =>
              rw [hread] at hmove
              cases hmove
              exact ⟨_, .noLink hread⟩
          | some e =>
              simp only [hread] at hmove
              split_ifs at hmove with hkey
              · cases hmove
                exact ⟨_, .toUnlink hread hkey⟩
              · cases hmove
                exact ⟨_, .missedLink hread hkey⟩
      | unlink pp victim =>
          cases hmove
          exact ⟨_, .unlink⟩
      | free victim =>
          cases hmove
          exact ⟨_, .free⟩
      | countDown =>
          cases hmove
          exact ⟨_, .countDown⟩
      | find | store | load | malloc | fill | push | countUp => cases hmove

section

variable {m m' : Map Value} {malloc : Option ℕ} {call : Call Value} {place : Place} {next : Place ⊕ Result Value}
  {decision : Option (Result Value)}

theorem Moved.mask (h : Moved m malloc call place m' next decision) : m'.mask = m.mask := by
  cases h with
  | @unlink key pp victim => cases pp <;> rfl
  | _ => rfl

/-- A step that decides a call leads from a place before to one after it, and another step does not. -/
theorem Moved.phase (h : Moved m malloc call place m' next decision) :
    match decision with
    | none => (Pc.after call next).phase = (Pc.inside call place).phase
    | some result => (Pc.inside call place).phase = .pending call ∧ (Pc.after call next).phase = .decided result := by
  cases h with
  | missed | toStore | toLoad | absent | memory | fill | countUp | missedLink | toUnlink | free | countDown => rfl
  | store | noMemory | push | notFound | load | noLink | unlink => exact ⟨rfl, rfl⟩

end

/-! ## The count -/

/-- A thread that has linked an entry and not counted it. -/
def Pc.linked : Pc Value → Bool
  | .inside _ .countUp => true
  | _ => false

/-- A thread that has unlinked an entry that is still counted. -/
def Pc.unlinked : Pc Value → Bool
  | .inside _ (.free _) | .inside _ .countDown => true
  | _ => false

/-- A place without memory of the thread's own, where every entry is counted. -/
def Place.plain : Place → Bool
  | .find _ | .store _ | .load _ | .malloc | .findLink _ | .unlink _ _ => true
  | .fill _ | .push _ | .countUp | .free _ | .countDown => false

theorem Place.of_plain (call : Call Value) {place : Place} (h : place.plain = true) :
    (Pc.inside call place).memory = none ∧ (Pc.inside call place).linked = false ∧
      (Pc.inside call place).unlinked = false := by
  cases place with
  | find | store | load | malloc | findLink | unlink => exact ⟨rfl, rfl, rfl⟩
  | fill | push | countUp | free | countDown => exact nomatch h

/-- The count is the number of entries, but for the threads that are about to change it. -/
def Counted (count card : ℕ) (pc : Thread → Pc Value) : Prop :=
  ∃ ups downs : ℕ, headcount Pc.linked pc = ups ∧ headcount Pc.unlinked pc = downs ∧
    count < 2 ^ 64 ∧ (count + ups) % 2 ^ 64 = (card + downs) % 2 ^ 64

theorem exists_of_add_one {x : ℕ∞} {n : ℕ} (h : x + 1 = n) : ∃ k : ℕ, x = k ∧ n = k + 1 := by
  have hle : x ≤ n := h ▸ le_self_add
  obtain ⟨k, rfl⟩ := ENat.ne_top_iff_exists.mp (ne_top_of_le_ne_top (ENat.natCast_ne_top n) hle)
  exact ⟨k, rfl, by exact_mod_cast h.symm⟩

namespace Counted

variable {count card : ℕ} {pc : Thread → Pc Value} {t : Thread} {pc' : Pc Value}

theorem stay (h : Counted count card pc) (hlinked : pc'.linked = (pc t).linked)
    (hunlinked : pc'.unlinked = (pc t).unlinked) : Counted count card (update pc t pc') := by
  obtain ⟨ups, downs, hups, hdowns, hlt, hcount⟩ := h
  refine ⟨ups, downs, ?_, ?_, hlt, hcount⟩
  · rwa [Interleaving.headcount_stay hlinked]
  · rwa [Interleaving.headcount_stay hunlinked]

theorem link (h : Counted count card pc) (hold : (pc t).linked = false) (hnew : pc'.linked = true)
    (hunlinked : pc'.unlinked = (pc t).unlinked) : Counted count (card + 1) (update pc t pc') := by
  obtain ⟨ups, downs, hups, hdowns, hlt, hcount⟩ := h
  refine ⟨ups + 1, downs, ?_, ?_, hlt, by omega⟩
  · rw [Interleaving.headcount_enter hold hnew, hups]
    rfl
  · rwa [Interleaving.headcount_stay hunlinked]

theorem up (h : Counted count card pc) (hold : (pc t).linked = true) (hnew : pc'.linked = false)
    (hunlinked : pc'.unlinked = (pc t).unlinked) : Counted (wrap64 (count + 1)) card (update pc t pc') := by
  obtain ⟨ups, downs, hups, hdowns, hlt, hcount⟩ := h
  have hleave := Interleaving.headcount_leave hold hnew
  rw [hups] at hleave
  obtain ⟨ups, hups', rfl⟩ := exists_of_add_one hleave
  refine ⟨ups, downs, hups', ?_, Nat.mod_lt _ (by norm_num), ?_⟩
  · rwa [Interleaving.headcount_stay hunlinked]
  · rw [wrap64]
    omega

theorem unlink (h : Counted count (card + 1) pc) (hold : (pc t).unlinked = false) (hnew : pc'.unlinked = true)
    (hlinked : pc'.linked = (pc t).linked) : Counted count card (update pc t pc') := by
  obtain ⟨ups, downs, hups, hdowns, hlt, hcount⟩ := h
  refine ⟨ups, downs + 1, ?_, ?_, hlt, by omega⟩
  · rwa [Interleaving.headcount_stay hlinked]
  · rw [Interleaving.headcount_enter hold hnew, hdowns]
    rfl

theorem down (h : Counted count card pc) (hold : (pc t).unlinked = true) (hnew : pc'.unlinked = false)
    (hlinked : pc'.linked = (pc t).linked) : Counted (sub64 count 1) card (update pc t pc') := by
  obtain ⟨ups, downs, hups, hdowns, hlt, hcount⟩ := h
  have hleave := Interleaving.headcount_leave hold hnew
  rw [hdowns] at hleave
  obtain ⟨downs, hdowns', rfl⟩ := exists_of_add_one hleave
  refine ⟨ups, downs, ?_, hdowns', Nat.mod_lt _ (by norm_num), ?_⟩
  · rwa [Interleaving.headcount_stay hlinked]
  · simp only [sub64, wrap64]
    omega

omit [DecidableEq Thread] in
/-- Nobody is about to change the count. -/
theorem exact (h : Counted count card pc) (hlinked : ∀ t, (pc t).linked = false)
    (hunlinked : ∀ t, (pc t).unlinked = false) (hcard : card < 2 ^ 64) : count = card := by
  obtain ⟨ups, downs, hups, hdowns, hlt, hcount⟩ := h
  rw [Interleaving.headcount_eq_zero.mpr hlinked] at hups
  rw [Interleaving.headcount_eq_zero.mpr hunlinked] at hdowns
  obtain rfl : 0 = ups := by exact_mod_cast hups
  obtain rfl : 0 = downs := by exact_mod_cast hdowns
  omega

end Counted

/-! ## What the threads know -/

/-- What a thread knows at a place, if its bucket is the list. -/
def At (m : Map Value) (l : List ℕ) (call : Call Value) : Place → Prop
  | .find e => ∃ l₁ l₂, l = l₁ ++ l₂ ∧ l₂.head? = e ∧ ∀ x ∈ l₁, (m.entry x).key ≠ call.key
  | .store e | .load e => e ∈ l ∧ (m.entry e).key = call.key
  | .malloc => ∀ x ∈ l, (m.entry x).key ≠ call.key
  | .fill e => (0 < e ∧ e < 2 ^ 64) ∧ ∀ x ∈ l, (m.entry x).key ≠ call.key
  | .push e => (0 < e ∧ e < 2 ^ 64) ∧ (∀ x ∈ l, (m.entry x).key ≠ call.key) ∧
      ∀ key value, call = .insert key value → m.entry e = ⟨key, value, m.head (m.index key)⟩
  | .findLink pp => ∃ l₁ l₂, l = l₁ ++ l₂ ∧ l₁.getLast? = pp ∧ ∀ x ∈ l₁, (m.entry x).key ≠ call.key
  | .unlink pp victim => (∃ l₁ l₂, l = l₁ ++ victim :: l₂ ∧ l₁.getLast? = pp) ∧ (m.entry victim).key = call.key
  | .countUp | .free _ | .countDown => True

/-- It stays true if the bucket and the memory of the thread do not change. -/
theorem At.congr {m m' : Map Value} {l : List ℕ} {call : Call Value} {place : Place} (h : At m l call place)
    (hmask : m'.mask = m.mask) (hhead : m'.head (m.index call.key) = m.head (m.index call.key))
    (hkey : ∀ x ∈ l, (m'.entry x).key = (m.entry x).key)
    (hmemory : ∀ e, (Pc.inside call place).memory = some e → m'.entry e = m.entry e) : At m' l call place := by
  have hindex : ∀ key, m'.index key = m.index key := fun key => by rw [Map.index, Map.index, hmask]
  cases place with
  | find e =>
      obtain ⟨l₁, l₂, rfl, hhead, hbefore⟩ := h
      refine ⟨l₁, l₂, rfl, hhead, fun x hx => ?_⟩
      rw [hkey x (List.mem_append_left _ hx)]
      exact hbefore x hx
  | store e | load e =>
      obtain ⟨hmem, hsame⟩ := h
      exact ⟨hmem, (hkey e hmem).trans hsame⟩
  | malloc =>
      intro x hx
      rw [hkey x hx]
      exact h x hx
  | fill e =>
      refine ⟨h.1, fun x hx => ?_⟩
      rw [hkey x hx]
      exact h.2 x hx
  | push e =>
      refine ⟨h.1, fun x hx => ?_, fun key value hcall => ?_⟩
      · rw [hkey x hx]
        exact h.2.1 x hx
      · subst hcall
        rw [hmemory e rfl, h.2.2 key value rfl, hindex key]
        exact congrArg _ hhead.symm
  | findLink pp =>
      obtain ⟨l₁, l₂, rfl, hlast, hbefore⟩ := h
      refine ⟨l₁, l₂, rfl, hlast, fun x hx => ?_⟩
      rw [hkey x (List.mem_append_left _ hx)]
      exact hbefore x hx
  | unlink pp victim =>
      obtain ⟨⟨l₁, l₂, rfl, hlast⟩, hsame⟩ := h
      exact ⟨⟨l₁, l₂, rfl, hlast⟩, (hkey victim (by simp)).trans hsame⟩
  | countUp | free victim | countDown => trivial

/-! ## The buckets -/

section

variable {m m' : Map Value} {chain : ℕ → List ℕ} {entries : Finset ℕ}

/-- The buckets depend on their own entries only. -/
theorem rep_of_entries (h : Rep m chain entries) (hmask : m'.mask = m.mask) (hbuckets : m'.bucketCount = m.bucketCount)
    (hhead : m'.head = m.head) (hcount : m'.count = m.count) (hentry : ∀ x ∈ entries, m'.entry x = m.entry x) :
    Rep m' chain entries := by
  have hindex : ∀ key, m'.index key = m.index key := fun key => by rw [Map.index, Map.index, hmask]
  refine ⟨?_, fun i => ?_, fun i x => ?_, fun x hx y hy hkey => ?_, h.address, hcount.trans h.count⟩
  · rw [hmask, hbuckets]
    exact h.buckets
  · rw [hhead]
    exact (h.linked i).congr fun x hx => by rw [hentry x ((h.mem_iff i x).mp hx).1]
  · rw [h.mem_iff, hindex]
    exact and_congr_right fun hx => by rw [hentry x hx]
  · rw [hentry x hx, hentry y hy] at hkey
    exact h.key_inj x hx y hy hkey

theorem agrees_of_entries {history : List (ConcurrentMap.Event Value)} (h : Agrees history m entries)
    (hentry : ∀ x ∈ entries, m'.entry x = m.entry x) : Agrees history m' entries := by
  intro key value
  rw [h key value]
  exact exists_congr fun x => and_congr_right fun hx => by rw [hentry x hx]

variable (m) (i : ℕ) (value : Option ℕ)

theorem writeLink_count (link : Option ℕ) (count count' : ℕ) :
    { ({ m with count }).writeLink i value link with count := count' } =
      { m.writeLink i value link with count := count' } := by
  cases link <;> rfl

theorem writeLink_counted (link : Option ℕ) : (m.writeLink i value link).count = m.count := by
  cases link <;> rfl

theorem writeLink_mask (link : Option ℕ) : (m.writeLink i value link).mask = m.mask := by
  cases link <;> rfl

theorem writeLink_head (link : Option ℕ) {j : ℕ} (hj : j ≠ i) : (m.writeLink i value link).head j = m.head j := by
  cases link with
  | none => exact update_of_ne hj ..
  | some p => rfl

theorem writeLink_of_ne (link : Option ℕ) {x : ℕ} (hx : link ≠ some x) :
    (m.writeLink i value link).entry x = m.entry x := by
  cases link with
  | none => rfl
  | some p => exact update_of_ne (fun heq => hx (congrArg some heq.symm)) ..

end

/-- The buckets are the lists of `chain`, with the entries that the decided calls leave, and every thread knows what it
should; the memory of a thread is not in a bucket. -/
structure Stored (decisions : List (Call Value × Result Value)) (m : Map Value) (pc : Thread → Pc Value)
    (chain : ℕ → List ℕ) (entries : Finset ℕ) : Prop where
  rep : Rep { m with count := entries.card } chain entries
  agrees : Agrees (decisions.map event) m entries
  fresh : ∀ t e, (pc t).memory = some e → e ∉ entries
  own : ∀ t u e, (pc t).memory = some e → (pc u).memory = some e → t = u
  knows : ∀ t call place, pc t = .inside call place → At m (chain (m.index call.key)) call place
  counted : Counted m.count entries.card pc

namespace Stored

variable {decisions decisions' : List (Call Value × Result Value)} {m m' : Map Value} {pc : Thread → Pc Value}
  {chain chain' : ℕ → List ℕ} {entries entries' : Finset ℕ} {t : Thread} {pc' : Pc Value} {call : Call Value}
  {i : ℕ}

omit [DecidableEq Thread] in
theorem mem_entries (h : Stored decisions m pc chain entries) {x : ℕ} (hx : x ∈ chain i) : x ∈ entries :=
  ((h.rep.mem_iff i x).mp hx).1

omit [DecidableEq Thread] in
/-- A key is nowhere if it is not in its bucket. -/
theorem key_ne (h : Stored decisions m pc chain entries) {key : UInt64}
    (hnot : ∀ x ∈ chain (m.index key), (m.entry x).key ≠ key) (x : ℕ) (hx : x ∈ entries) : (m.entry x).key ≠ key := by
  intro hkey
  refine hnot x ((h.rep.mem_iff _ x).mpr ⟨hx, ?_⟩) hkey
  rw [← hkey]
  rfl

/-- A thread moves on, and writes to nothing but its bucket and its memory. -/
theorem frame (h : Stored decisions m pc chain entries)
    (halone : ∀ u, u ≠ t → ∀ call place, pc u = .inside call place → m.index call.key ≠ i)
    (hrep : Rep { m' with count := entries'.card } chain' entries')
    (hagrees : Agrees (decisions'.map event) m' entries') (hmask : m'.mask = m.mask)
    (hother : ∀ j, j ≠ i → chain' j = chain j ∧ m'.head j = m.head j)
    (hkey : ∀ j, j ≠ i → ∀ x ∈ chain j, (m'.entry x).key = (m.entry x).key)
    (hmemory : ∀ u, u ≠ t → ∀ e, (pc u).memory = some e → e ∉ entries' ∧ m'.entry e = m.entry e)
    (hnew : ∀ e, pc'.memory = some e → e ∉ entries' ∧ ∀ u, u ≠ t → (pc u).memory ≠ some e)
    (hself : ∀ call place, pc' = .inside call place → At m' (chain' (m'.index call.key)) call place)
    (hcounted : Counted m'.count entries'.card (update pc t pc')) :
    Stored decisions' m' (update pc t pc') chain' entries' := by
  have hindex : ∀ key, m'.index key = m.index key := fun key => by rw [Map.index, Map.index, hmask]
  refine ⟨hrep, hagrees, fun u e hu => ?_,
    Interleaving.apply_unique_update h.own fun e he => (hnew e he).2, fun u call place hu => ?_, hcounted⟩
  · rcases Interleaving.apply_update_cases hu with ⟨-, hu⟩ | ⟨hut, hu⟩
    · exact (hnew e hu).1
    · exact (hmemory u hut e hu).1
  · rcases Interleaving.update_cases hu with ⟨-, hu⟩ | ⟨hut, hu⟩
    · exact hself call place hu
    · have hne := halone u hut call place hu
      rw [hindex, (hother _ hne).1]
      exact (h.knows u call place hu).congr hmask (hother _ hne).2 (hkey _ hne) fun e he =>
        (hmemory u hut e (hu ▸ he)).2

/-- A thread moves on, and writes nothing. -/
theorem quiet (h : Stored decisions m pc chain entries)
    (hagrees : Agrees (decisions'.map event) m entries)
    (hnew : ∀ e, pc'.memory = some e → e ∉ entries ∧ ∀ u, u ≠ t → (pc u).memory ≠ some e)
    (hself : ∀ call place, pc' = .inside call place → At m (chain (m.index call.key)) call place)
    (hlinked : pc'.linked = (pc t).linked) (hunlinked : pc'.unlinked = (pc t).unlinked) :
    Stored decisions' m (update pc t pc') chain entries := by
  refine ⟨h.rep, hagrees, fun u e hu => ?_, Interleaving.apply_unique_update h.own fun e he => (hnew e he).2,
    fun u call place hu => ?_, h.counted.stay hlinked hunlinked⟩
  · rcases Interleaving.apply_update_cases hu with ⟨-, hu⟩ | ⟨hut, hu⟩
    · exact (hnew e hu).1
    · exact h.fresh u e hu
  · rcases Interleaving.update_cases hu with ⟨-, hu⟩ | ⟨hut, hu⟩
    · exact hself call place hu
    · exact h.knows u call place hu

/-- The thread goes to a place without writing anything. -/
theorem goto (h : Stored decisions m pc chain entries) {place place' : Place} (hpc : pc t = .inside call place)
    (hplain : place.plain = true) (hplain' : place'.plain = true)
    (hat : At m (chain (m.index call.key)) call place') :
    Stored decisions m (update pc t (.inside call place')) chain entries := by
  obtain ⟨-, hlinked, hunlinked⟩ := Place.of_plain call hplain
  obtain ⟨hmemory', hlinked', hunlinked'⟩ := Place.of_plain call hplain'
  refine h.quiet h.agrees (fun e he => ?_) (fun call place heq => ?_) ?_ ?_
  · rw [hmemory'] at he
    exact nomatch he
  · cases heq
    exact hat
  · rw [hpc, hlinked, hlinked']
  · rw [hpc, hunlinked, hunlinked']

/-- The thread is done, and has written nothing. -/
theorem finish (h : Stored decisions m pc chain entries) {place : Place} {result : Result Value}
    (hpc : pc t = .inside call place) (hplain : place.plain = true)
    (hagrees : Agrees (decisions'.map event) m entries) :
    Stored decisions' m (update pc t (.unlock call result)) chain entries := by
  obtain ⟨-, hlinked, hunlinked⟩ := Place.of_plain call hplain
  refine h.quiet hagrees (fun e he => nomatch he) (fun call place heq => nomatch heq) ?_ ?_
  · rw [hpc, hlinked]
    rfl
  · rw [hpc, hunlinked]
    rfl

omit [DecidableEq Thread] in
/-- The link that a walk of a removal has come to leads to the rest of the bucket. -/
theorem readLink_eq (h : Stored decisions m pc chain entries) {l₁ l₂ : List ℕ} (hchain : chain i = l₁ ++ l₂) :
    m.readLink i l₁.getLast? = l₂.head? := by
  have hlinked := h.rep.linked i
  rw [hchain] at hlinked
  rw [← hlinked.load_eq]
  cases l₁.getLast? <;> rfl

/-- The value of an entry of the bucket is overwritten. -/
theorem store (h : Stored decisions m pc chain entries) {key : UInt64} {value : Value} {e : ℕ}
    (hpc : pc t = .inside (.insert key value) (.store e))
    (halone : ∀ u, u ≠ t → ∀ call place, pc u = .inside call place → m.index call.key ≠ m.index key) :
    Stored ((.insert key value, (.success, none)) :: decisions)
      { m with entry := update m.entry e { m.entry e with value } }
      (update pc t (.unlock (.insert key value) (.success, none))) chain entries := by
  obtain ⟨hmem, hkey⟩ := h.knows t _ _ hpc
  have he := h.mem_entries hmem
  have hagrees : Agrees (decisions.map event) { m with count := entries.card } entries := h.agrees
  refine h.frame halone (h.rep.setValue e value) (hagrees.setValue h.rep he hkey value) rfl (fun _ _ => ⟨rfl, rfl⟩)
    (fun j _ x _ => ?_) (fun u _ e' he' => ⟨h.fresh u e' he', ?_⟩) (fun _ h => nomatch h) (fun _ _ h => nomatch h) ?_
  · by_cases hx : x = e
    · rw [hx]
      change (update m.entry e _ e).key = _
      rw [update_self]
    · exact congrArg _ (update_of_ne hx ..)
  · have hne : e' ≠ e := by
      rintro rfl
      exact h.fresh u e' he' he
    exact update_of_ne hne ..
  · exact h.counted.stay (by rw [hpc]; rfl) (by rw [hpc]; rfl)

/-- New memory is filled. -/
theorem fill (h : Stored decisions m pc chain entries) {key : UInt64} {value : Value} {e : ℕ}
    (hpc : pc t = .inside (.insert key value) (.fill e))
    (halone : ∀ u, u ≠ t → ∀ call place, pc u = .inside call place → m.index call.key ≠ m.index key) :
    Stored decisions { m with entry := update m.entry e { key, value, next := m.head (m.index key) } }
      (update pc t (.inside (.insert key value) (.push e))) chain entries := by
  obtain ⟨haddress, hnot⟩ := h.knows t _ _ hpc
  have hmemory : (pc t).memory = some e := by rw [hpc]; rfl
  have hfresh := h.fresh t e hmemory
  have hentry : ∀ x, x ≠ e →
      update m.entry e { key, value, next := m.head (m.index key) } x = m.entry x := fun x hx => update_of_ne hx ..
  have hold : ∀ x ∈ entries, update m.entry e { key, value, next := m.head (m.index key) } x = m.entry x := by
    intro x hx
    refine hentry x ?_
    rintro rfl
    exact hfresh hx
  refine h.frame halone (rep_of_entries h.rep rfl rfl rfl rfl hold) (agrees_of_entries h.agrees hold) rfl
    (fun _ _ => ⟨rfl, rfl⟩) (fun j _ x hx => ?_) (fun u hut e' he' => ⟨h.fresh u e' he', ?_⟩) (fun e' he' => ?_)
    (fun call place heq => ?_) ?_
  · exact congrArg _ (hold x (h.mem_entries hx))
  · refine hentry e' ?_
    rintro rfl
    exact hut (h.own u t e' he' hmemory)
  · obtain rfl := Option.some.inj he'
    exact ⟨hfresh, fun u hut hu => hut (h.own u t e hu hmemory)⟩
  · cases heq
    refine ⟨haddress, fun x hx => ?_, fun key' value' hcall => ?_⟩
    · have hkey := congrArg ConcurrentMap.Entry.key (hold x (h.mem_entries hx))
      exact fun heq => hnot x hx (hkey.symm.trans heq)
    · cases hcall
      exact update_self ..
  · exact h.counted.stay (by rw [hpc]; rfl) (by rw [hpc]; rfl)

/-- The new entry is put at the head of the bucket. -/
theorem push (h : Stored decisions m pc chain entries) {key : UInt64} {value : Value} {e : ℕ}
    (hpc : pc t = .inside (.insert key value) (.push e))
    (halone : ∀ u, u ≠ t → ∀ call place, pc u = .inside call place → m.index call.key ≠ m.index key) :
    Stored ((.insert key value, (.success, none)) :: decisions)
      { m with head := update m.head (m.index key) (some e) }
      (update pc t (.inside (.insert key value) .countUp))
      (update chain (m.index key) (e :: chain (m.index key))) (insert e entries) := by
  obtain ⟨haddress, hnot, hentry⟩ := h.knows t _ _ hpc
  have hentry := hentry key value rfl
  have hmemory : (pc t).memory = some e := by rw [hpc]; rfl
  have hfresh := h.fresh t e hmemory
  have hsame : update m.entry e { key, value, next := m.head (m.index key) } = m.entry := by
    rw [← hentry, Function.update_eq_self]
  have hcard := Finset.card_insert_of_notMem hfresh
  have hrep := h.rep.pushEntry (h.key_ne hnot) value hfresh haddress
  have hcount := hrep.count
  dsimp only [Map.index] at hrep hcount
  rw [hcount] at hrep
  refine h.frame halone (rep_of_entries hrep rfl rfl rfl rfl fun x _ => ?_)
    (h.agrees.pushEntry (h.key_ne hnot) hfresh value hsame.symm) rfl
    (fun j hj => ⟨update_of_ne hj .., update_of_ne hj ..⟩) (fun _ _ _ _ => rfl) (fun u hut e' he' => ⟨?_, rfl⟩)
    (fun _ h => nomatch h) (fun call place heq => ?_) ?_
  · exact (congrFun hsame x).symm
  · rw [Finset.mem_insert, not_or]
    refine ⟨?_, h.fresh u e' he'⟩
    rintro rfl
    exact hut (h.own u t e' he' hmemory)
  · cases heq
    trivial
  · rw [hcard]
    exact h.counted.link (by rw [hpc]; rfl) rfl (by rw [hpc]; rfl)

/-- The count changes. -/
theorem count (h : Stored decisions m pc chain entries) {result : Result Value} {count : ℕ}
    (hcounted : Counted count entries.card (update pc t (.unlock call result))) :
    Stored decisions { m with count } (update pc t (.unlock call result)) chain entries := by
  refine ⟨h.rep, h.agrees, fun u e hu => ?_,
    Interleaving.apply_unique_update h.own (fun e he => nomatch he), fun u call place hu => ?_, hcounted⟩
  · rcases Interleaving.apply_update_cases hu with ⟨-, hu⟩ | ⟨-, hu⟩
    · exact nomatch hu
    · exact h.fresh u e hu
  · rcases Interleaving.update_cases hu with ⟨-, hu⟩ | ⟨-, hu⟩
    · exact nomatch hu
    · exact (h.knows u call place hu).congr rfl rfl (fun _ _ => rfl) fun _ _ => rfl

/-- An entry is unlinked from the bucket. -/
theorem unlink (h : Stored decisions m pc chain entries) {key : UInt64} {pp : Option ℕ} {victim : ℕ}
    (hpc : pc t = .inside (.remove key) (.unlink pp victim))
    (halone : ∀ u, u ≠ t → ∀ call place, pc u = .inside call place → m.index call.key ≠ m.index key) :
    ∃ chain', Stored ((.remove key, (.success, none)) :: decisions)
      (m.writeLink (m.index key) (m.entry victim).next pp)
      (update pc t (.inside (.remove key) (.free victim))) chain' (entries.erase victim) := by
  obtain ⟨⟨l₁, l₂, hchain, rfl⟩, rfl⟩ := h.knows t _ _ hpc
  have hbucket : ∀ x ∈ l₁ ++ victim :: l₂, x ∈ entries := fun x hx => h.mem_entries (hchain ▸ hx)
  have he := hbucket victim (by simp)
  have hrep := h.rep.unlink he hchain
  have hcount := hrep.count
  have hagrees : Agrees (decisions.map event) { m with count := entries.card } entries := h.agrees
  dsimp only at hcount
  rw [hcount] at hrep
  have hwrite := m.writeLink_entry (m.index (m.entry victim).key) (m.entry victim).next l₁.getLast?
  rw [writeLink_count] at hrep
  refine ⟨update chain (m.index (m.entry victim).key) (l₁ ++ l₂), h.frame halone hrep
    (hagrees.unlink h.rep he rfl hwrite) (writeLink_mask ..)
    (fun j hj => ⟨update_of_ne hj .., writeLink_head _ _ _ _ hj⟩) (fun _ _ x _ => (hwrite x).1)
    (fun u _ e' he' => ⟨fun hmem => h.fresh u e' he' (Finset.mem_of_mem_erase hmem), ?_⟩) (fun e' he' => ?_)
    (fun call place heq => ?_) ?_⟩
  · refine writeLink_of_ne _ _ _ _ fun hlast => h.fresh u e' he' (hbucket e' ?_)
    exact List.mem_append_left _ (List.mem_of_getLast? hlast)
  · obtain rfl := Option.some.inj he'
    refine ⟨Finset.notMem_erase _ _, fun u _ hu => h.fresh u _ hu he⟩
  · cases heq
    trivial
  · rw [writeLink_counted]
    refine Counted.unlink ?_ (by rw [hpc]; rfl) rfl (by rw [hpc]; rfl)
    rw [Finset.card_erase_add_one he]
    exact h.counted

/-- The decisions after a step. -/
def afterStep (decision : Option (Result Value)) (call : Call Value) (decisions : List (Call Value × Result Value)) :
    List (Call Value × Result Value) :=
  decision.elim decisions fun result => (call, result) :: decisions

/-- A step of a thread that is alone in its bucket.  What it decides is what the last values say. -/
theorem move (h : Stored decisions m pc chain entries) {malloc : Option ℕ} {place : Place} {next : Place ⊕ Result Value}
    {decision : Option (Result Value)} (hpc : pc t = .inside call place)
    (halone : ∀ u, u ≠ t → ∀ call' place, pc u = .inside call' place → m.index call'.key ≠ m.index call.key)
    (hmalloc : ∀ e, malloc = some e → (0 < e ∧ e < 2 ^ 64) ∧ (∀ i, ¬ m.InBucket i e) ∧ ∀ u, (pc u).memory ≠ some e)
    (hmoved : Moved m malloc call place m' next decision) :
    (∃ chain' entries', Stored (afterStep decision call decisions) m' (update pc t (.after call next)) chain' entries') ∧
      ∀ result, decision = some result → Answers (latest (decisions.map event)) call result := by
  have hat := h.knows t call place hpc
  have hnone : ∀ result : Result Value, none = some result → Answers (latest (decisions.map event)) call result :=
    fun _ heq => nomatch heq
  cases hmoved with
  | @missed _ e hkey =>
      obtain ⟨l₁, l₂, hchain, hhead, hbefore⟩ := hat
      obtain ⟨l₂, rfl⟩ := List.head?_eq_some_iff.mp hhead
      have hlinked := h.rep.linked (m.index call.key)
      rw [hchain] at hlinked
      refine ⟨⟨chain, entries, h.goto hpc rfl rfl ⟨l₁ ++ [e], l₂, ?_, ?_, ?_⟩⟩, hnone⟩
      · rw [hchain, List.append_assoc, List.singleton_append]
      · exact hlinked.of_append.head_eq.symm
      · intro x hx
        rcases List.mem_append.mp hx with hx | hx
        · exact hbefore x hx
        · rwa [List.mem_singleton.mp hx]
  | toStore hkey | toLoad hkey =>
      obtain ⟨l₁, l₂, hchain, hhead, -⟩ := hat
      obtain ⟨l₂, rfl⟩ := List.head?_eq_some_iff.mp hhead
      exact ⟨⟨chain, entries, h.goto hpc rfl rfl ⟨hchain ▸ by simp, hkey⟩⟩, hnone⟩
  | absent =>
      obtain ⟨l₁, l₂, hchain, hhead, hbefore⟩ := hat
      rw [List.head?_eq_none_iff.mp hhead, List.append_nil] at hchain
      exact ⟨⟨chain, entries, h.goto hpc rfl rfl (hchain ▸ hbefore)⟩, hnone⟩
  | store => exact ⟨⟨chain, entries, h.store hpc halone⟩, fun _ heq => .inl (Option.some.inj heq).symm⟩
  | @noMemory key value =>
      refine ⟨⟨chain, entries, h.finish hpc rfl (h.agrees.insert_failed ThreadingError.noConfusion)⟩, fun _ heq => ?_⟩
      exact .inr ⟨(Option.some.inj heq).symm, h.agrees.latest_eq_none (h.key_ne hat)⟩
  | @memory key value e hsome =>
      obtain ⟨haddress, hfree, hunused⟩ := hmalloc e hsome
      refine ⟨⟨chain, entries, h.quiet h.agrees (fun e' he' => ?_) (fun call place heq => ?_) ?_ ?_⟩, hnone⟩
      · obtain rfl := Option.some.inj he'
        refine ⟨fun he => hfree _ (h.rep.inBucket_iff.mpr ((h.rep.mem_iff _ e).mpr ⟨he, rfl⟩)), fun u _ => hunused u⟩
      · cases heq
        exact ⟨haddress, hat⟩
      · rw [hpc]
        rfl
      · rw [hpc]
        rfl
  | fill => exact ⟨⟨chain, entries, h.fill hpc halone⟩, hnone⟩
  | push => exact ⟨⟨_, _, h.push hpc halone⟩, fun _ heq => .inl (Option.some.inj heq).symm⟩
  | countUp =>
      exact ⟨⟨chain, entries, h.count (h.counted.up (by rw [hpc]; rfl) rfl (by rw [hpc]; rfl))⟩, hnone⟩
  | @notFound key =>
      obtain ⟨l₁, l₂, hchain, hhead, hbefore⟩ := hat
      rw [List.head?_eq_none_iff.mp hhead, List.append_nil] at hchain
      have hlatest : latest (decisions.map event) key = none :=
        h.agrees.latest_eq_none (h.key_ne (hchain ▸ hbefore))
      refine ⟨⟨chain, entries, h.finish hpc rfl fun key value => h.agrees key value⟩, fun _ heq => ?_⟩
      rw [← Option.some.inj heq, Answers, hlatest]
  | @load key e =>
      have hlatest : latest (decisions.map event) key = some (m.entry e).value :=
        h.agrees.latest_eq_some (h.mem_entries hat.1) hat.2
      refine ⟨⟨chain, entries, h.finish hpc rfl fun key value => h.agrees key value⟩, fun _ heq => ?_⟩
      rw [← Option.some.inj heq, Answers, hlatest]
  | @missedLink key pp e hread hkey =>
      obtain ⟨l₁, l₂, hchain, rfl, hbefore⟩ := hat
      have hhead := (h.readLink_eq hchain).symm.trans hread
      obtain ⟨l₂, rfl⟩ := List.head?_eq_some_iff.mp hhead
      refine ⟨⟨chain, entries, h.goto hpc rfl rfl ⟨l₁ ++ [e], l₂, ?_, by simp, ?_⟩⟩, hnone⟩
      · rw [hchain, List.append_assoc, List.singleton_append]
      · intro x hx
        rcases List.mem_append.mp hx with hx | hx
        · exact hbefore x hx
        · rwa [List.mem_singleton.mp hx]
  | toUnlink hread hkey =>
      obtain ⟨l₁, l₂, hchain, rfl, -⟩ := hat
      have hhead := (h.readLink_eq hchain).symm.trans hread
      obtain ⟨l₂, rfl⟩ := List.head?_eq_some_iff.mp hhead
      exact ⟨⟨chain, entries, h.goto hpc rfl rfl ⟨⟨l₁, l₂, hchain, rfl⟩, hkey⟩⟩, hnone⟩
  | @noLink key pp hread =>
      obtain ⟨l₁, l₂, hchain, rfl, hbefore⟩ := hat
      have hhead := (h.readLink_eq hchain).symm.trans hread
      rw [List.head?_eq_none_iff.mp hhead, List.append_nil] at hchain
      have hnot := h.key_ne (hchain ▸ hbefore)
      have hlatest : latest (decisions.map event) key = none := h.agrees.latest_eq_none hnot
      refine ⟨⟨chain, entries, h.finish hpc rfl (h.agrees.remove_absent hnot)⟩, fun _ heq => ?_⟩
      rw [← Option.some.inj heq, Answers, hlatest]
  | @unlink key pp victim =>
      obtain ⟨⟨l₁, l₂, hchain, -⟩, hkey⟩ := hat
      have hchain : chain (m.index key) = l₁ ++ victim :: l₂ := hchain
      have hmem : victim ∈ chain (m.index key) := by
        rw [hchain]
        simp
      have hlatest : latest (decisions.map event) key = some (m.entry victim).value :=
        h.agrees.latest_eq_some (h.mem_entries hmem) hkey
      obtain ⟨chain', hstored⟩ := h.unlink hpc halone
      refine ⟨⟨chain', _, hstored⟩, fun _ heq => ?_⟩
      rw [← Option.some.inj heq, Answers, hlatest]
  | free =>
      refine ⟨⟨chain, entries, h.quiet h.agrees (fun _ he => nomatch he) (fun call place heq => ?_) ?_ ?_⟩, hnone⟩
      · cases heq
        trivial
      · rw [hpc]
        rfl
      · rw [hpc]
        rfl
  | countDown =>
      exact ⟨⟨chain, entries, h.count (h.counted.down (by rw [hpc]; rfl) rfl (by rw [hpc]; rfl))⟩, hnone⟩

omit [DecidableEq Thread] in
/-- If nobody is about to change the count, it is the number of the keys with a value. -/
theorem size (h : Stored decisions m pc chain entries) (hlinked : ∀ t, (pc t).linked = false)
    (hunlinked : ∀ t, (pc t).unlinked = false) :
    lgxConcurrentMapSize m = {key | latest (decisions.map event) key ≠ none}.ncard := by
  rw [h.agrees.keys_eq, Set.InjOn.ncard_image, Set.ncard_coe_finset]
  · exact h.counted.exact hlinked hunlinked h.rep.card_lt
  · exact fun e he e' he' hkey => h.rep.key_inj e he e' he' hkey

end Stored

/-! ## The mutexes -/

/-- The call of a thread that has the mutex of its bucket. -/
def Pc.critical : Pc Value → Option (Call Value)
  | .inside call _ | .unlock call _ => some call
  | _ => none

/-- A thread in a bucket has the mutex of it. -/
structure Locked (m : Map Value) (lock : ℕ → Mutex.State Thread) (pc : Thread → Pc Value) : Prop where
  mutex : ∀ i, Mutex.Reachable (lock i)
  holding : ∀ t call, (pc t).critical = some call → (lock (m.index call.key)).pc t = .holding

namespace Locked

variable {m m' : Map Value} {lock : ℕ → Mutex.State Thread} {pc pc₂ : Thread → Pc Value} {t : Thread} {pc' : Pc Value}
  {call : Call Value} {i : ℕ} {lock' : Mutex.State Thread} {action : Mutex.Action Thread}

/-- A thread is alone in its bucket. -/
theorem alone (h : Locked m lock pc) (hcritical : (pc t).critical = some call) (u : Thread) (hne : u ≠ t)
    (call' : Call Value) (place : Place) (hpc : pc u = .inside call' place) :
    m.index call'.key ≠ m.index call.key := by
  intro hindex
  have hheld := h.holding t call hcritical
  have hother := h.holding u call' (by rw [hpc]; rfl)
  rw [hindex] at hother
  refine hne ((h.mutex (m.index call.key)).exclusive.unique u t ?_ ?_)
  · rw [hother]
    rfl
  · rw [hheld]
    rfl

/-- A thread moves on without a mutex. -/
theorem goto (h : Locked m lock pc)
    (hself : ∀ call, pc'.critical = some call → (lock (m.index call.key)).pc t = .holding) :
    Locked m lock (update pc t pc') := by
  refine ⟨h.mutex, fun u call hu => ?_⟩
  rcases Interleaving.apply_update_cases hu with ⟨hut, hu⟩ | ⟨-, hu⟩
  · rw [hut]
    exact hself call hu
  · exact h.holding u call hu

theorem congr (h : Locked m lock pc) (hmask : m'.mask = m.mask) : Locked m' lock pc := by
  refine ⟨h.mutex, fun u call hu => ?_⟩
  rw [Map.index, hmask]
  exact h.holding u call hu

/-- A step in a mutex, which leaves it with the thread that has it. -/
theorem step (h : Locked m lock pc) (hallowed : Mutex.Allowed (lock i) action)
    (hstep : Mutex.step (lock i) action = some lock')
    (hcritical : ∀ u call, (pc₂ u).critical = some call → (pc u).critical = some call ∧
      ((lock i).pc u = .holding → lock'.pc u = .holding)) : Locked m (update lock i lock') pc₂ := by
  refine ⟨fun j => ?_, fun u call hu => ?_⟩
  · by_cases hj : j = i
    · rw [hj, update_self]
      exact .step action (h.mutex i) hallowed hstep
    · rw [update_of_ne hj]
      exact h.mutex j
  · obtain ⟨hbefore, hkeep⟩ := hcritical u call hu
    have hheld := h.holding u call hbefore
    by_cases hj : m.index call.key = i
    · rw [hj, update_self]
      exact hkeep (hj ▸ hheld)
    · rwa [update_of_ne hj]

end Locked

/-- A thread that has a mutex still has it after a step of another thread in the mutex. -/
theorem holding_of_inMutex {lock lock' : Mutex.State Thread} {action : Mutex.Action Thread}
    (hin : inMutex action = true) (hstep : Mutex.step lock action = some lock') (u : Thread)
    (hu : lock.pc u = .holding) : lock'.pc u = .holding := by
  cases action with
  | next t =>
      obtain ⟨⟨word', pc'⟩, hmove, rfl⟩ := Option.map_eq_some_iff.mp hstep
      have hne : u ≠ t := by
        rintro rfl
        rw [hu] at hmove
        exact nomatch hmove
      exact (update_of_ne hne ..).trans hu
  | spurious t =>
      obtain ⟨hpc, hstep⟩ := Option.ite_none_right_eq_some.mp hstep
      obtain rfl := Option.some.inj hstep
      have hne : u ≠ t := by
        rintro rfl
        rw [hu] at hpc
        exact nomatch hpc
      exact (update_of_ne hne ..).trans hu
  | wake t woken =>
      cases woken with
      | none =>
          obtain ⟨hpc, hstep⟩ := Option.ite_none_right_eq_some.mp hstep
          obtain rfl := Option.some.inj hstep
          have hne : u ≠ t := by
            rintro rfl
            rw [hu] at hpc
            exact nomatch hpc
          exact (update_of_ne hne ..).trans hu
      | some v =>
          obtain ⟨⟨hpc, hv⟩, hstep⟩ := Option.ite_none_right_eq_some.mp hstep
          obtain rfl := Option.some.inj hstep
          have hne : u ≠ t := by
            rintro rfl
            rw [hu] at hpc
            exact nomatch hpc
          have hne' : u ≠ v := by
            rintro rfl
            rw [hu] at hv
            exact nomatch hv
          exact (update_of_ne hne' ..).trans ((update_of_ne hne ..).trans hu)
  | lock t | tryLock t | unlock t => exact nomatch hin

/-! ## Every run -/

/-- Where the calls of the threads are. -/
def State.phases (s : State Thread Value) (t : Thread) : Phase (Call Value) (Result Value) :=
  (s.pc t).phase

/-- What holds after the decisions. -/
structure Sound (decisions : List (Call Value × Result Value)) (s : State Thread Value) : Prop where
  legal : Legal decisions
  locked : Locked s.map s.lock s.pc
  stored : ∃ chain entries, Stored decisions s.map s.pc chain entries

/-- A step that makes progress and leaves everything as it should be. -/
def Goes (decisions : List (Call Value × Result Value)) (s s' : State Thread Value) : Prop :=
  ∃ decisions', Linearization.Progress s.phases s.history decisions s'.phases s'.history decisions' ∧
    Sound decisions' s'

section

variable {s s' : State Thread Value} {decisions : List (Call Value × Result Value)} {t : Thread} {call : Call Value}
  {result : Result Value} {pc' : Pc Value} {lock' : Mutex.State Thread} {m : Map Value} {pc : Thread → Pc Value}
  {chain : ℕ → List ℕ} {entries : Finset ℕ}

theorem phases_update (hpc : s'.pc = update s.pc t pc') : s'.phases = update s.phases t pc'.phase := by
  have hphases : s'.phases = fun u => (s'.pc u).phase := rfl
  rw [hphases, hpc]
  exact Interleaving.comp_update Pc.phase

theorem goes_silent (hpc : s'.pc = update s.pc t pc') (hhistory : s'.history = s.history)
    (hphase : pc'.phase = (s.pc t).phase) (hsound : Sound decisions s') : Goes decisions s s' := by
  have hphases : s'.phases = s.phases := by
    rw [phases_update hpc, hphase]
    exact Function.update_eq_self t s.phases
  refine ⟨decisions, ?_, hsound⟩
  rw [hphases, hhistory]
  exact .silent

theorem goes_called (hpc : s'.pc = update s.pc t pc') (hhistory : s'.history = .called t call :: s.history)
    (hold : (s.pc t).phase = .idle) (hnew : pc'.phase = .pending call) (hsound : Sound decisions s') :
    Goes decisions s s' := by
  refine ⟨decisions, ?_, hsound⟩
  rw [phases_update hpc, hhistory, hnew]
  exact .called t call hold

theorem goes_decided (hpc : s'.pc = update s.pc t pc') (hhistory : s'.history = s.history)
    (hold : (s.pc t).phase = .pending call) (hnew : pc'.phase = .decided result)
    (hsound : Sound ((call, result) :: decisions) s') : Goes decisions s s' := by
  refine ⟨(call, result) :: decisions, ?_, hsound⟩
  rw [phases_update hpc, hhistory, hnew]
  exact .decided t call result hold

theorem goes_returned (hpc : s'.pc = update s.pc t pc') (hhistory : s'.history = .returned t result :: s.history)
    (hold : (s.pc t).phase = .decided result) (hnew : pc'.phase = .idle) (hsound : Sound decisions s') :
    Goes decisions s s' := by
  refine ⟨decisions, ?_, hsound⟩
  rw [phases_update hpc, hhistory, hnew]
  exact .returned t result hold

/-- A thread outside of the buckets moves on. -/
theorem Stored.outside (h : Stored decisions m pc chain entries) (hold : ∀ call place, pc t ≠ .inside call place)
    (hplain : ∀ call place, pc' = .inside call place → place.plain = true ∧ At m (chain (m.index call.key)) call place) :
    Stored decisions m (update pc t pc') chain entries := by
  have hbefore : (pc t).linked = false ∧ (pc t).unlinked = false := by
    cases hpc : pc t with
    | inside call place => exact absurd hpc (hold call place)
    | _ => exact ⟨rfl, rfl⟩
  have hafter : pc'.memory = none ∧ pc'.linked = false ∧ pc'.unlinked = false := by
    cases pc' with
    | inside call place => exact Place.of_plain call (hplain call place rfl).1
    | _ => exact ⟨rfl, rfl, rfl⟩
  exact h.quiet h.agrees (fun _ he => nomatch hafter.1.symm.trans he) (fun call place hpc => (hplain call place hpc).2)
    (hafter.2.1.trans hbefore.1.symm) (hafter.2.2.trans hbefore.2.symm)

omit [DecidableEq Thread] in
/-- A walk begins before all entries of the bucket. -/
theorem Stored.at_start (h : Stored decisions m pc chain entries) (call : Call Value) :
    (call.start m).plain = true ∧ At m (chain (m.index call.key)) call (call.start m) := by
  have hhead := (h.rep.linked (m.index call.key)).head_eq.symm
  cases call with
  | insert key value | lookup key => exact ⟨rfl, [], _, rfl, hhead, fun _ hx => nomatch hx⟩
  | remove key => exact ⟨rfl, [], _, rfl, rfl, fun _ hx => nomatch hx⟩

/-- The call of `lgx_mutex_lock` or `lgx_mutex_unlock`. -/
theorem Locked.callMutex {action : Mutex.Action Thread} {i : ℕ} (h : Locked s.map s.lock s.pc)
    (hallowed : Mutex.Allowed (s.lock i) action) (hstep : Mutex.step (s.lock i) action = some lock')
    (hself : ∀ u, u ≠ t → lock'.pc u = (s.lock i).pc u) (hcritical : pc'.critical = none) :
    Locked s.map (update s.lock i lock') (update s.pc t pc') := by
  refine h.step hallowed hstep fun u call hu => ?_
  rcases Interleaving.apply_update_cases hu with ⟨-, hu⟩ | ⟨hut, hu⟩
  · exact nomatch hcritical.symm.trans hu
  · exact ⟨hu, fun hheld => (hself u hut).trans hheld⟩

theorem Sound.goes {a : Action Thread Value} (h : Sound decisions s) (hallowed : Allowed s a)
    (hstep : step s a = some s') : Goes decisions s s' := by
  obtain ⟨chain, entries, hstored⟩ := h.stored
  cases a with
  | call t call =>
      rw [step] at hstep
      split at hstep
      · rename_i hpc
        obtain ⟨lock', hlock, rfl⟩ := Option.map_eq_some_iff.mp hstep
        have hout : ∀ call place, s.pc t ≠ .inside call place := fun _ _ heq => nomatch hpc.symm.trans heq
        have hcall : Mutex.Allowed (s.lock (s.bucket call)) (.lock t) := trivial
        refine goes_called rfl rfl (by rw [hpc]; rfl) rfl
          ⟨h.legal, h.locked.callMutex hcall hlock (fun u hut => ?_) rfl, chain, entries,
            hstored.outside hout fun _ _ heq => nomatch heq⟩
        obtain ⟨-, hlock⟩ := Option.ite_none_right_eq_some.mp hlock
        rw [← Option.some.inj hlock]
        exact update_of_ne hut ..
      · exact nomatch hstep
  | mutex i action =>
      obtain ⟨hin, hstep⟩ := Option.ite_none_right_eq_some.mp hstep
      obtain ⟨lock', hlock, rfl⟩ := Option.map_eq_some_iff.mp hstep
      refine ⟨decisions, .silent, h.legal, ?_, h.stored⟩
      exact h.locked.step hallowed hlock fun u call hu => ⟨hu, holding_of_inMutex hin hlock u⟩
  | enter t =>
      rw [step] at hstep
      split at hstep
      · rename_i call hpc
        obtain ⟨hheld, hstep⟩ := Option.ite_none_right_eq_some.mp hstep
        obtain rfl := Option.some.inj hstep
        have hout : ∀ call place, s.pc t ≠ .inside call place := fun _ _ heq => nomatch hpc.symm.trans heq
        have hstart : (Pc.inside call (call.start s.map)).phase = .pending call := by
          cases call <;> rfl
        refine goes_silent rfl rfl (hstart.trans (by rw [hpc]; rfl)) ⟨h.legal, h.locked.goto fun call' hcall => ?_,
          chain, entries, hstored.outside hout fun call' place heq => ?_⟩
        · obtain rfl := Option.some.inj hcall
          exact hheld
        · cases heq
          exact hstored.at_start call
      · exact nomatch hstep
  | move t malloc =>
      rw [step] at hstep
      split at hstep
      · rename_i call place hpc
        obtain ⟨⟨m', next⟩, hmove, rfl⟩ := Option.map_eq_some_iff.mp hstep
        obtain ⟨decision, hmoved⟩ := moved_of_move hmove
        have hcritical : (s.pc t).critical = some call := by rw [hpc]; rfl
        have hmalloc : ∀ e, malloc = some e →
            (0 < e ∧ e < 2 ^ 64) ∧ (∀ i, ¬ s.map.InBucket i e) ∧ ∀ u, (s.pc u).memory ≠ some e := by
          rintro e rfl
          exact hallowed
        obtain ⟨hstored', hanswers⟩ := hstored.move hpc (h.locked.alone hcritical) hmalloc hmoved
        have hlocked : Locked m' s.lock (update s.pc t (.after call next)) := by
          refine Locked.congr (h.locked.goto fun call' hcall => ?_) hmoved.mask
          have hsame : (Pc.after call next).critical = some call := by
            cases next <;> rfl
          obtain rfl := Option.some.inj (hsame.symm.trans hcall)
          exact h.locked.holding t call hcritical
        have hphase := hmoved.phase
        cases decision with
        | none => exact goes_silent rfl rfl (hphase.trans (by rw [hpc])) ⟨h.legal, hlocked, hstored'⟩
        | some result =>
            exact goes_decided rfl rfl (by rw [hpc]; exact hphase.1) hphase.2
              ⟨⟨hanswers result rfl, h.legal⟩, hlocked, hstored'⟩
      · exact nomatch hstep
  | leave t =>
      rw [step] at hstep
      split at hstep
      · rename_i call result hpc
        obtain ⟨lock', hlock, rfl⟩ := Option.map_eq_some_iff.mp hstep
        have hout : ∀ call place, s.pc t ≠ .inside call place := fun _ _ heq => nomatch hpc.symm.trans heq
        have hcall : Mutex.Allowed (s.lock (s.bucket call)) (.unlock t) := trivial
        refine goes_silent rfl rfl (by rw [hpc]; rfl)
          ⟨h.legal, h.locked.callMutex hcall hlock (fun u hut => ?_) rfl, chain, entries,
            hstored.outside hout fun _ _ heq => nomatch heq⟩
        obtain ⟨-, hlock⟩ := Option.ite_none_right_eq_some.mp hlock
        rw [← Option.some.inj hlock]
        exact update_of_ne hut ..
      · exact nomatch hstep
  | ret t =>
      rw [step] at hstep
      split at hstep
      · rename_i call result hpc
        obtain ⟨-, hstep⟩ := Option.ite_none_right_eq_some.mp hstep
        obtain rfl := Option.some.inj hstep
        have hout : ∀ call place, s.pc t ≠ .inside call place := fun _ _ heq => nomatch hpc.symm.trans heq
        exact goes_returned rfl rfl (by rw [hpc]; rfl) rfl
          ⟨h.legal, h.locked.goto (fun _ heq => nomatch heq), chain, entries,
            hstored.outside hout fun _ _ heq => nomatch heq⟩
      · exact nomatch hstep

end

theorem Sound.init {s : State Thread Value} (h : Initial s) :
    s.phases = (fun _ => .idle) ∧ s.history = [] ∧ Sound [] s := by
  obtain ⟨bucketCount, hle, contents, rfl⟩ := h
  refine ⟨rfl, rfl, trivial, ⟨fun i => .init rfl, fun _ _ heq => by cases heq⟩, fun _ => [], ∅,
    Rep.create hle contents, fun key value => ?_, (fun _ _ heq => by cases heq), (fun _ _ _ heq => by cases heq),
    (fun _ _ _ heq => by cases heq), 0, 0, ?_, ?_, Nat.two_pow_pos 64, rfl⟩
  · refine iff_of_false (by simp [latest]) ?_
    rintro ⟨e, he, -⟩
    cases he
  · exact Interleaving.headcount_eq_zero.mpr fun _ => rfl
  · exact Interleaving.headcount_eq_zero.mpr fun _ => rfl

/-- However the steps of the threads follow one another, the map is linearizable: there are points between the calls and
their returns such that the calls, in the order of the points, are answered as the finite map of the last values does;
and whenever no thread is in a bucket, the count is the number of the keys with a value. -/
theorem history_linearizable {s : State Thread Value} (hreach : Reachable s) :
    Linearization.Linearizable
      (fun decisions => Legal decisions ∧ ((∀ t call place, s.pc t ≠ .inside call place) →
        lgxConcurrentMapSize s.map = {key | latest (decisions.map event) key ≠ none}.ncard)) s.history := by
  have hfollows : Linearization.Follows State.phases State.history Sound s :=
    Linearization.follows_of_reachable hreach (fun _ h => Sound.init h) fun _ _ _ _ h hallowed hstep =>
      h.goes hallowed hstep
  refine hfollows.linearizable fun decisions h => ⟨h.legal, fun hout => ?_⟩
  obtain ⟨chain, entries, hstored⟩ := h.stored
  refine hstored.size (fun t => ?_) fun t => ?_
  all_goals
    cases hpc : s.pc t with
    | inside call place => exact absurd hpc (hout t call place)
    | _ => rfl

/-- The actions that are allowed whatever the memory holds. -/
def allowedCheck (s : State Bool ℕ) : Action Bool ℕ → Bool
  | .mutex i action => decide (Mutex.Allowed (s.lock i) action)
  | .move _ (some _) => false
  | _ => true

theorem allowed_of_check (s : State Bool ℕ) (a : Action Bool ℕ) (hcheck : allowedCheck s a = true) : Allowed s a := by
  cases a with
  | mutex i action =>
      have hallowed : Mutex.Allowed (s.lock i) action := of_decide_eq_true hcheck
      exact hallowed
  | move t malloc =>
      cases malloc with
      | none => trivial
      | some e => exact nomatch hcheck
  | call | enter | leave | ret => trivial

/-- A new map with four buckets. -/
def newMap : State Bool ℕ :=
  ⟨lgxConcurrentMapCreate 1 fun _ => ⟨0, 0, none⟩, fun _ => Mutex.init, fun _ => .idle, []⟩

/-- An insertion finds nothing in its bucket. -/
def findNothing : List (Action Bool ℕ) :=
  [.call true (.insert 4 10), .mutex 1 (.next true), .enter true, .move true none]

/-- It gets memory; a lookup of the same key sleeps until it has put the entry into the bucket, and finds it. -/
def lookUp : List (Action Bool ℕ) :=
  [.call false (.lookup 4), .mutex 1 (.next false), .mutex 1 (.next false), .mutex 1 (.next false),
    .move true none, .move true none, .move true none, .leave true, .mutex 1 (.next true), .mutex 1 (.next true),
    .mutex 1 (.wake true (some false)), .ret true, .mutex 1 (.next false), .enter false, .move false none,
    .move false none, .leave false, .mutex 1 (.next false), .mutex 1 (.next false), .mutex 1 (.wake false none),
    .ret false]

/-- An insertion and a lookup of one key at the same time. -/
theorem history_linearizable_contended : ∃ s : State Bool ℕ, Reachable s ∧
    s.history = [.returned false (.success, some 10), .returned true (.success, none), .called false (.lookup 4),
      .called true (.insert 4 10)] ∧
    lgxConcurrentMapSize s.map = 1 ∧
    Linearization.Linearizable
      (fun decisions => Legal decisions ∧ ((∀ t call place, s.pc t ≠ .inside call place) →
        lgxConcurrentMapSize s.map = {key | latest (decisions.map event) key ≠ none}.ncard)) s.history := by
  have hstart : Reachable newMap := .init ⟨1, by omega, _, rfl⟩
  obtain ⟨s, s', hfind, hmap, hmemory, hmalloc, hrest⟩ : ∃ s s',
      Interleaving.run (Interleaving.guarded step allowedCheck) findNothing newMap = some s ∧
        s.map = newMap.map ∧ (∀ u, (s.pc u).memory = none) ∧ step s (.move true (some 100)) = some s' ∧
        (Interleaving.run (Interleaving.guarded step allowedCheck) lookUp s').map
          (fun s => (s.history, lgxConcurrentMapSize s.map)) =
          some ([.returned false (.success, some 10), .returned true (.success, none), .called false (.lookup 4),
            .called true (.insert 4 10)], 1) := by
    refine ⟨_, _, rfl, rfl, by decide, rfl, ?_⟩
    decide +kernel
  have hfound := hstart.run_guarded (fun s a _ => allowed_of_check s a) hfind
  have hfresh : Reachable s' := by
    refine .step (.move true (some 100)) hfound ⟨by omega, fun i => ?_, fun u hu => ?_⟩ hmalloc
    · rw [hmap]
      rintro ⟨l, hlinked, hmem⟩
      cases l with
      | nil => exact nomatch hmem
      | cons x l => exact nomatch hlinked.1
    · exact nomatch (hmemory u).symm.trans hu
  obtain ⟨s, hreach, hs⟩ := hfresh.exists_of_run_guarded (fun s a _ => allowed_of_check s a) hrest
  obtain ⟨hhistory, hsize⟩ := Prod.mk.inj hs
  exact ⟨s, hreach, hhistory, hsize, history_linearizable hreach⟩

end LgxRuntime.Threading.MapSteps
