import LgxRuntime.Machine
import LgxRuntime.Lib.BitSmear
import LgxRuntime.Lib.Interleaving
import LgxRuntime.Lib.Linked
import LgxRuntime.Threading.SpscQueue
import Mathlib.Data.Set.Card
import Mathlib.Order.Interval.Finset.Nat

/-!
# The concurrent hash map

A bucket is a linked list of entries; the entries are in memory that `malloc` hands out.  A key is in the
bucket of its hash.  An insertion overwrites the value of an entry with the key, or puts a new entry at the
head of the bucket; a removal unlinks the entry through the pointer that leads to it.  The number of entries
is counted beside the buckets.

Every operation holds the lock of its bucket from the walk to the end, and nobody looks at two buckets, so
that the operations are atomic steps.  A walk is embedded with a bound on its steps, and `none` for a walk
that has not ended; the bound is the number of addresses, which no bucket reaches.

The abstract map is the history of the operations: what the last successful insertion of a key has stored,
unless the key was removed afterwards.
-/

namespace LgxRuntime.Threading.ConcurrentMap

open Function (update update_self update_of_ne)

/-! ## The map -/

/-- `lgx_map_entry_t`; keys are `uint64_t`. -/
structure Entry (Value : Type) where
  key : UInt64
  value : Value
  next : Option ℕ

/-- `struct lgx_concurrent_map_s`, together with the entries in memory.  `NULL` is `none`. -/
structure Map (Value : Type) where
  head : ℕ → Option ℕ
  entry : ℕ → Entry Value
  bucketCount : ℕ
  mask : ℕ
  count : ℕ

variable {Value : Type}

/-- `next_pow2_map`. -/
def nextPow2Map (n : ℕ) : ℕ :=
  if n ≤ 1 then 1
  else
    let n := n - 1
    let n := n ||| n >>> 1
    let n := n ||| n >>> 2
    let n := n ||| n >>> 4
    let n := n ||| n >>> 8
    let n := n ||| n >>> 16
    let n := n ||| n >>> 32
    wrap64 (n + 1)

/-- `lgx_concurrent_map_create`, if there is memory.  What the memory of later entries holds is arbitrary. -/
def lgxConcurrentMapCreate (bucketCount : ℕ) (contents : ℕ → Entry Value) : Map Value :=
  let bucketCount := nextPow2Map (if bucketCount < 4 then 4 else bucketCount)
  { head := fun _ => none
    entry := contents
    bucketCount := bucketCount
    mask := sub64 bucketCount 1
    count := 0 }

/-- `map_hash`. -/
def mapHash (key : UInt64) : ℕ :=
  let key := key ^^^ (key >>> 33)
  let key := key * 0xff51afd7ed558ccd
  let key := key ^^^ (key >>> 33)
  let key := key * 0xc4ceb9fe1a85ec53
  let key := key ^^^ (key >>> 33)
  key.toNat

/-- The number of addresses, which bounds the length of every walk. -/
def walkFuel : ℕ := 2 ^ 64

namespace Map

/-- `map_hash(key) & map->mask`. -/
def index (m : Map Value) (key : UInt64) : ℕ :=
  mapHash key &&& m.mask

/-- The walk of `lgx_concurrent_map_insert` and `lgx_concurrent_map_lookup`: the first entry with the key,
from `e` on. -/
def find (m : Map Value) (key : UInt64) : ℕ → Option ℕ → Option (Option ℕ)
  | 0, _ => none
  | _ + 1, none => some none
  | fuel + 1, some e => if (m.entry e).key = key then some (some e) else m.find key fuel (m.entry e).next

/-- `*pp`, where `pp` is the head of the bucket (`none`) or the link of an entry. -/
def readLink (m : Map Value) (i : ℕ) : Option ℕ → Option ℕ
  | none => m.head i
  | some e => (m.entry e).next

/-- `*pp = value`. -/
def writeLink (m : Map Value) (i : ℕ) (value : Option ℕ) : Option ℕ → Map Value
  | none => { m with head := update m.head i value }
  | some e => { m with entry := update m.entry e { m.entry e with next := value } }

/-- The walk of `lgx_concurrent_map_remove`: the link to the first entry with the key, and the entry. -/
def findLink (m : Map Value) (i : ℕ) (key : UInt64) : ℕ → Option ℕ → Option (Option (Option ℕ × ℕ))
  | 0, _ => none
  | fuel + 1, link =>
      match m.readLink i link with
      | none => some none
      | some e => if (m.entry e).key = key then some (some (link, e)) else m.findLink i key fuel (some e)

end Map

/-- `lgx_concurrent_map_insert`, with what `malloc` returns. -/
def lgxConcurrentMapInsert (m : Map Value) (key : UInt64) (value : Value) (malloc : Option ℕ) :
    Option (ThreadingError × Map Value) :=
  let i := m.index key
  match m.find key walkFuel (m.head i) with
  | none => none
  | some (some e) => some (.success, { m with entry := update m.entry e { m.entry e with value := value } })
  | some none =>
      match malloc with
      | none => some (.outOfMemory, m)
      | some e =>
          some (.success,
            { m with
              entry := update m.entry e { key := key, value := value, next := m.head i }
              head := update m.head i (some e)
              count := wrap64 (m.count + 1) })

/-- `lgx_concurrent_map_lookup`, with the value that is stored if the key is found. -/
def lgxConcurrentMapLookup (m : Map Value) (key : UInt64) : Option (ThreadingError × Option Value) :=
  match m.find key walkFuel (m.head (m.index key)) with
  | none => none
  | some (some e) => some (.success, some (m.entry e).value)
  -- "not found"
  | some none => some (.queueEmpty, none)

/-- `lgx_concurrent_map_remove`. -/
def lgxConcurrentMapRemove (m : Map Value) (key : UInt64) : Option (ThreadingError × Map Value) :=
  let i := m.index key
  match m.findLink i key walkFuel none with
  | none => none
  | some none => some (.queueEmpty, m)
  | some (some (link, victim)) =>
      some (.success, { m.writeLink i (m.entry victim).next link with count := sub64 m.count 1 })

/-- `lgx_concurrent_map_size`. -/
def lgxConcurrentMapSize (m : Map Value) : ℕ :=
  m.count

/-! ## Runs -/

/-- What was done, and what it returned. -/
inductive Event (Value : Type)
  | insert (key : UInt64) (value : Value) (result : ThreadingError)
  | remove (key : UInt64) (result : ThreadingError)
  | lookup (key : UInt64) (result : ThreadingError) (value : Option Value)

/-- A map with what was done to it, the last operation first. -/
structure State (Value : Type) where
  map : Map Value
  history : List (Event Value)

/-- An operation of some thread, with what `malloc` returns. -/
inductive Action (Value : Type)
  | insert (key : UInt64) (value : Value) (malloc : Option ℕ)
  | lookup (key : UInt64)
  | remove (key : UInt64)

/-- One operation. -/
def step (s : State Value) : Action Value → Option (State Value)
  | .insert key value malloc =>
      (lgxConcurrentMapInsert s.map key value malloc).map fun result =>
        ⟨result.2, .insert key value result.1 :: s.history⟩
  | .lookup key =>
      (lgxConcurrentMapLookup s.map key).map fun result =>
        ⟨s.map, .lookup key result.1 result.2 :: s.history⟩
  | .remove key =>
      (lgxConcurrentMapRemove s.map key).map fun result =>
        ⟨result.2, .remove key result.1 :: s.history⟩

/-- The entry at `e` is linked from the bucket. -/
def Map.InBucket (m : Map Value) (i e : ℕ) : Prop :=
  ∃ l, Linked (fun x => (m.entry x).next) (m.head i) l ∧ e ∈ l

/-- `malloc` fails, or returns an address that is not in use. -/
def Allowed (s : State Value) : Action Value → Prop
  | .insert _ _ (some e) => 0 < e ∧ e < 2 ^ 64 ∧ ∀ i, ¬ s.map.InBucket i e
  | _ => True

/-- A new map. -/
def Initial (s : State Value) : Prop :=
  ∃ bucketCount ≤ 2 ^ 63, ∃ contents, s = ⟨lgxConcurrentMapCreate bucketCount contents, []⟩

/-- The states of the runs of any number of threads. -/
def Reachable : State Value → Prop :=
  Interleaving.Reachable Initial step Allowed

/-- The value of a key: that of its last successful insertion, unless it was removed afterwards. -/
def latest : List (Event Value) → UInt64 → Option Value
  | [], _ => none
  | .insert key value result :: history, k =>
      if k = key ∧ result = .success then some value else latest history k
  | .remove key _ :: history, k => if k = key then none else latest history k
  | .lookup _ _ _ :: history, k => latest history k

/-- A link is written, and nothing else. -/
theorem Map.writeLink_entry (m : Map Value) (i : ℕ) (value link : Option ℕ) (x : ℕ) :
    ((m.writeLink i value link).entry x).key = (m.entry x).key ∧
      ((m.writeLink i value link).entry x).value = (m.entry x).value := by
  cases link with
  | none => exact ⟨rfl, rfl⟩
  | some p =>
      by_cases hx : x = p
      · simp [Map.writeLink, hx]
      · simp [Map.writeLink, update_of_ne hx]

/-! ## The number of buckets -/

theorem nextPow2Map_eq {n : ℕ} (hn : 1 < n) : nextPow2Map n = wrap64 (smear 6 (n - 1) + 1) := by
  rw [nextPow2Map, if_neg (by omega)]
  rfl

/-- The number of buckets is rounded up to a power of two, as long as there is one that fits. -/
theorem nextPow2Map_spec {n : ℕ} (hle : n ≤ 2 ^ 63) :
    ∃ k, nextPow2Map n = 2 ^ k ∧ n ≤ 2 ^ k ∧ (1 < n → 2 ^ k < 2 * n) := by
  by_cases hn : 1 < n
  · have hpos : n - 1 ≠ 0 := by omega
    have hlog : (n - 1).log2 < 63 := (Nat.log2_lt hpos).mpr (by omega)
    have hlow : 2 ^ (n - 1).log2 ≤ n - 1 := Nat.log2_self_le hpos
    have hhigh : n - 1 < 2 ^ ((n - 1).log2 + 1) := Nat.lt_log2_self
    have hdouble : 2 ^ ((n - 1).log2 + 1) = 2 * 2 ^ (n - 1).log2 := by ring
    have htop : 2 ^ ((n - 1).log2 + 1) ≤ 2 ^ 63 := Nat.pow_le_pow_right (by omega) (by omega)
    refine ⟨(n - 1).log2 + 1, ?_, by omega, fun _ => by omega⟩
    rw [nextPow2Map_eq hn, smear_eq hpos (by omega), Nat.sub_add_cancel Nat.one_le_two_pow,
      wrap64_of_lt (by omega)]
  · exact ⟨0, by rw [nextPow2Map, if_pos (by omega)]; rfl, by omega, fun h => absurd h hn⟩

theorem nextPow2Map_bounds {n : ℕ} (hle : n ≤ 2 ^ 63) : 0 < nextPow2Map n ∧ nextPow2Map n < 2 ^ 64 := by
  obtain ⟨k, hk, -⟩ := nextPow2Map_spec hle
  refine ⟨hk ▸ Nat.two_pow_pos k, ?_⟩
  unfold nextPow2Map
  split
  · exact Nat.one_lt_two_pow (by decide)
  · exact Nat.mod_lt _ (Nat.two_pow_pos 64)

theorem sub64_one_add_one {a : ℕ} (hpos : 0 < a) (hlt : a < 2 ^ 64) : sub64 a 1 + 1 = a := by
  rw [sub64_of_le hlt hpos]
  omega

/-! ## The buckets -/

/-- The buckets are the lists of `chain`, and `entries` are the entries that are linked from them: each one
from the bucket of its key, and no two with the same key. -/
structure Rep (m : Map Value) (chain : ℕ → List ℕ) (entries : Finset ℕ) : Prop where
  buckets : m.mask + 1 = m.bucketCount
  linked : ∀ i, Linked (fun x => (m.entry x).next) (m.head i) (chain i)
  mem_iff : ∀ i e, e ∈ chain i ↔ e ∈ entries ∧ m.index (m.entry e).key = i
  key_inj : ∀ e ∈ entries, ∀ e' ∈ entries, (m.entry e).key = (m.entry e').key → e = e'
  address : ∀ e ∈ entries, 0 < e ∧ e < 2 ^ 64
  count : m.count = entries.card

/-- Some entry has the key and the value. -/
def Holds (m : Map Value) (entries : Finset ℕ) (k : UInt64) (v : Value) : Prop :=
  ∃ e ∈ entries, (m.entry e).key = k ∧ (m.entry e).value = v

/-- The last values of the keys are those of the entries. -/
def Agrees (history : List (Event Value)) (m : Map Value) (entries : Finset ℕ) : Prop :=
  ∀ k v, latest history k = some v ↔ Holds m entries k v

namespace Rep

variable {m : Map Value} {chain : ℕ → List ℕ} {entries : Finset ℕ} {key : UInt64} {e : ℕ}

theorem create {bucketCount : ℕ} (hle : bucketCount ≤ 2 ^ 63) (contents : ℕ → Entry Value) :
    Rep (lgxConcurrentMapCreate bucketCount contents) (fun _ => []) ∅ := by
  have hsize : (if bucketCount < 4 then 4 else bucketCount) ≤ 2 ^ 63 := by
    split <;> omega
  refine ⟨?_, fun _ => rfl, by simp, by simp, by simp, rfl⟩
  obtain ⟨hpos, hlt⟩ := nextPow2Map_bounds hsize
  exact sub64_one_add_one hpos hlt

/-- There are fewer entries than addresses. -/
theorem card_lt (h : Rep m chain entries) : entries.card < 2 ^ 64 := by
  have hsubset : entries ⊆ Finset.Ico 1 (2 ^ 64) := fun e he =>
    Finset.mem_Ico.mpr (h.address e he)
  have hcard := Finset.card_le_card hsubset
  rw [Nat.card_Ico] at hcard
  omega

theorem length_lt (h : Rep m chain entries) (i : ℕ) : (chain i).length < walkFuel := by
  have hsubset : (chain i).toFinset ⊆ entries := by
    intro e he
    exact ((h.mem_iff i e).mp (List.mem_toFinset.mp he)).1
  have hcard := Finset.card_le_card hsubset
  rw [List.toFinset_card_of_nodup (h.linked i).nodup] at hcard
  exact hcard.trans_lt h.card_lt

theorem inBucket_iff (h : Rep m chain entries) {i : ℕ} : m.InBucket i e ↔ e ∈ chain i := by
  constructor
  · rintro ⟨l, hl, he⟩
    rwa [← hl.unique (h.linked i)]
  · exact fun he => ⟨chain i, h.linked i, he⟩

theorem index_lt (h : Rep m chain entries) (key : UInt64) : m.index key < m.bucketCount := by
  have hle : m.index key ≤ m.mask := Nat.and_le_right
  have := h.buckets
  omega

/-! ### The walks -/

/-- The walk finds the first entry of the list with the key. -/
theorem find_eq {l : List ℕ} {fuel : ℕ} {head : Option ℕ}
    (hlinked : Linked (fun x => (m.entry x).next) head l) (hfuel : l.length < fuel) :
    m.find key fuel head = some (l.find? fun e => (m.entry e).key = key) := by
  induction l generalizing fuel head with
  | nil =>
      obtain ⟨fuel, rfl⟩ := Nat.exists_eq_succ_of_ne_zero (Nat.ne_of_gt hfuel)
      rw [Linked.nil_iff] at hlinked
      simp [Map.find, hlinked]
  | cons x l ih =>
      obtain ⟨fuel, rfl⟩ := Nat.exists_eq_succ_of_ne_zero (Nat.ne_of_gt (Nat.zero_lt_of_lt hfuel))
      obtain ⟨rfl, htail⟩ := hlinked
      rw [Map.find]
      split
      · rename_i hkey
        simp [hkey]
      · rename_i hkey
        rw [ih htail (by simpa using hfuel), List.find?_cons_of_neg (by simpa using hkey)]

/-- The walk along the links stops at the link that leads to the first entry with the key. -/
theorem findLink_found {i : ℕ} {l₁ l₂ : List ℕ} {fuel : ℕ} {link : Option ℕ}
    (hlinked : Linked (fun x => (m.entry x).next) (m.readLink i link) (l₁ ++ e :: l₂))
    (hkey : (m.entry e).key = key) (hnot : ∀ x ∈ l₁, (m.entry x).key ≠ key) (hfuel : l₁.length < fuel) :
    m.findLink i key fuel link = some (some (l₁.getLast?.or link, e)) := by
  induction l₁ generalizing fuel link with
  | nil =>
      obtain ⟨fuel, rfl⟩ := Nat.exists_eq_succ_of_ne_zero (Nat.ne_of_gt hfuel)
      simp [Map.findLink, hlinked.1, hkey]
  | cons x l₁ ih =>
      obtain ⟨fuel, rfl⟩ := Nat.exists_eq_succ_of_ne_zero (Nat.ne_of_gt (Nat.zero_lt_of_lt hfuel))
      rw [Map.findLink, hlinked.1]
      simp only [if_neg (hnot x (List.mem_cons_self ..))]
      rw [@ih fuel (some x) hlinked.2 (fun y hy => hnot y (List.mem_cons_of_mem _ hy))
        (by simpa using hfuel)]
      cases l₁ with
      | nil => simp
      | cons y l₁ =>
          rw [List.getLast?_cons_cons, List.getLast?_eq_some_getLast (List.cons_ne_nil y l₁)]
          rfl

/-- The walk along the links comes to the end of a list without the key. -/
theorem findLink_not_found {i : ℕ} {l : List ℕ} {fuel : ℕ} {link : Option ℕ}
    (hlinked : Linked (fun x => (m.entry x).next) (m.readLink i link) l)
    (hnot : ∀ x ∈ l, (m.entry x).key ≠ key) (hfuel : l.length < fuel) :
    m.findLink i key fuel link = some none := by
  induction l generalizing fuel link with
  | nil =>
      obtain ⟨fuel, rfl⟩ := Nat.exists_eq_succ_of_ne_zero (Nat.ne_of_gt hfuel)
      rw [Linked.nil_iff] at hlinked
      simp [Map.findLink, hlinked]
  | cons x l ih =>
      obtain ⟨fuel, rfl⟩ := Nat.exists_eq_succ_of_ne_zero (Nat.ne_of_gt (Nat.zero_lt_of_lt hfuel))
      rw [Map.findLink, hlinked.1]
      simp only [if_neg (hnot x (List.mem_cons_self ..))]
      exact ih hlinked.2 (fun y hy => hnot y (List.mem_cons_of_mem _ hy)) (by simpa using hfuel)

/-- An entry with the key is in the bucket of the key, and found there; otherwise the walk ends. -/
theorem find_spec (h : Rep m chain entries) (key : UInt64) :
    (∃ e ∈ entries, (m.entry e).key = key ∧
        m.find key walkFuel (m.head (m.index key)) = some (some e)) ∨
      (∀ e ∈ entries, (m.entry e).key ≠ key) ∧
        m.find key walkFuel (m.head (m.index key)) = some none := by
  rw [find_eq (h.linked _) (h.length_lt _)]
  cases hfind : (chain (m.index key)).find? fun e => (m.entry e).key = key with
  | some e =>
      have hmem := (h.mem_iff _ e).mp (List.mem_of_find?_eq_some hfind)
      have hkey := List.find?_some hfind
      exact Or.inl ⟨e, hmem.1, by simpa using hkey, rfl⟩
  | none =>
      refine Or.inr ⟨fun e he hkey => ?_, rfl⟩
      have hmem : e ∈ chain (m.index key) := (h.mem_iff _ e).mpr ⟨he, by rw [hkey]⟩
      exact absurd hkey (by simpa using List.find?_eq_none.mp hfind e hmem)

/-- What is before an entry in its bucket has other keys. -/
theorem key_ne_of_before (h : Rep m chain entries) {i : ℕ} {l₁ l₂ : List ℕ}
    (hchain : chain i = l₁ ++ e :: l₂) (x : ℕ) (hx : x ∈ l₁ ++ l₂) : (m.entry x).key ≠ (m.entry e).key := by
  have hnodup := (h.linked i).nodup
  rw [hchain] at hnodup
  have hne : x ≠ e := by
    rintro rfl
    exact (List.nodup_cons.mp (List.nodup_middle.mp hnodup)).1 hx
  have hmem : ∀ y ∈ l₁ ++ e :: l₂, y ∈ entries := by
    intro y hy
    exact ((h.mem_iff i y).mp (hchain ▸ hy)).1
  have hx' : x ∈ l₁ ++ e :: l₂ := by
    rcases List.mem_append.mp hx with hx | hx
    · exact List.mem_append_left _ hx
    · exact List.mem_append_right _ (List.mem_cons_of_mem _ hx)
  exact fun hkey => hne (h.key_inj x (hmem x hx') e (hmem e (by simp)) hkey)

/-! ### The operations -/

/-- The value of an entry is overwritten. -/
theorem setValue (h : Rep m chain entries) (e : ℕ) (value : Value) :
    Rep { m with entry := update m.entry e { m.entry e with value := value } } chain entries := by
  have hkeep : ∀ x, (update m.entry e { m.entry e with value := value } x).key = (m.entry x).key ∧
      (update m.entry e { m.entry e with value := value } x).next = (m.entry x).next := by
    intro x
    by_cases hx : x = e
    · subst hx
      simp
    · simp [update_of_ne hx]
  refine ⟨h.buckets, fun i => ?_, fun i x => ?_, fun x hx y hy hkey => ?_, h.address, h.count⟩
  · simp only [(hkeep _).2]
    exact h.linked i
  · simp only [(hkeep _).1]
    exact h.mem_iff i x
  · simp only [(hkeep _).1] at hkey
    exact h.key_inj x hx y hy hkey

/-- A new entry is put at the head of its bucket. -/
theorem pushEntry (h : Rep m chain entries) (hnew : ∀ x ∈ entries, (m.entry x).key ≠ key) (value : Value)
    (hfresh : e ∉ entries) (haddress : 0 < e ∧ e < 2 ^ 64) :
    Rep
      { m with
        entry := update m.entry e { key := key, value := value, next := m.head (m.index key) }
        head := update m.head (m.index key) (some e)
        count := wrap64 (m.count + 1) }
      (update chain (m.index key) (e :: chain (m.index key))) (insert e entries) := by
  set m' : Map Value :=
    { m with
      entry := update m.entry e { key := key, value := value, next := m.head (m.index key) }
      head := update m.head (m.index key) (some e)
      count := wrap64 (m.count + 1) } with hm'
  have hself : m'.entry e = ⟨key, value, m.head (m.index key)⟩ := update_self ..
  have hother : ∀ x, x ≠ e → m'.entry x = m.entry x := fun x hx => update_of_ne hx ..
  have hold : ∀ x ∈ entries, m'.entry x = m.entry x := fun x hx =>
    hother x fun heq => hfresh (heq ▸ hx)
  have htail : ∀ i, Linked (fun x => (m'.entry x).next) (m.head i) (chain i) := fun i =>
    (h.linked i).congr fun x hx => by rw [hold x ((h.mem_iff i x).mp hx).1]
  have haddress' : ∀ x ∈ insert e entries, 0 < x ∧ x < 2 ^ 64 := by
    intro x hx
    rcases Finset.mem_insert.mp hx with rfl | hx
    · exact haddress
    · exact h.address x hx
  refine ⟨h.buckets, fun i => ?_, fun i x => ?_, fun x hx y hy hkey => ?_, haddress', ?_⟩
  · by_cases hi : i = m.index key
    · subst hi
      simp only [hm', update_self]
      refine ⟨rfl, ?_⟩
      simp only [update_self]
      exact htail _
    · simp only [hm', update_of_ne hi]
      exact htail i
  · show x ∈ _ ↔ x ∈ insert e entries ∧ m.index (m'.entry x).key = i
    by_cases hx : x = e
    · subst hx
      rw [hself]
      by_cases hi : i = m.index key
      · subst hi
        simp
      · have hnot : x ∉ chain i := fun hmem => hfresh ((h.mem_iff i x).mp hmem).1
        simp [update_of_ne hi, hnot, Ne.symm hi]
    · rw [hother x hx]
      by_cases hi : i = m.index key
      · subst hi
        simp [hx, h.mem_iff]
      · simp [update_of_ne hi, hx, h.mem_iff]
  · rcases Finset.mem_insert.mp hx with hxe | hx
    · rcases Finset.mem_insert.mp hy with hye | hy
      · exact hxe.trans hye.symm
      · rw [hxe, hself, hold y hy] at hkey
        exact absurd hkey.symm (hnew y hy)
    · rcases Finset.mem_insert.mp hy with hye | hy
      · rw [hye, hself, hold x hx] at hkey
        exact absurd hkey (hnew x hx)
      · rw [hold x hx, hold y hy] at hkey
        exact h.key_inj x hx y hy hkey
  · have hcard := h.card_lt
    have hinsert := Finset.card_insert_of_notMem hfresh
    have hsubset : insert e entries ⊆ Finset.Ico 1 (2 ^ 64) := fun x hx =>
      Finset.mem_Ico.mpr (haddress' x hx)
    have hlt := Finset.card_le_card hsubset
    rw [Nat.card_Ico] at hlt
    simp only [hm', h.count, hinsert]
    exact wrap64_of_lt (by omega)

/-- An entry is unlinked from its bucket. -/
theorem unlink (h : Rep m chain entries) (he : e ∈ entries) {l₁ l₂ : List ℕ}
    (hchain : chain (m.index (m.entry e).key) = l₁ ++ e :: l₂) :
    Rep
      { m.writeLink (m.index (m.entry e).key) (m.entry e).next l₁.getLast? with
        count := sub64 m.count 1 }
      (update chain (m.index (m.entry e).key) (l₁ ++ l₂)) (entries.erase e) := by
  set i := m.index (m.entry e).key with hi
  have hlist := h.linked i
  rw [hchain] at hlist
  have hkeep : ∀ x, ((m.writeLink i (m.entry e).next l₁.getLast?).entry x).key = (m.entry x).key :=
    fun x => (m.writeLink_entry i _ _ x).1
  have hnodup := hlist.nodup
  have hnot : e ∉ l₁ ++ l₂ := (List.nodup_cons.mp (List.nodup_middle.mp hnodup)).1
  have hmem : ∀ j x, x ∈ update chain i (l₁ ++ l₂) j ↔ x ∈ chain j ∧ x ≠ e := by
    intro j x
    by_cases hj : j = i
    · subst hj
      rw [update_self, hchain]
      have hne : x ∈ l₁ ++ l₂ → x ≠ e := by
        rintro hx rfl
        exact hnot hx
      simp only [List.mem_append, List.mem_cons] at hne ⊢
      tauto
    · rw [update_of_ne hj]
      refine ⟨fun hx => ⟨hx, ?_⟩, And.left⟩
      rintro rfl
      exact hj ((h.mem_iff j x).mp hx).2.symm
  have hwrite : (m.writeLink i (m.entry e).next l₁.getLast?).mask = m.mask ∧
      (m.writeLink i (m.entry e).next l₁.getLast?).bucketCount = m.bucketCount := by
    cases l₁.getLast? <;> exact ⟨rfl, rfl⟩
  refine ⟨?_, fun j => ?_, fun j x => ?_, fun x hx y hy hkey => ?_, fun x hx => ?_, ?_⟩
  · simp only [hwrite]
    exact h.buckets
  · rcases List.eq_nil_or_concat l₁ with rfl | ⟨l₀, p, rfl⟩
    · by_cases hj : j = i
      · subst hj
        simpa [Map.writeLink] using hlist.2
      · simpa [Map.writeLink, update_of_ne hj] using h.linked j
    · rw [List.concat_eq_append] at *
      have hpj : ∀ j', j' ≠ i → p ∉ chain j' := by
        intro j' hj' hp
        have hpi : p ∈ chain i := by simp [hchain]
        exact hj' (((h.mem_iff j' p).mp hp).2.symm.trans ((h.mem_iff i p).mp hpi).2)
      simp only [List.getLast?_append, List.getLast?_singleton, Option.some_or, Map.writeLink]
      by_cases hj : j = i
      · subst hj
        rw [update_self, List.append_assoc, List.singleton_append]
        have hlist' : Linked (fun x => (m.entry x).next) (m.head i) (l₀ ++ p :: e :: l₂) := by
          simpa using hlist
        exact hlist'.bypass (by simp) fun x hx => by rw [update_of_ne hx]
      · rw [update_of_ne hj]
        refine (h.linked j).congr fun x hx => ?_
        have hxp : x ≠ p := by
          rintro rfl
          exact hpj j hj hx
        rw [update_of_ne hxp]
  · rw [hmem, h.mem_iff, Finset.mem_erase]
    simp only [Map.index, hkeep, hwrite]
    tauto
  · simp only [hkeep] at hkey
    exact h.key_inj x (Finset.mem_of_mem_erase hx) y (Finset.mem_of_mem_erase hy) hkey
  · exact h.address x (Finset.mem_of_mem_erase hx)
  · have hlt := h.card_lt
    have hpos : 0 < entries.card := Finset.card_pos.mpr ⟨e, he⟩
    rw [Finset.card_erase_of_mem he]
    simp only [h.count, sub64, wrap64]
    omega

end Rep

/-! ## The last values -/

namespace Agrees

variable {m m' : Map Value} {chain : ℕ → List ℕ} {entries entries' : Finset ℕ} {key : UInt64} {e : ℕ}
  {history : List (Event Value)}

theorem latest_eq_some (h : Agrees history m entries) (he : e ∈ entries) (hkey : (m.entry e).key = key) :
    latest history key = some (m.entry e).value :=
  (h key _).mpr ⟨e, he, hkey, rfl⟩

theorem latest_eq_none (h : Agrees history m entries) (hnot : ∀ e ∈ entries, (m.entry e).key ≠ key) :
    latest history key = none := by
  cases hlatest : latest history key with
  | none => rfl
  | some v =>
      obtain ⟨e, he, hkey, -⟩ := (h key v).mp hlatest
      exact absurd hkey (hnot e he)

/-- The keys are those of the entries. -/
theorem keys_eq (h : Agrees history m entries) :
    {k | latest history k ≠ none} = (fun e => (m.entry e).key) '' (entries : Set ℕ) := by
  ext k
  constructor
  · intro hk
    obtain ⟨v, hv⟩ := Option.ne_none_iff_exists'.mp hk
    obtain ⟨e, he, hkey, -⟩ := (h k v).mp hv
    exact ⟨e, he, hkey⟩
  · rintro ⟨e, he, hkey⟩
    rw [Set.mem_ofPred_eq, h.latest_eq_some he hkey]
    exact Option.some_ne_none _

/-- What an operation does to the entries of one key. -/
theorem of_update (h : Agrees history m entries) {event : Event Value} (key : UInt64)
    (new : Option Value)
    (hlatest : ∀ k, latest (event :: history) k = if k = key then new else latest history k)
    (hself : ∀ v, new = some v ↔ Holds m' entries' key v)
    (hother : ∀ k, k ≠ key → ∀ v, Holds m entries k v ↔ Holds m' entries' k v) :
    Agrees (event :: history) m' entries' := by
  intro k v
  rw [hlatest]
  by_cases hk : k = key
  · rw [if_pos hk, hk]
    exact hself v
  · rw [if_neg hk, h k v]
    exact hother k hk v

/-- The value of an entry is overwritten. -/
theorem setValue (h : Agrees history m entries) (hrep : Rep m chain entries) (he : e ∈ entries)
    (hkey : (m.entry e).key = key) (value : Value) :
    Agrees (.insert key value .success :: history)
      { m with entry := update m.entry e { m.entry e with value := value } } entries := by
  refine h.of_update key (some value) (fun k => by simp [latest]) (fun v => ?_) ?_
  · constructor
    · intro hv
      obtain rfl := Option.some.inj hv
      exact ⟨e, he, by simpa using hkey, by simp⟩
    · rintro ⟨x, hx, hxkey, hvalue⟩
      by_cases hxe : x = e
      · subst hxe
        simpa using hvalue
      · simp only [update_of_ne hxe] at hxkey
        exact absurd (hrep.key_inj x hx e he (hxkey.trans hkey.symm)) hxe
  · intro k hk v
    refine exists_congr fun x => and_congr_right fun _ => ?_
    by_cases hxe : x = e
    · subst hxe
      simp [hkey, Ne.symm hk]
    · simp [update_of_ne hxe]

/-- A new entry. -/
theorem pushEntry (h : Agrees history m entries) (hnew : ∀ x ∈ entries, (m.entry x).key ≠ key)
    (hfresh : e ∉ entries) (value : Value) {next : Option ℕ}
    (hentry : m'.entry = update m.entry e { key := key, value := value, next := next }) :
    Agrees (.insert key value .success :: history) m' (insert e entries) := by
  have hold : ∀ x ∈ entries, m'.entry x = m.entry x := by
    intro x hx
    have hxe : x ≠ e := by
      rintro rfl
      exact hfresh hx
    rw [hentry, update_of_ne hxe]
  refine h.of_update key (some value) (fun k => by simp [latest]) (fun v => ?_) ?_
  · constructor
    · intro hv
      obtain rfl := Option.some.inj hv
      exact ⟨e, Finset.mem_insert_self e entries, by simp [hentry], by simp [hentry]⟩
    · rintro ⟨x, hx, hxkey, hvalue⟩
      rcases Finset.mem_insert.mp hx with hxe | hx
      · rw [hxe, hentry, update_self] at hvalue
        exact congrArg some hvalue
      · rw [hold x hx] at hxkey
        exact absurd hxkey (hnew x hx)
  · intro k hk v
    constructor
    · rintro ⟨x, hx, hxkey, hvalue⟩
      exact ⟨x, Finset.mem_insert_of_mem hx, by rwa [hold x hx], by rwa [hold x hx]⟩
    · rintro ⟨x, hx, hxkey, hvalue⟩
      rcases Finset.mem_insert.mp hx with hxe | hx
      · rw [hxe, hentry, update_self] at hxkey
        exact absurd hxkey.symm hk
      · rw [hold x hx] at hxkey hvalue
        exact ⟨x, hx, hxkey, hvalue⟩

/-- An insertion that fails. -/
theorem insert_failed (h : Agrees history m entries) {value : Value} {result : ThreadingError}
    (hresult : result ≠ .success) : Agrees (.insert key value result :: history) m entries := by
  intro k v
  rw [latest, if_neg (fun hk => hresult hk.2)]
  exact h k v

/-- An entry is unlinked. -/
theorem unlink (h : Agrees history m entries) (hrep : Rep m chain entries) (he : e ∈ entries)
    (hkey : (m.entry e).key = key)
    (hentry : ∀ x, (m'.entry x).key = (m.entry x).key ∧ (m'.entry x).value = (m.entry x).value) :
    Agrees (.remove key .success :: history) m' (entries.erase e) := by
  refine h.of_update key none (fun k => rfl) (fun v => ?_) ?_
  · refine iff_of_false (by simp) ?_
    rintro ⟨x, hx, hxkey, -⟩
    obtain ⟨hxe, hx⟩ := Finset.mem_erase.mp hx
    rw [(hentry x).1] at hxkey
    exact hxe (hrep.key_inj x hx e he (hxkey.trans hkey.symm))
  · intro k hk v
    constructor
    · rintro ⟨x, hx, hxkey, hvalue⟩
      have hxe : x ≠ e := by
        rintro rfl
        exact hk (hxkey.symm.trans hkey)
      exact ⟨x, Finset.mem_erase.mpr ⟨hxe, hx⟩, by rw [(hentry x).1, hxkey], by rw [(hentry x).2, hvalue]⟩
    · rintro ⟨x, hx, hxkey, hvalue⟩
      rw [(hentry x).1] at hxkey
      rw [(hentry x).2] at hvalue
      exact ⟨x, Finset.mem_of_mem_erase hx, hxkey, hvalue⟩

/-- A removal that finds nothing. -/
theorem remove_absent (h : Agrees history m entries) (hnot : ∀ x ∈ entries, (m.entry x).key ≠ key) :
    Agrees (.remove key .queueEmpty :: history) m entries := by
  refine h.of_update key none (fun k => rfl) (fun v => ?_) (fun k _ v => Iff.rfl)
  refine iff_of_false (by simp) ?_
  rintro ⟨x, hx, hxkey, -⟩
  exact hnot x hx hxkey

end Agrees

/-! ## The operations -/

section

variable {m : Map Value} {chain : ℕ → List ℕ} {entries : Finset ℕ} {history : List (Event Value)}

/-- An insertion fails if there is no entry and no memory; otherwise the key has the value afterwards. -/
theorem insert_spec (hrep : Rep m chain entries) (h : Agrees history m entries) (key : UInt64)
    (value : Value) {malloc : Option ℕ}
    (hmalloc : ∀ e, malloc = some e → 0 < e ∧ e < 2 ^ 64 ∧ ∀ i, ¬ m.InBucket i e) :
    (latest history key = none ∧ malloc = none ∧
        lgxConcurrentMapInsert m key value malloc = some (.outOfMemory, m)) ∨
      (latest history key ≠ none ∨ malloc ≠ none) ∧
        ∃ m' chain' entries', lgxConcurrentMapInsert m key value malloc = some (.success, m') ∧
          Rep m' chain' entries' ∧ Agrees (.insert key value .success :: history) m' entries' := by
  unfold lgxConcurrentMapInsert
  obtain ⟨e, he, hkey, hfind⟩ | ⟨hnot, hfind⟩ := hrep.find_spec key
  · -- the key has an entry, and its value is overwritten
    have hsome := h.latest_eq_some he hkey
    simp only [hfind]
    exact Or.inr ⟨Or.inl (by simp [hsome]), _, chain, entries, rfl, hrep.setValue e value,
      h.setValue hrep he hkey value⟩
  · simp only [hfind]
    cases malloc with
    | none => exact Or.inl ⟨h.latest_eq_none hnot, rfl, rfl⟩
    | some e =>
        obtain ⟨hpos, hlt, hfree⟩ := hmalloc e rfl
        have hfresh : e ∉ entries := fun he =>
          hfree _ (hrep.inBucket_iff.mpr ((hrep.mem_iff _ e).mpr ⟨he, rfl⟩))
        exact Or.inr ⟨Or.inr (Option.some_ne_none e), _, _, _, rfl,
          hrep.pushEntry hnot value hfresh ⟨hpos, hlt⟩, h.pushEntry hnot hfresh value rfl⟩

/-- A lookup finds the last value. -/
theorem lookup_spec (hrep : Rep m chain entries) (h : Agrees history m entries) (key : UInt64) :
    lgxConcurrentMapLookup m key =
      some (match latest history key with
        | some value => (.success, some value)
        | none => (.queueEmpty, none)) := by
  unfold lgxConcurrentMapLookup
  obtain ⟨e, he, hkey, hfind⟩ | ⟨hnot, hfind⟩ := hrep.find_spec key
  · simp only [hfind, h.latest_eq_some he hkey]
  · simp only [hfind, h.latest_eq_none hnot]

/-- A removal succeeds if the key has a value, and afterwards it has none. -/
theorem remove_spec (hrep : Rep m chain entries) (h : Agrees history m entries) (key : UInt64) :
    ∃ result m' chain' entries', lgxConcurrentMapRemove m key = some (result, m') ∧
      (latest history key ≠ none ∧ result = .success ∨
        latest history key = none ∧ result = .queueEmpty ∧ m' = m) ∧
      Rep m' chain' entries' ∧ Agrees (.remove key result :: history) m' entries' := by
  unfold lgxConcurrentMapRemove
  by_cases hexists : ∃ e ∈ entries, (m.entry e).key = key
  · obtain ⟨e, he, rfl⟩ := hexists
    have hmem : e ∈ chain (m.index (m.entry e).key) := (hrep.mem_iff _ e).mpr ⟨he, rfl⟩
    obtain ⟨l₁, l₂, hchain⟩ := List.append_of_mem hmem
    have hlink := hrep.linked (m.index (m.entry e).key)
    have hlength := hrep.length_lt (m.index (m.entry e).key)
    rw [hchain] at hlink
    rw [hchain, List.length_append] at hlength
    have hbefore : ∀ x ∈ l₁, (m.entry x).key ≠ (m.entry e).key := fun x hx =>
      hrep.key_ne_of_before hchain x (List.mem_append_left l₂ hx)
    have hfind : m.findLink (m.index (m.entry e).key) (m.entry e).key walkFuel none =
        some (some (l₁.getLast?.or none, e)) :=
      Rep.findLink_found hlink rfl hbefore (by omega)
    rw [Option.or_none] at hfind
    simp only [hfind]
    refine ⟨_, _, _, _, rfl, Or.inl ⟨?_, rfl⟩, hrep.unlink he hchain, h.unlink hrep he rfl ?_⟩
    · simp [h.latest_eq_some he rfl]
    · exact m.writeLink_entry (m.index (m.entry e).key) (m.entry e).next l₁.getLast?
  · have hnot : ∀ x ∈ entries, (m.entry x).key ≠ key := fun x hx hkey => hexists ⟨x, hx, hkey⟩
    have hfind : m.findLink (m.index key) key walkFuel none = some none :=
      Rep.findLink_not_found (hrep.linked (m.index key))
        (fun x hx => hnot x ((hrep.mem_iff _ x).mp hx).1) (hrep.length_lt (m.index key))
    simp only [hfind]
    exact ⟨_, _, chain, entries, rfl, Or.inr ⟨h.latest_eq_none hnot, rfl, rfl⟩, hrep, h.remove_absent hnot⟩

end

/-! ## Refinement -/

/-- The buckets hold the last values of the keys. -/
def Represents (s : State Value) : Prop :=
  ∃ chain entries, Rep s.map chain entries ∧ Agrees s.history s.map entries

theorem malloc_fresh {s : State Value} {key : UInt64} {value : Value} {malloc : Option ℕ}
    (h : Allowed s (.insert key value malloc)) (e : ℕ) (he : malloc = some e) :
    0 < e ∧ e < 2 ^ 64 ∧ ∀ i, ¬ s.map.InBucket i e := by
  subst he
  exact h

theorem Represents.step {s s' : State Value} {a : Action Value} (h : Represents s) (hallowed : Allowed s a)
    (hstep : step s a = some s') : Represents s' := by
  obtain ⟨chain, entries, hrep, hagrees⟩ := h
  cases a with
  | insert key value malloc =>
      obtain ⟨⟨result, m'⟩, hresult, rfl⟩ := Option.map_eq_some_iff.mp hstep
      obtain ⟨-, -, hfail⟩ | ⟨-, m'', chain', entries', hsuccess, hrep', hagrees'⟩ :=
        insert_spec hrep hagrees key value (malloc_fresh hallowed)
      · obtain ⟨rfl, rfl⟩ := Prod.mk.inj (Option.some.inj (hfail.symm.trans hresult))
        exact ⟨chain, entries, hrep, hagrees.insert_failed ThreadingError.noConfusion⟩
      · obtain ⟨rfl, rfl⟩ := Prod.mk.inj (Option.some.inj (hsuccess.symm.trans hresult))
        exact ⟨chain', entries', hrep', hagrees'⟩
  | lookup key =>
      obtain ⟨result, -, rfl⟩ := Option.map_eq_some_iff.mp hstep
      exact ⟨chain, entries, hrep, hagrees⟩
  | remove key =>
      obtain ⟨⟨result, m'⟩, hresult, rfl⟩ := Option.map_eq_some_iff.mp hstep
      obtain ⟨result', m'', chain', entries', hremove, -, hrep', hagrees'⟩ := remove_spec hrep hagrees key
      obtain ⟨rfl, rfl⟩ := Prod.mk.inj (Option.some.inj (hremove.symm.trans hresult))
      exact ⟨chain', entries', hrep', hagrees'⟩

theorem Reachable.represents {s : State Value} (h : Reachable s) : Represents s := by
  apply Interleaving.Reachable.invariant (I := Represents) h
  · rintro s ⟨bucketCount, hle, contents, rfl⟩
    refine ⟨fun _ => [], ∅, Rep.create hle contents, fun k v => ?_⟩
    exact iff_of_false (by simp [latest]) (by simp [Holds])
  · exact fun s s' a hs hallowed hstep => hs.step hallowed hstep

/-- The map is the finite map of the last values: every operation ends, with the result that the last values
give it, every key with a value has one entry, which is in the bucket of the key, and the number of keys is
the size. -/
structure Refines (s : State Value) : Prop where
  lookup : ∀ key, lgxConcurrentMapLookup s.map key =
    some (match latest s.history key with
      | some value => (.success, some value)
      | none => (.queueEmpty, none))
  insert : ∀ key value malloc, Allowed s (.insert key value malloc) →
    (latest s.history key = none ∧ malloc = none ∧
        lgxConcurrentMapInsert s.map key value malloc = some (.outOfMemory, s.map)) ∨
      (latest s.history key ≠ none ∨ malloc ≠ none) ∧
        ∃ m, lgxConcurrentMapInsert s.map key value malloc = some (.success, m)
  remove : ∀ key, ∃ result m, lgxConcurrentMapRemove s.map key = some (result, m) ∧
    (latest s.history key ≠ none ∧ result = .success ∨
      latest s.history key = none ∧ result = .queueEmpty ∧ m = s.map)
  entry : ∀ key value, latest s.history key = some value ↔
    ∃ i e, s.map.InBucket i e ∧ (s.map.entry e).key = key ∧ (s.map.entry e).value = value
  unique : ∀ i e i' e', s.map.InBucket i e → s.map.InBucket i' e' →
    (s.map.entry e).key = (s.map.entry e').key → e = e'
  bucket : ∀ i e, s.map.InBucket i e → i = mapHash (s.map.entry e).key &&& s.map.mask ∧ i < s.map.bucketCount
  size : lgxConcurrentMapSize s.map = {key | latest s.history key ≠ none}.ncard

/-- In every run of a concurrent map the map refines the finite map of the last values. -/
theorem refines_of_reachable {s : State Value} (hreach : Reachable s) : Refines s := by
  obtain ⟨chain, entries, hrep, hagrees⟩ := hreach.represents
  refine ⟨lookup_spec hrep hagrees, fun key value malloc hallowed => ?_, fun key => ?_, fun key value => ?_,
    fun i e i' e' he he' hkey => ?_, fun i e he => ?_, ?_⟩
  · obtain hfail | ⟨hcond, m', -, -, hsuccess, -⟩ :=
      insert_spec hrep hagrees key value (malloc_fresh hallowed)
    · exact Or.inl hfail
    · exact Or.inr ⟨hcond, m', hsuccess⟩
  · obtain ⟨result, m', -, -, hremove, hresult, -⟩ := remove_spec hrep hagrees key
    exact ⟨result, m', hremove, hresult⟩
  · rw [hagrees key value]
    constructor
    · rintro ⟨e, he, hkey, hvalue⟩
      exact ⟨_, e, hrep.inBucket_iff.mpr ((hrep.mem_iff _ e).mpr ⟨he, rfl⟩), hkey, hvalue⟩
    · rintro ⟨i, e, he, hkey, hvalue⟩
      exact ⟨e, ((hrep.mem_iff i e).mp (hrep.inBucket_iff.mp he)).1, hkey, hvalue⟩
  · have hmem := ((hrep.mem_iff i e).mp (hrep.inBucket_iff.mp he)).1
    have hmem' := ((hrep.mem_iff i' e').mp (hrep.inBucket_iff.mp he')).1
    exact hrep.key_inj e hmem e' hmem' hkey
  · obtain ⟨-, hindex⟩ := (hrep.mem_iff i e).mp (hrep.inBucket_iff.mp he)
    refine ⟨hindex.symm, ?_⟩
    rw [← hindex]
    exact hrep.index_lt _
  · rw [hagrees.keys_eq, Set.InjOn.ncard_image, Set.ncard_coe_finset]
    · exact hrep.count
    · exact fun e he e' he' hkey => hrep.key_inj e he e' he' hkey

/-! ## A run with collisions -/

/-- An address is free if the walk for the key that is stored there does not lead to it. -/
theorem Represents.not_inBucket {s : State Value} {e : ℕ} (h : Represents s)
    (hfind : ∀ key, (s.map.entry e).key = key →
      s.map.find key walkFuel (s.map.head (s.map.index key)) ≠ some (some e)) (i : ℕ) :
    ¬ s.map.InBucket i e := by
  obtain ⟨chain, entries, hrep, -⟩ := h
  intro he
  have hmem := ((hrep.mem_iff i e).mp (hrep.inBucket_iff.mp he)).1
  obtain ⟨e', he', hkey, hfound⟩ | ⟨hnot, -⟩ := hrep.find_spec (s.map.entry e).key
  · obtain rfl := hrep.key_inj e' he' e hmem hkey
    exact hfind _ rfl hfound
  · exact hnot e hmem rfl

/-- `Allowed`, as far as the entries that are in use are found. -/
def allowedCheck (s : State Value) : Action Value → Bool
  | .insert _ _ (some e) =>
      let key := (s.map.entry e).key
      0 < e ∧ e < 2 ^ 64 ∧ s.map.find key walkFuel (s.map.head (s.map.index key)) ≠ some (some e)
  | _ => true

theorem Reachable.allowed_of_check {s : State Value} {a : Action Value} (h : Reachable s)
    (hcheck : allowedCheck s a = true) : Allowed s a := by
  cases a with
  | insert key value malloc =>
      cases malloc with
      | none => trivial
      | some e =>
          obtain ⟨hpos, hlt, hfind⟩ := of_decide_eq_true hcheck
          refine ⟨hpos, hlt, h.represents.not_inBucket fun key hkey => ?_⟩
          rw [← hkey]
          exact hfind
  | lookup key => trivial
  | remove key => trivial

/-- Three keys of one bucket: an insertion fails for want of memory, a value is overwritten, and the entry in
the middle of the bucket is removed. -/
theorem refines_after_collisions : ∃ s : State ℕ, Reachable s ∧
    lgxConcurrentMapSize s.map = 2 ∧
    (latest s.history 4, latest s.history 5, latest s.history 7) = (some 11, none, some 31) ∧
    lgxConcurrentMapInsert s.map 5 21 none = some (.outOfMemory, s.map) ∧ Refines s := by
  let actions : List (Action ℕ) :=
    [.insert 4 10 (some 100), .insert 5 20 (some 101), .insert 7 30 none, .insert 4 11 (some 102),
      .insert 7 31 (some 102), .remove 5, .remove 5, .lookup 5]
  let start : State ℕ := ⟨lgxConcurrentMapCreate 1 fun _ => ⟨0, 0, none⟩, []⟩
  have hresult : (Interleaving.run (Interleaving.guarded step allowedCheck) actions start).map
      (fun s => (lgxConcurrentMapSize s.map, latest s.history 4, latest s.history 5,
        latest s.history 7)) = some (2, some 11, none, some 31) := by
    decide +kernel
  have hinit : Reachable start := .init ⟨1, by omega, _, rfl⟩
  obtain ⟨s, hreach, hs⟩ := hinit.exists_of_run_guarded (fun _ _ => Reachable.allowed_of_check) hresult
  obtain ⟨hsize, hlatest⟩ := Prod.mk.inj hs
  have hrefines := refines_of_reachable hreach
  refine ⟨s, hreach, hsize, hlatest, ?_, hrefines⟩
  obtain ⟨-, -, hfail⟩ | ⟨hcond, -⟩ := hrefines.insert 5 21 none trivial
  · exact hfail
  · have hnone : latest s.history 5 = none := by
      simpa using congrArg (fun values => values.2.1) hlatest
    simp [hnone] at hcond

end LgxRuntime.Threading.ConcurrentMap
