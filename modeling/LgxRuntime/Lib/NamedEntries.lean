import LgxRuntime.Lib.KeyTable
import Mathlib.Data.List.Infix
import Mathlib.Data.Finset.Card

/-!
# Tables of named entries

A table has one entry for each name in use.  Entries are never removed.  A recording looks for the entry with
its name and updates it, or adds an entry behind the last one if there is none and if there is room; the name
is kept in the entry as far as it fits.  `Recording` says how the entries are made and updated, and what the
value of an entry is.

If all names are kept as they are and if there is room for all of them, the table holds one entry for each
name that was recorded, with what was recorded under this name, and its place never changes.
-/

namespace NamedEntries

open Function (update update_self update_of_ne)

/-- How entries `ε` with names in `κ` and values in `ν` record arguments in `α`. -/
structure Recording (κ α ε ν : Type*) where
  key : ε → κ
  value : ε → ν
  store : κ → κ
  hit : α → ε → ε
  fresh : κ → α → ε
  apply : α → Option ν → ν
  key_hit : ∀ a e, key (hit a e) = key e
  value_hit : ∀ a e, value (hit a e) = apply a (some (value e))
  key_fresh : ∀ k a, key (fresh k a) = store k
  value_fresh : ∀ k a, value (fresh k a) = apply a none

variable {κ α ε ν : Type*} [DecidableEq κ] (R : Recording κ α ε ν)

/-- Record an argument, and return the place of the entry; `none` if there is no room for it. -/
def record (capacity : ℕ) (k : κ) (a : α) (table : List ε) : Option (ℕ × List ε) :=
  match table.findIdx? fun e => R.key e = k with
  | some i => some (i, table.modify i (R.hit a))
  | none => if table.length < capacity then some (table.length, table ++ [R.fresh k a]) else none

/-- The table after some recordings.  One for which there is no room changes nothing. -/
def after (capacity : ℕ) (recordings : List (κ × α)) : List ε :=
  recordings.foldl (fun table r => ((record R capacity r.1 r.2 table).map Prod.snd).getD table) []

/-- What was recorded under a name, if anything was. -/
def recorded (recordings : List (κ × α)) (k : κ) : Option ν :=
  recordings.foldl (fun v r => if r.1 = k then some (R.apply r.2 v) else v) none

variable {R} {capacity : ℕ} {table : List ε} {recordings : List (κ × α)} {r : κ × α} {k : κ} {a : α}

theorem after_concat :
    after R capacity (recordings ++ [r]) =
      ((record R capacity r.1 r.2 (after R capacity recordings)).map Prod.snd).getD
        (after R capacity recordings) := by
  rw [after, List.foldl_append]
  rfl

theorem recorded_concat :
    recorded R (recordings ++ [r]) =
      update (recorded R recordings) r.1 (some (R.apply r.2 (recorded R recordings r.1))) := by
  funext k
  rw [recorded, List.foldl_append]
  by_cases hk : k = r.1
  · simp [hk, recorded]
  · simp [recorded, update_of_ne hk, Ne.symm hk]

theorem isSome_recorded : (recorded R recordings k).isSome ↔ k ∈ recordings.map Prod.fst := by
  induction recordings using List.reverseRecOn with
  | nil => simp [recorded]
  | append_singleton recordings r ih =>
      rw [recorded_concat]
      by_cases hk : k = r.1
      · simp [hk]
      · simp [hk, ih]

/-! ## One recording -/

/-- The entry for a name that is in the table is updated in its place. -/
theorem record_of_mem (capacity : ℕ) (a : α) (h : k ∈ table.map R.key) :
    ∃ front e back, table = front ++ e :: back ∧ R.key e = k ∧
      record R capacity k a table = some ((table.map R.key).idxOf k, front ++ R.hit a e :: back) := by
  have hlt : (table.map R.key).idxOf k < table.length := by
    simpa using List.idxOf_lt_length_of_mem h
  have hfind : (table.findIdx? fun e => R.key e = k) = some ((table.map R.key).idxOf k) := by
    rw [List.findIdx?_eq_some_iff_findIdx_eq]
    refine ⟨hlt, ?_⟩
    rw [List.idxOf, List.findIdx_map]
    rfl
  have hkey : R.key table[(table.map R.key).idxOf k] = k := by
    rw [← List.getElem_map R.key, List.getElem_idxOf]
    simpa using hlt
  refine ⟨table.take ((table.map R.key).idxOf k), table[(table.map R.key).idxOf k],
    table.drop ((table.map R.key).idxOf k + 1), ?_, hkey, ?_⟩
  · rw [List.getElem_cons_drop, List.take_append_drop]
  · simp only [record, hfind, List.modify_eq_take_cons_drop hlt]

/-- A name that is not in the table is added, if there is room. -/
theorem record_of_not_mem (h : k ∉ table.map R.key) (hroom : table.length < capacity) :
    record R capacity k a table = some (table.length, table ++ [R.fresh k a]) := by
  have hfind : (table.findIdx? fun e => R.key e = k) = none := by
    simpa using h
  rw [record, hfind]
  exact if_pos hroom

/-- The table holds what was recorded, and nothing else. -/
structure Tracks (R : Recording κ α ε ν) (table : List ε) (recordings : List (κ × α)) : Prop where
  nodup : (table.map R.key).Nodup
  mem_iff : ∀ k, k ∈ table.map R.key ↔ k ∈ recordings.map Prod.fst
  holds : KeyTable.Holds R.key R.value table (recorded R recordings)

theorem tracks_nil (R : Recording κ α ε ν) : Tracks R [] [] where
  nodup := List.nodup_nil
  mem_iff := fun _ => Iff.rfl
  holds := KeyTable.Holds.nil

/-- There is no more than one entry for each name that was recorded. -/
theorem Tracks.length_le (h : Tracks R table recordings) :
    table.length ≤ (recordings.map Prod.fst).toFinset.card := by
  rw [← List.length_map R.key, ← List.toFinset_card_of_nodup h.nodup]
  exact Finset.card_le_card fun k hk => by simpa [h.mem_iff] using hk

/-- A recording under a name that is kept as it is finds its entry, or room for one; the names before it keep
their places. -/
theorem Tracks.record (h : Tracks R table recordings) (hstore : R.store r.1 = r.1)
    (hfits : ((recordings ++ [r]).map Prod.fst).toFinset.card ≤ capacity) :
    ∃ table', record R capacity r.1 r.2 table = some ((table'.map R.key).idxOf r.1, table') ∧
      Tracks R table' (recordings ++ [r]) ∧ table.map R.key <+: table'.map R.key := by
  by_cases hmem : r.1 ∈ table.map R.key
  · obtain ⟨front, e, back, rfl, hkey, hrecord⟩ := record_of_mem capacity r.2 hmem
    have hkeys : (front ++ R.hit r.2 e :: back).map R.key = (front ++ e :: back).map R.key := by
      simp [R.key_hit]
    refine ⟨front ++ R.hit r.2 e :: back, by rw [hkeys, hrecord], ⟨?_, ?_, ?_⟩, ?_⟩
    · rw [hkeys]
      exact h.nodup
    · intro k
      rw [hkeys, h.mem_iff, List.map_append, List.mem_append]
      have hr := (h.mem_iff r.1).mp hmem
      grind
    · have hholds := h.holds.replace (R.key_hit r.2 e)
      have hvalue : recorded R recordings (R.key e) = some (R.value e) := h.holds.eq_some (by simp)
      rwa [R.value_hit, ← hvalue, hkey, ← recorded_concat] at hholds
    · rw [hkeys]
  · have hnew : r.1 ∉ recordings.map Prod.fst := fun h' => hmem ((h.mem_iff r.1).mpr h')
    have hroom : table.length < capacity := by
      rw [List.map_append, List.toFinset_append, Finset.union_comm, List.map_singleton, List.toFinset_cons,
        List.toFinset_nil, insert_empty_eq, Finset.singleton_union,
        Finset.card_insert_of_notMem (by simpa using hnew)] at hfits
      have hle := h.length_le
      omega
    have hkey : R.key (R.fresh r.1 r.2) = r.1 := (R.key_fresh r.1 r.2).trans hstore
    have hkeys : (table ++ [R.fresh r.1 r.2]).map R.key = table.map R.key ++ [r.1] := by simp [hkey]
    have hplace : (table.map R.key ++ [r.1]).idxOf r.1 = table.length := by
      simp [List.idxOf_append_of_notMem hmem]
    refine ⟨table ++ [R.fresh r.1 r.2], ?_, ⟨?_, ?_, ?_⟩, ?_⟩
    · rw [record_of_not_mem hmem hroom, hkeys, hplace]
    · rw [hkeys]
      exact List.nodup_append.mpr ⟨h.nodup, List.nodup_singleton r.1, by grind⟩
    · intro k
      rw [hkeys, List.map_append, List.mem_append, List.mem_append, h.mem_iff]
      rfl
    · have hnone : recorded R recordings r.1 = none := by
        rw [← Option.not_isSome_iff_eq_none, isSome_recorded]
        exact hnew
      have hholds := h.holds.append (e := R.fresh r.1 r.2) (by rw [hkey]; exact hnone)
      rwa [R.value_fresh, hkey, ← hnone, ← recorded_concat] at hholds
    · rw [hkeys]
      exact List.prefix_append _ _

/-! ## Runs -/

/-- All names are kept as they are, and there is room for all of them. -/
def Fits (R : Recording κ α ε ν) (capacity : ℕ) (recordings : List (κ × α)) : Prop :=
  (∀ r ∈ recordings, R.store r.1 = r.1) ∧ (recordings.map Prod.fst).toFinset.card ≤ capacity

theorem Fits.left {recordings' : List (κ × α)} (h : Fits R capacity (recordings ++ recordings')) :
    Fits R capacity recordings := by
  refine ⟨fun r hr => h.1 r (List.mem_append_left _ hr), le_trans (Finset.card_le_card ?_) h.2⟩
  rw [List.map_append, List.toFinset_append]
  exact Finset.subset_union_left

/-- The table holds one entry for each name, with all that was recorded under it. -/
theorem tracks_after (h : Fits R capacity recordings) :
    Tracks R (after R capacity recordings) recordings := by
  induction recordings using List.reverseRecOn with
  | nil => exact tracks_nil R
  | append_singleton recordings r ih =>
      obtain ⟨table', hrecord, htracks, -⟩ := (ih h.left).record (h.1 r (by simp)) h.2
      rw [after_concat, hrecord]
      exact htracks

/-- The next recording returns the place of its name. -/
theorem record_place (h : Fits R capacity (recordings ++ [r])) :
    (record R capacity r.1 r.2 (after R capacity recordings)).map Prod.fst =
      some (((after R capacity (recordings ++ [r])).map R.key).idxOf r.1) := by
  obtain ⟨table', hrecord, -⟩ := (tracks_after h.left).record (h.1 r (by simp)) h.2
  rw [after_concat, hrecord]
  rfl

/-- The names keep their places. -/
theorem keys_prefix {recordings' : List (κ × α)} (h : Fits R capacity (recordings ++ recordings')) :
    (after R capacity recordings).map R.key <+: (after R capacity (recordings ++ recordings')).map R.key := by
  induction recordings' using List.reverseRecOn with
  | nil => rw [List.append_nil]
  | append_singleton recordings' r ih =>
      rw [← List.append_assoc] at h ⊢
      obtain ⟨table', hrecord, -, hfront⟩ := (tracks_after h.left).record (h.1 r (by simp)) h.2
      rw [after_concat, hrecord]
      exact (ih h.left).trans hfront

/-- A recording returns the place that its name has ever after. -/
theorem record_place_eq {before rest : List (κ × α)} (h : Fits R capacity (before ++ r :: rest)) :
    (record R capacity r.1 r.2 (after R capacity before)).map Prod.fst =
      some (((after R capacity (before ++ r :: rest)).map R.key).idxOf r.1) := by
  have happend : before ++ r :: rest = (before ++ [r]) ++ rest := by simp
  rw [happend] at h ⊢
  obtain ⟨suffix, hkeys⟩ := keys_prefix h
  have hmem : r.1 ∈ (after R capacity (before ++ [r])).map R.key :=
    ((tracks_after h.left).mem_iff r.1).mpr (by simp)
  rw [record_place h.left, ← hkeys, List.idxOf_append_of_mem hmem]

/-! ## Tables with marked slots

A table may also be an array of slots, some of which are in use.  As entries are never removed, those are in
front. -/

/-- The slots of a table. -/
def slots (capacity : ℕ) (table : List ε) : List (Option ε) :=
  table.map some ++ List.replicate (capacity - table.length) none

theorem slots_nil (capacity : ℕ) : slots capacity ([] : List ε) = List.replicate capacity none := by
  simp [slots]

theorem getElem?_slots {i : ℕ} (hi : i < table.length) :
    (slots capacity table)[i]? = some (some table[i]) := by
  rw [slots, List.getElem?_append_left (by simpa using hi), List.getElem?_map, List.getElem?_eq_getElem hi]
  rfl

theorem findIdx?_slots (p : ε → Bool) :
    (slots capacity table).findIdx? (fun slot => slot.any p) = table.findIdx? p := by
  have hfree : (List.replicate (capacity - table.length) (none : Option ε)).findIdx?
      (fun slot => slot.any p) = none := by
    simp
  rw [slots, List.findIdx?_append, hfree, List.findIdx?_map]
  simp [Function.comp_def]

/-- The first free slot is behind the last one in use. -/
theorem findIdx?_isNone_slots :
    (slots capacity table).findIdx? Option.isNone =
      if table.length < capacity then some table.length else none := by
  have hused : (table.map some).findIdx? Option.isNone = none := by
    simp [List.findIdx?_eq_none_iff]
  rw [slots, List.findIdx?_append, hused]
  by_cases hroom : table.length < capacity
  · rw [if_pos hroom]
    obtain ⟨n, hn⟩ : ∃ n, capacity - table.length = n + 1 := ⟨capacity - table.length - 1, by omega⟩
    simp [hn, List.replicate_succ, List.findIdx?_cons]
  · rw [if_neg hroom, Nat.sub_eq_zero_of_le (not_lt.mp hroom)]
    rfl

theorem modify_slots {i : ℕ} (hi : i < table.length) (f : ε → ε) :
    (slots capacity table).modify i (Option.map f) = slots capacity (table.modify i f) := by
  have hlt : i < (slots capacity table).length := by
    simp only [slots, List.length_append, List.length_map]
    omega
  have hget : (slots capacity table)[i] = some table[i] := by
    simp [slots, hi]
  rw [List.modify_eq_take_cons_drop hlt, hget, slots, slots, List.length_modify,
    List.modify_eq_take_cons_drop hi]
  simp [List.take_append_of_le_length, List.drop_append_of_le_length, hi.le, Nat.succ_le_of_lt hi]

/-- An entry is put into the first free slot. -/
theorem set_slots (hroom : table.length < capacity) (e : ε) :
    (slots capacity table).set table.length (some e) = slots capacity (table ++ [e]) := by
  obtain ⟨n, hn⟩ : ∃ n, capacity - table.length = n + 1 := ⟨capacity - table.length - 1, by omega⟩
  have hn' : capacity - (table ++ [e]).length = n := by
    simp only [List.length_append, List.length_singleton]
    omega
  rw [slots, slots, hn, hn', List.replicate_succ, List.map_append]
  simp

end NamedEntries
