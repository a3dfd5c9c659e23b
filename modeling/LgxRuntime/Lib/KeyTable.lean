import Mathlib.Data.List.Induction
import Mathlib.Data.List.Perm.Basic
import Mathlib.Logic.Function.Basic
import Mathlib.Tactic.Common

/-!
# Tables of keyed entries

A table fills the front of an array, in no particular order.  An entry is added behind the last one; the
place of an entry that is removed is taken by the last one.  `Holds` says that a table holds one entry
for each key of a map, with the value of the key, and nothing else.
-/

namespace KeyTable

open Function (update update_self update_of_ne)
open scoped List

variable {ε κ ν : Type*}

/-- Remove entry `i`: the last entry moves into its place. -/
def swapRemove (table : List ε) (i : ℕ) : List ε :=
  match table.getLast? with
  | none => []
  | some last => (if i < table.length - 1 then table.set i last else table).dropLast

/-- The entries are the old ones without the removed one. -/
theorem perm_swapRemove {table : List ε} {i : ℕ} {e : ε} (h : table[i]? = some e) :
    table.Perm (e :: swapRemove table i) := by
  induction table using List.reverseRecOn with
  | nil => simp at h
  | append_singleton front last _ =>
      obtain ⟨hlt, he⟩ := List.getElem?_eq_some_iff.mp h
      simp only [swapRemove, List.getLast?_concat, List.length_append, List.length_singleton,
        Nat.add_sub_cancel] at hlt ⊢
      by_cases hi : i < front.length
      · rw [List.getElem_append_left hi] at he
        rw [if_pos hi, List.set_append_left i last hi, List.dropLast_concat]
        calc front ++ [last]
          _ ~ last :: front := List.perm_append_singleton last front
          _ ~ last :: front[i] :: front.eraseIdx i := (List.getElem_cons_eraseIdx_perm hi).symm.cons last
          _ ~ front[i] :: last :: front.eraseIdx i := List.Perm.swap ..
          _ ~ e :: front.set i last := by
            rw [he]
            exact (List.set_perm_cons_eraseIdx hi last).symm.cons e
      · obtain rfl : i = front.length := by omega
        rw [List.getElem_concat_length rfl] at he
        rw [if_neg hi, List.dropLast_concat, ← he]
        exact List.perm_append_singleton last front

variable [DecidableEq κ] (key : ε → κ) (value : ε → ν)

/-- Remove the first entry for key `k`, if there is one. -/
def removeKey (k : κ) (table : List ε) : List ε :=
  match table.findIdx? fun e => key e = k with
  | none => table
  | some i => swapRemove table i

/-- The values that the table has for key `k`. -/
def valuesOf (table : List ε) (k : κ) : List ν :=
  (table.filter fun e => key e = k).map value

/-- The table holds exactly one entry for each key of `f`, with its value, and no other entry. -/
def Holds (table : List ε) (f : κ → Option ν) : Prop :=
  ∀ k, valuesOf key value table k = (f k).toList

variable {key value} {table table' : List ε} {f : κ → Option ν} {e : ε} {k : κ}

theorem valuesOf_append_of_ne (hne : key e ≠ k) :
    valuesOf key value (table ++ [e]) k = valuesOf key value table k := by
  simp [valuesOf, hne]

theorem valuesOf_append_self :
    valuesOf key value (table ++ [e]) (key e) = valuesOf key value table (key e) ++ [value e] := by
  simp [valuesOf]

theorem valuesOf_cons_of_ne (hne : key e ≠ k) :
    valuesOf key value (e :: table) k = valuesOf key value table k := by
  simp [valuesOf, hne]

theorem valuesOf_cons_self :
    valuesOf key value (e :: table) (key e) = value e :: valuesOf key value table (key e) := by
  simp [valuesOf]

theorem valuesOf_perm (h : table.Perm table') :
    (valuesOf key value table k).Perm (valuesOf key value table' k) :=
  (h.filter _).map value

theorem valuesOf_eq_nil (h : ∀ e ∈ table, key e ≠ k) : valuesOf key value table k = [] := by
  rw [valuesOf, List.map_eq_nil_iff, List.filter_eq_nil_iff]
  simpa using h

theorem Holds.nil : Holds key value [] fun _ => none :=
  fun _ => rfl

/-- The order of the entries does not matter. -/
theorem Holds.perm (h : Holds key value table f) (hperm : table.Perm table') :
    Holds key value table' f := by
  intro k
  have hk : (valuesOf key value table k).Perm (valuesOf key value table' k) := valuesOf_perm hperm
  rw [h k] at hk
  cases hf : f k with
  | none =>
      rw [hf] at hk
      exact List.nil_perm.mp hk
  | some v =>
      rw [hf] at hk
      exact List.singleton_perm.mp hk |>.symm

/-- An entry for a new key is added. -/
theorem Holds.append (h : Holds key value table f) (hnew : f (key e) = none) :
    Holds key value (table ++ [e]) (update f (key e) (some (value e))) := by
  intro k
  by_cases hk : k = key e
  · rw [hk, valuesOf_append_self, h (key e), hnew, update_self]
    rfl
  · rw [valuesOf_append_of_ne (Ne.symm hk), h k, update_of_ne hk]

theorem valuesOf_append (front back : List ε) (k : κ) :
    valuesOf key value (front ++ back) k = valuesOf key value front k ++ valuesOf key value back k := by
  simp [valuesOf]

/-- An entry has the value of its key. -/
theorem Holds.eq_some (h : Holds key value table f) (he : e ∈ table) : f (key e) = some (value e) := by
  have hmem : value e ∈ valuesOf key value table (key e) :=
    List.mem_map_of_mem (List.mem_filter.mpr ⟨he, decide_eq_true rfl⟩)
  rwa [h (key e), Option.mem_toList] at hmem

/-- An entry is replaced by one with the same key. -/
theorem Holds.replace {front back : List ε} {e' : ε} (h : Holds key value (front ++ e :: back) f)
    (hkey : key e' = key e) :
    Holds key value (front ++ e' :: back) (update f (key e) (some (value e'))) := by
  intro k
  have hk := h k
  rw [valuesOf_append] at hk ⊢
  by_cases heq : key e = k
  · -- the entry was the only one for its key
    subst heq
    have hlength := congrArg List.length hk
    have hle : (f (key e)).toList.length ≤ 1 := Option.length_toList_le
    rw [valuesOf_cons_self, List.length_append, List.length_cons] at hlength
    have hfront : valuesOf key value front (key e) = [] := List.eq_nil_of_length_eq_zero (by omega)
    have hback : valuesOf key value back (key e) = [] := List.eq_nil_of_length_eq_zero (by omega)
    rw [hfront, ← hkey, valuesOf_cons_self, hkey, hback, update_self]
    rfl
  · rw [valuesOf_cons_of_ne heq] at hk
    rw [valuesOf_cons_of_ne (hkey ▸ heq), hk, update_of_ne (Ne.symm heq)]

/-- The entry for a key is removed, wherever it is. -/
theorem Holds.removeKey (h : Holds key value table f) (k : κ) :
    Holds key value (removeKey key k table) (update f k none) := by
  unfold KeyTable.removeKey
  cases hfind : table.findIdx? fun e => key e = k with
  | none =>
      have hall : ∀ e ∈ table, key e ≠ k := by simpa using List.findIdx?_eq_none_iff.mp hfind
      have hnone : f k = none := by
        rw [← Option.toList_eq_nil_iff, ← h k]
        exact valuesOf_eq_nil hall
      rwa [← hnone, Function.update_eq_self]
  | some i =>
      obtain ⟨hlt, hkey, -⟩ := List.findIdx?_eq_some_iff_getElem.mp hfind
      have hkey : key table[i] = k := by simpa using hkey
      have hcons := h.perm (perm_swapRemove (List.getElem?_eq_getElem hlt))
      intro k'
      have hk' := hcons k'
      by_cases heq : k' = k
      · -- the table had one entry for the key, and it is gone
        rw [heq, ← hkey, valuesOf_cons_self] at hk'
        rw [heq, update_self, ← hkey]
        cases hf : f (key table[i]) with
        | none => simp [hf] at hk'
        | some v =>
            rw [hf] at hk'
            exact (List.cons.inj hk').2
      · rwa [valuesOf_cons_of_ne fun hsame => heq (hsame.symm.trans hkey), ← update_of_ne heq none f] at hk'

end KeyTable
