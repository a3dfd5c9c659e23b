import Mathlib.Data.List.Perm.Basic
import Mathlib.Order.Lattice
import Mathlib.Tactic.Common

/-!
# Bubble sort

Two nested loops over an array swap neighbours that are in the wrong order, so that keys do not increase.
Each round of the outer loop carries an element with the least key behind the others, and the next round
leaves it out.
-/

namespace BubbleSort

open scoped List

variable {α β : Type*} [LinearOrder β] (key : α → β)

/-- Swap the elements at `j` and `j + 1` if the second has the larger key. -/
def compareSwap (l : List α) (j : ℕ) : List α :=
  match l[j]?, l[j + 1]? with
  | some a, some b => if key a < key b then (l.set j b).set (j + 1) a else l
  | _, _ => l

/-- The inner loop, for `j < n`. -/
def pass (n : ℕ) (l : List α) : List α :=
  (List.range n).foldl (compareSwap key) l

/-- The outer loop, for `i < n`. -/
def passes (n : ℕ) (l : List α) : List α :=
  (List.range n).foldl (fun sorted i => pass key (l.length - i - 1) sorted) l

/-- Both loops. -/
def sort (l : List α) : List α :=
  passes key (l.length - 1) l

/-- Between two parts of the array. -/
theorem compareSwap_append (front back : List α) (a b : α) :
    compareSwap key (front ++ a :: b :: back) front.length =
      if key a < key b then front ++ b :: a :: back else front ++ a :: b :: back := by
  have ha : (front ++ a :: b :: back)[front.length]? = some a := by simp
  have hb : (front ++ a :: b :: back)[front.length + 1]? = some b := by simp
  have hset : ((front ++ a :: b :: back).set front.length b).set (front.length + 1) a =
      front ++ b :: a :: back := by simp
  rw [compareSwap, ha, hb, ← hset]

theorem pass_succ (n : ℕ) (l : List α) : pass key (n + 1) l = compareSwap key (pass key n l) n := by
  rw [pass, List.range_succ, List.foldl_append]
  rfl

/-- The least of the elements so far is compared with the next one, and the lesser goes on. -/
theorem compareSwap_least {rest : List α} {least : α} (hleast : ∀ e ∈ rest, key least ≤ key e) (b : α)
    (back : List α) :
    ∃ rest' least', compareSwap key (rest ++ least :: b :: back) rest.length = rest' ++ least' :: back ∧
      rest'.length = rest.length + 1 ∧ (rest' ++ [least']) ~ (rest ++ [least, b]) ∧
      ∀ e ∈ rest', key least' ≤ key e := by
  have hmem : ∀ {e c : α}, e ∈ rest ++ [c] → e ∈ rest ∨ e = c := by
    intro e c he
    rwa [List.mem_append, List.mem_singleton] at he
  rw [compareSwap_append]
  by_cases hless : key least < key b
  · refine ⟨rest ++ [b], least, ?_, by simp, ?_, ?_⟩
    · rw [if_pos hless, List.append_assoc, List.singleton_append]
    · rw [List.append_assoc]
      exact List.Perm.append_left rest (List.Perm.swap least b [])
    · intro e he
      rcases hmem he with he | rfl
      · exact hleast e he
      · exact hless.le
  · have hle : key b ≤ key least := not_lt.mp hless
    refine ⟨rest ++ [least], b, ?_, by simp, ?_, ?_⟩
    · rw [if_neg hless, List.append_assoc, List.singleton_append]
    · rw [List.append_assoc]
      exact List.Perm.refl _
    · intro e he
      rcases hmem he with he | rfl
      · exact hle.trans (hleast e he)
      · exact hle

/-- The inner loop carries the least of the first `n + 1` elements behind the others. -/
theorem pass_append (n : ℕ) (front back : List α) (hlength : front.length = n + 1) :
    ∃ rest least, pass key n (front ++ back) = rest ++ least :: back ∧ rest.length = n ∧
      (rest ++ [least]) ~ front ∧ ∀ e ∈ rest, key least ≤ key e := by
  induction n generalizing front back with
  | zero =>
      obtain ⟨a, rfl⟩ := List.length_eq_one_iff.mp hlength
      exact ⟨[], a, rfl, rfl, List.Perm.refl _, by simp⟩
  | succ n ih =>
      have hne : front ≠ [] := List.ne_nil_of_length_eq_add_one hlength
      obtain ⟨first, b, rfl⟩ : ∃ first b, front = first ++ [b] :=
        ⟨front.dropLast, front.getLast hne, (List.dropLast_append_getLast hne).symm⟩
      have hfirst : first.length = n + 1 := by simpa using hlength
      obtain ⟨rest, least, hpass, rfl, hperm, hleast⟩ := ih first (b :: back) hfirst
      obtain ⟨rest', least', hcompare, hrest', hperm', hleast'⟩ := compareSwap_least key hleast b back
      refine ⟨rest', least', ?_, hrest', ?_, hleast'⟩
      · rw [pass_succ, List.append_assoc, List.singleton_append, hpass, hcompare]
      · calc rest' ++ [least']
          _ ~ rest ++ [least, b] := hperm'
          _ ~ rest ++ [least] ++ [b] := by rw [List.append_assoc, List.singleton_append]
          _ ~ first ++ [b] := hperm.append_right [b]

theorem passes_succ (n : ℕ) (l : List α) :
    passes key (n + 1) l = pass key (l.length - n - 1) (passes key n l) := by
  rw [passes, List.range_succ, List.foldl_append]
  rfl

/-- After `n` rounds the last `n` elements are in order, and their keys are the least. -/
theorem passes_spec (n : ℕ) (l : List α) (hn : n < l.length) :
    ∃ rest sorted, passes key n l = rest ++ sorted ∧ sorted.length = n ∧ (rest ++ sorted) ~ l ∧
      (sorted.Pairwise fun a b => key b ≤ key a) ∧ ∀ a ∈ rest, ∀ b ∈ sorted, key b ≤ key a := by
  induction n with
  | zero =>
      refine ⟨l, [], (List.append_nil l).symm, rfl, ?_, List.Pairwise.nil, by simp⟩
      rw [List.append_nil]
  | succ n ih =>
      obtain ⟨rest, sorted, hpasses, hsorted, hperm, hpairwise, hleast⟩ := ih (Nat.lt_of_succ_lt hn)
      have hlength : rest.length = l.length - n - 1 + 1 := by
        have hsum := hperm.length_eq
        rw [List.length_append] at hsum
        omega
      obtain ⟨rest', least, hpass, hrest', hperm', hleast'⟩ :=
        pass_append key (l.length - n - 1) rest sorted hlength
      have hall : (rest' ++ least :: sorted) ~ (rest ++ sorted) := by
        rw [← List.singleton_append, ← List.append_assoc]
        exact hperm'.append_right sorted
      have hmem : ∀ e ∈ rest' ++ [least], e ∈ rest := fun e he => hperm'.mem_iff.mp he
      refine ⟨rest', least :: sorted, ?_, ?_, hall.trans hperm, ?_, ?_⟩
      · rw [passes_succ, hpasses, hpass]
      · rw [List.length_cons, hsorted]
      · refine List.pairwise_cons.mpr ⟨?_, hpairwise⟩
        intro b hb
        exact hleast least (hmem least (by simp)) b hb
      · intro a ha b hb
        rcases List.mem_cons.mp hb with rfl | hb
        · exact hleast' a ha
        · exact hleast a (hmem a (List.mem_append_left _ ha)) b hb

/-- The elements are the same, and their keys do not increase. -/
theorem sort_spec (l : List α) :
    (sort key l) ~ l ∧ (sort key l).Pairwise fun a b => key b ≤ key a := by
  by_cases hnil : l = []
  · rw [hnil]
    exact ⟨List.Perm.refl _, List.Pairwise.nil⟩
  · have hpos : 0 < l.length := List.length_pos_of_ne_nil hnil
    obtain ⟨rest, sorted, hpasses, hsorted, hperm, hpairwise, hleast⟩ :=
      passes_spec key (l.length - 1) l (by omega)
    -- one element is left
    have hone : rest.length = 1 := by
      have hsum := hperm.length_eq
      rw [List.length_append] at hsum
      omega
    obtain ⟨a, rfl⟩ := List.length_eq_one_iff.mp hone
    rw [sort, hpasses]
    refine ⟨hperm, List.pairwise_cons.mpr ⟨?_, hpairwise⟩⟩
    intro b hb
    exact hleast a (List.mem_singleton_self a) b hb

theorem sort_perm (l : List α) : (sort key l) ~ l :=
  (sort_spec key l).1

theorem sort_pairwise (l : List α) : (sort key l).Pairwise fun a b => key b ≤ key a :=
  (sort_spec key l).2

end BubbleSort
