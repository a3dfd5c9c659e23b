import Mathlib.Data.List.Basic
import Mathlib.Data.List.Induction
import Mathlib.Tactic.Common

/-!
# Runs of events

A history is a list of booleans, the last one at its end.  A run is a maximal part of it that consists of `true`
alone.  The run at the end and the number of long runs are followed event by event.
-/

namespace Runs

/-- The length of the run at the end. -/
def trailing (l : List Bool) : ℕ :=
  (l.reverse.takeWhile id).length

/-- The number of runs of length `n` or more. -/
def long (n : ℕ) (l : List Bool) : ℕ :=
  (l.splitOn false).countP fun run => n ≤ run.length

variable {n : ℕ} {l : List Bool}

@[simp] theorem trailing_nil : trailing [] = 0 := rfl

@[simp] theorem trailing_concat_true : trailing (l ++ [true]) = trailing l + 1 := by
  simp [trailing]

@[simp] theorem trailing_concat_false : trailing (l ++ [false]) = 0 := by
  simp [trailing]

/-- The last `n` events are `true` exactly if the run at the end is as long. -/
theorem replicate_suffix_iff : List.replicate n true <:+ l ↔ n ≤ trailing l := by
  induction l using List.reverseRecOn generalizing n with
  | nil => simp
  | append_singleton l b ih =>
      cases n with
      | zero => simp
      | succ n =>
          rw [List.replicate_succ', List.suffix_concat_iff]
          cases b with
          | false => simp
          | true => simp [ih]

/-- The run at the end is behind the last `false`. -/
theorem eq_append_trailing (l : List Bool) :
    l = List.replicate (trailing l) true ∨ ∃ front, l = front ++ false :: List.replicate (trailing l) true := by
  induction l using List.reverseRecOn with
  | nil => exact Or.inl rfl
  | append_singleton l b ih =>
      cases b with
      | false => exact Or.inr ⟨l, by simp⟩
      | true =>
          rw [trailing_concat_true, List.replicate_succ']
          obtain h | ⟨front, h⟩ := ih
          · exact Or.inl (by rw [← h])
          · exact Or.inr ⟨front, by rw [← List.cons_append, ← List.append_assoc, ← h]⟩

theorem splitOn_replicate (n : ℕ) : (List.replicate n true).splitOn false = [List.replicate n true] :=
  List.splitOnP_eq_singleton fun x hx => by simp [List.eq_of_mem_replicate hx]

/-- One more `true` makes the run at the end longer, and leaves the others alone. -/
theorem splitOn_concat_true (l : List Bool) :
    ∃ runs, l.splitOn false = runs ++ [List.replicate (trailing l) true] ∧
      (l ++ [true]).splitOn false = runs ++ [List.replicate (trailing l + 1) true] := by
  have hsplit (front : List Bool) (n : ℕ) :
      (front ++ false :: List.replicate n true).splitOn false =
        front.splitOn false ++ [List.replicate n true] := by
    rw [← splitOn_replicate n]
    exact List.splitOnP_append_cons _ _ (by simp)
  obtain h | ⟨front, h⟩ := eq_append_trailing l
  · refine ⟨[], ?_, ?_⟩
    · rw [List.nil_append, ← splitOn_replicate, ← h]
    · rw [List.nil_append, ← splitOn_replicate, List.replicate_succ', ← h]
  · refine ⟨front.splitOn false, ?_, ?_⟩
    · rw [← hsplit, ← h]
    · rw [← hsplit, List.replicate_succ', ← List.cons_append, ← List.append_assoc, ← h]

@[simp] theorem long_concat_true (n : ℕ) (l : List Bool) :
    long n (l ++ [true]) = long n l + if trailing l + 1 = n then 1 else 0 := by
  obtain ⟨runs, hl, hconcat⟩ := splitOn_concat_true l
  unfold long
  rw [hl, hconcat, List.countP_append, List.countP_append, List.countP_singleton, List.countP_singleton,
    List.length_replicate, List.length_replicate]
  simp only [decide_eq_true_eq]
  split_ifs <;> omega

theorem long_concat_false (hn : 0 < n) (l : List Bool) : long n (l ++ [false]) = long n l := by
  have hsplit : (l ++ [false]).splitOn false = l.splitOn false ++ [[]] :=
    List.splitOnP_append_cons l [] (by simp)
  unfold long
  rw [hsplit, List.countP_append, List.countP_singleton]
  simp [Nat.ne_of_gt hn]

/-- A run takes at least as many events as it is long. -/
theorem long_le_length (hn : 0 < n) (l : List Bool) : long n l ≤ l.length := by
  induction l using List.reverseRecOn with
  | nil => simp [long, Nat.ne_of_gt hn]
  | append_singleton l b ih =>
      cases b with
      | false =>
          rw [long_concat_false hn, List.length_append]
          exact Nat.le_trans ih (Nat.le_add_right _ _)
      | true =>
          rw [long_concat_true, List.length_append, List.length_singleton]
          split_ifs <;> omega

end Runs
