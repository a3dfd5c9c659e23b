import Mathlib.Data.Int.Notation
import Mathlib.Algebra.BigOperators.Group.List.Basic
import Mathlib.Algebra.Order.Ring.Int
import Mathlib.Tactic.Common

/-!
# Printing into a buffer piece by piece

`snprintf` is given a place in the buffer and the length that remains there, and returns the length of the
whole text, whether it fits or not; a text that is longer than the largest `int` is an error.  A caller that
prints one text after the other adds what it returns to the place, which is an `int`.

An `Output` is such a place with the calls made so far.  Nothing is printed beyond the buffer as long as the
places stay within it (`inBounds_iff`).
-/

namespace Snprintf

/-- `INT_MAX`. -/
def maxInt : ℕ := 2 ^ 31 - 1

/-- What an `int` holds after `n` has been computed in it. -/
def wrapInt (n : ℤ) : ℤ :=
  n.bmod (2 ^ 32)

/-- The cast of an `int` to `size_t`. -/
def toSize (n : ℤ) : ℕ :=
  (n % 2 ^ 64).toNat

/-- The bytes of an ASCII literal. -/
def ascii (s : String) : List UInt8 :=
  s.toList.map fun c => UInt8.ofNat c.toNat

/-- `%-ns`: blanks behind, up to `n` characters. -/
def padRight (n : ℕ) (text : List UInt8) : List UInt8 :=
  text ++ List.replicate (n - text.length) 32

/-- Blanks in front, up to `n` characters. -/
def padLeft (n : ℕ) (text : List UInt8) : List UInt8 :=
  List.replicate (n - text.length) 32 ++ text

/-- `%lu`, `%u` and `%d` for numbers that are not negative. -/
def decimal (n : ℕ) : List UInt8 :=
  (Nat.toDigits 10 n).map fun c => UInt8.ofNat c.toNat

/-- A call of `snprintf`: the place in the buffer, and the length that is said to remain. -/
structure Call where
  start : ℤ
  remaining : ℕ

/-- The place lies in the buffer, and no more remains there than is said. -/
def Call.InBounds (size : ℕ) (c : Call) : Prop :=
  0 ≤ c.start ∧ c.start ≤ size ∧ c.start + c.remaining ≤ size

/-- The place that has been reached, and the calls so far. -/
structure Output where
  written : ℤ
  calls : List Call

/-- What `snprintf` returns, if it is not an error. -/
def printed (text : List UInt8) : ℕ :=
  if text.length ≤ maxInt then text.length else 0

namespace Output

/-- Nothing has been printed. -/
def empty : Output :=
  ⟨0, []⟩

/-- Print a text with `n = snprintf(buf + written, size - (size_t)written, ..)`, and `if (n > 0) written += n`. -/
def print (o : Output) (size : ℕ) (text : List UInt8) : Output where
  written := wrapInt (o.written + printed text)
  calls := o.calls ++ [⟨o.written, toSize (size - toSize o.written)⟩]

/-- Print some texts, one after the other. -/
def printAll (o : Output) (size : ℕ) (texts : List (List UInt8)) : Output :=
  texts.foldl (fun o text => o.print size text) o

/-- All calls are in bounds. -/
def InBounds (o : Output) (size : ℕ) : Prop :=
  ∀ c ∈ o.calls, c.InBounds size

/-- The place is an `int`. -/
def IsInt (o : Output) : Prop :=
  -2 ^ 31 ≤ o.written ∧ o.written ≤ maxInt

end Output

/-! ## One call -/

theorem toSize_of_nonneg {n : ℤ} (hn : 0 ≤ n) (hlt : n < 2 ^ 64) : (toSize n : ℤ) = n := by
  unfold toSize
  omega

/-- A negative `int` is a huge `size_t`. -/
theorem toSize_of_neg {n : ℤ} (hn : n < 0) (hlow : -2 ^ 31 ≤ n) : 2 ^ 63 ≤ toSize n := by
  unfold toSize
  omega

/-- A call is in bounds exactly if its place is. -/
theorem inBounds_iff {size : ℕ} {written : ℤ} (hsize : size < 2 ^ 63) :
    Call.InBounds size ⟨written, toSize (size - toSize written)⟩ ↔ 0 ≤ written ∧ written ≤ size := by
  unfold Call.InBounds
  constructor
  · exact fun h => ⟨h.1, h.2.1⟩
  · rintro ⟨hlow, hhigh⟩
    have hplace : (toSize written : ℤ) = written := toSize_of_nonneg hlow (by omega)
    have hrest := toSize_of_nonneg (n := size - toSize written) (by omega) (by omega)
    refine ⟨hlow, hhigh, ?_⟩
    simp only
    omega

/-- The place after an addition that fits. -/
theorem wrapInt_of_le {n : ℤ} (hlow : -2 ^ 31 ≤ n) (hhigh : n ≤ maxInt) : wrapInt n = n := by
  unfold maxInt at hhigh
  rw [wrapInt, Int.bmod_eq_of_le] <;> omega

/-- An addition of two places that does not fit gives a negative place. -/
theorem wrapInt_neg {n : ℤ} (hlow : maxInt < n) (hhigh : n ≤ 2 * maxInt) :
    -2 ^ 31 ≤ wrapInt n ∧ wrapInt n < 0 := by
  unfold maxInt at hlow hhigh
  rw [wrapInt, Int.bmod_def]
  omega

theorem printed_le (text : List UInt8) : printed text ≤ maxInt := by
  unfold printed
  split_ifs with h
  · exact h
  · exact Nat.zero_le _

variable {o : Output} {size : ℕ} {text : List UInt8} {texts : List (List UInt8)}

namespace Output

/-- The place after a text: behind it, or negative if it does not fit an `int`. -/
theorem written_print (h : o.IsInt) (size : ℕ) (text : List UInt8) :
    (o.print size text).written = o.written + printed text ∧ o.written + printed text ≤ maxInt ∨
      (o.print size text).written < 0 ∧ maxInt < o.written + printed text := by
  have hle := printed_le text
  obtain ⟨hlow, hhigh⟩ := h
  by_cases hfits : o.written + printed text ≤ maxInt
  · exact Or.inl ⟨wrapInt_of_le (by omega) hfits, hfits⟩
  · exact Or.inr ⟨(wrapInt_neg (not_le.mp hfits) (by omega)).2, not_le.mp hfits⟩

theorem IsInt.print (h : o.IsInt) : (o.print size text).IsInt := by
  have hle := printed_le text
  obtain ⟨hlow, hhigh⟩ := h
  by_cases hfits : o.written + printed text ≤ maxInt
  · have hwritten : (o.print size text).written = o.written + printed text := wrapInt_of_le (by omega) hfits
    unfold IsInt
    omega
  · have hneg : -2 ^ 31 ≤ (o.print size text).written ∧ (o.print size text).written < 0 :=
      wrapInt_neg (not_le.mp hfits) (by omega)
    unfold IsInt
    omega

/-- What is out of bounds stays so. -/
theorem InBounds.of_print (h : (o.print size text).InBounds size) : o.InBounds size :=
  fun c hc => h c (List.mem_append_left _ hc)

/-- A text is printed in bounds exactly if the place is in the buffer. -/
theorem inBounds_print (hsize : size < 2 ^ 63) :
    (o.print size text).InBounds size ↔ o.InBounds size ∧ 0 ≤ o.written ∧ o.written ≤ size := by
  unfold InBounds print
  rw [List.forall_mem_append, List.forall_mem_singleton, inBounds_iff hsize]

/-- Texts are printed in bounds exactly if the last one begins in the buffer, and at an `int`. -/
theorem inBounds_printAll (hsize : size < 2 ^ 63) (h : o.IsInt) :
    (o.printAll size texts).InBounds size ↔
      o.InBounds size ∧ (texts = [] ∨
        0 ≤ o.written ∧ o.written + (texts.dropLast.map printed).sum ≤ size ∧
          o.written + (texts.dropLast.map printed).sum ≤ maxInt) := by
  induction texts generalizing o with
  | nil => simp [printAll]
  | cons text texts ih =>
      have hprint : (o.print size text).IsInt := h.print
      rw [printAll, List.foldl_cons, ← printAll, ih hprint, inBounds_print hsize]
      have hwritten := written_print h size text
      cases texts with
      | nil =>
          have hmax := h.2
          simp only [true_or, and_true, List.dropLast_singleton, List.map_nil, List.sum_nil, Nat.cast_zero,
            add_zero, reduceCtorEq, false_or, hmax]
      | cons text' texts =>
          rw [List.dropLast_cons_cons, List.map_cons, List.sum_cons, and_assoc]
          simp only [reduceCtorEq, false_or]
          refine and_congr_right fun _ => ?_
          rw [Nat.cast_add]
          omega

end Output

end Snprintf
