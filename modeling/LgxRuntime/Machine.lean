import Mathlib.Algebra.Order.Ring.Nat
import Mathlib.Tactic.Common

/-!
# C integers

The runtime is written against LP64: `size_t`, `uint64_t` and `VkDeviceSize` are 64 bits wide,
`int` is 32 bits wide.  Quantities that cannot overflow are plain natural numbers in the model;
the conversions below are used where the source relies on, or is hurt by, the width of a type.
Addresses are natural numbers, `0` being `NULL`.
-/

namespace LgxRuntime

/-- `INT_MAX`. -/
def intMax : ℕ := 2 ^ 31 - 1

/-- `SIZE_MAX`. -/
def sizeMax : ℕ := 2 ^ 64 - 1

/-- The cast `(int)n` of a `size_t`: the low 32 bits, read in two's complement. -/
def toInt (n : ℕ) : ℤ :=
  (BitVec.ofNat 32 n).toInt

/-- The value a `uint64_t` or a pointer holds after `n` has been computed in it. -/
def wrap64 (n : ℕ) : ℕ :=
  n % 2 ^ 64

/-- The difference `a - b` in a `uint64_t`. -/
def sub64 (a b : ℕ) : ℕ :=
  wrap64 (a + (2 ^ 64 - wrap64 b))

/-- The value an `int64_t` holds after `n` has been computed in it, in two's complement. -/
def wrapInt64 (n : ℤ) : ℤ :=
  n.bmod (2 ^ 64)

/-- The value an `int` holds after `n` has been computed in it, in two's complement. -/
def wrapInt32 (n : ℤ) : ℤ :=
  n.bmod (2 ^ 32)

theorem toInt_of_le {n : ℕ} (hn : n ≤ intMax) : toInt n = n := by
  have hlt : n < 2 ^ 31 := by unfold intMax at hn; omega
  rw [toInt, BitVec.toInt_ofNat', Int.bmod_eq_of_le] <;> omega

theorem toInt_le_intMax (n : ℕ) : toInt n ≤ intMax := by
  have hlt := (BitVec.ofNat 32 n).toInt_lt
  simp only [toInt, intMax]
  omega

/-- A count that does not fit an `int` is not what the cast returns. -/
theorem toInt_eq_iff {n : ℕ} : toInt n = n ↔ n ≤ intMax := by
  refine ⟨fun h => ?_, toInt_of_le⟩
  have hle := toInt_le_intMax n
  rw [h] at hle
  exact_mod_cast hle

theorem wrap64_of_lt {n : ℕ} (hn : n < 2 ^ 64) : wrap64 n = n :=
  Nat.mod_eq_of_lt hn

theorem sub64_of_le {a b : ℕ} (ha : a < 2 ^ 64) (hb : b ≤ a) : sub64 a b = a - b := by
  unfold sub64 wrap64
  omega

theorem wrapInt32_of_lt {n : ℤ} (hlow : -2 ^ 31 ≤ n) (hhigh : n < 2 ^ 31) : wrapInt32 n = n := by
  rw [wrapInt32, Int.bmod_eq_of_le] <;> omega

theorem wrapInt64_of_lt {n : ℤ} (hlow : -2 ^ 63 ≤ n) (hhigh : n < 2 ^ 63) : wrapInt64 n = n := by
  rw [wrapInt64, Int.bmod_eq_of_le] <;> omega

end LgxRuntime
