import Mathlib.Algebra.Order.Ring.Nat
import Mathlib.Tactic.Common

/-!
# The smallest power-of-two block that fits

Size classes, orders and levels are all found by the same loop: starting from a smallest block, double
the block until the request fits or the largest level is reached.  The loop clamps: a request larger
than the largest block gets the largest level.
-/

/-- The doubling loop: `blockSize` is the size at `level`, and `top` the largest level. -/
def fitLevel (top size blockSize level : ℕ) : ℕ :=
  if blockSize < size ∧ level < top then fitLevel top size (blockSize <<< 1) (level + 1) else level
termination_by top - level

variable {top size unit level : ℕ}

theorem fitLevel_le (hlevel : level ≤ top) (blockSize : ℕ) :
    fitLevel top size blockSize level ≤ top := by
  fun_induction fitLevel top size blockSize level with
  | case1 blockSize level hcont ih => exact ih (by omega)
  | case2 blockSize level hstop => exact hlevel

theorem shiftLeft_one_mul_two_pow (unit level : ℕ) :
    (unit * 2 ^ level) <<< 1 = unit * 2 ^ (level + 1) := by
  rw [Nat.shiftLeft_eq, Nat.pow_one, Nat.mul_assoc, ← Nat.pow_succ]

/-- A request no larger than the largest block fits the level that the loop finds. -/
theorem le_fitLevel (hsize : size ≤ unit * 2 ^ top) :
    size ≤ unit * 2 ^ fitLevel top size (unit * 2 ^ level) level := by
  induction hgap : top - level generalizing level with
  | zero =>
      rw [fitLevel, if_neg (by omega)]
      exact Nat.le_trans hsize
        (Nat.mul_le_mul_left _ (Nat.pow_le_pow_right (by omega) (by omega)))
  | succ gap ih =>
      rw [fitLevel]
      split
      · rw [shiftLeft_one_mul_two_pow]
        exact ih (by omega)
      · omega

/-- The loop stops at the first level that fits. -/
theorem lt_of_lt_fitLevel {k : ℕ} (hle : level ≤ k)
    (hlt : k < fitLevel top size (unit * 2 ^ level) level) : unit * 2 ^ k < size := by
  induction hgap : top - level generalizing level with
  | zero =>
      rw [fitLevel, if_neg (by omega)] at hlt
      omega
  | succ gap ih =>
      rw [fitLevel] at hlt
      split at hlt
      · rename_i hcont
        rw [shiftLeft_one_mul_two_pow] at hlt
        rcases Nat.lt_or_eq_of_le hle with hlt' | rfl
        · exact ih hlt' hlt (by omega)
        · exact hcont.1
      · omega

/-- A request larger than the largest block is clamped to the largest level. -/
theorem fitLevel_eq_top (hlevel : level ≤ top) (hsize : unit * 2 ^ top < size) :
    fitLevel top size (unit * 2 ^ level) level = top := by
  induction hgap : top - level generalizing level with
  | zero =>
      rw [fitLevel, if_neg (by omega)]
      omega
  | succ gap ih =>
      have hmono : unit * 2 ^ level ≤ unit * 2 ^ top :=
        Nat.mul_le_mul_left _ (Nat.pow_le_pow_right (by omega) hlevel)
      rw [fitLevel, if_pos ⟨by omega, by omega⟩, shiftLeft_one_mul_two_pow]
      exact ih (by omega) (by omega)
