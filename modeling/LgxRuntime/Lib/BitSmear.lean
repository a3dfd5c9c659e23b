import Mathlib.Data.Nat.Bitwise
import Mathlib.Tactic.Ring

/-!
# Filling the bits below the highest one

A number is combined with itself shifted by 1, then by 2, by 4 and so on.  After `k` rounds a bit is set
when one of the `2 ^ k` bits from it upwards was set, so that all bits below the highest one are.
-/

/-- `k` rounds of combining a number with itself shifted by a power of two. -/
def smear : ℕ → ℕ → ℕ
  | 0, n => n
  | k + 1, n => smear k n ||| smear k n >>> 2 ^ k

theorem testBit_smear (k n i : ℕ) :
    (smear k n).testBit i = true ↔ ∃ d < 2 ^ k, n.testBit (i + d) = true := by
  induction k generalizing i with
  | zero => simp [smear]
  | succ k ih =>
      simp only [smear, Nat.testBit_or, Nat.testBit_shiftRight, Bool.or_eq_true, ih]
      have hpow : 2 ^ (k + 1) = 2 ^ k + 2 ^ k := by ring
      constructor
      · rintro (⟨d, hd, hbit⟩ | ⟨d, hd, hbit⟩)
        · exact ⟨d, by omega, hbit⟩
        · refine ⟨2 ^ k + d, by omega, ?_⟩
          rwa [show i + (2 ^ k + d) = 2 ^ k + i + d by ring]
      · rintro ⟨d, hd, hbit⟩
        by_cases hlow : d < 2 ^ k
        · exact Or.inl ⟨d, hlow, hbit⟩
        · refine Or.inr ⟨d - 2 ^ k, by omega, ?_⟩
          rwa [show 2 ^ k + i + (d - 2 ^ k) = i + d by omega]

/-- All bits up to the highest one are set. -/
theorem smear_eq {k n : ℕ} (hpos : n ≠ 0) (hlt : n < 2 ^ 2 ^ k) : smear k n = 2 ^ (n.log2 + 1) - 1 := by
  refine Nat.eq_of_testBit_eq fun i => ?_
  rw [Nat.testBit_two_pow_sub_one, Bool.eq_iff_iff, testBit_smear, decide_eq_true_eq]
  constructor
  · rintro ⟨d, -, hbit⟩
    have hle := (Nat.le_log2 hpos).mpr (Nat.ge_two_pow_of_testBit hbit)
    omega
  · intro hi
    have hlog := (Nat.log2_lt hpos).mpr hlt
    refine ⟨n.log2 - i, by omega, ?_⟩
    rw [Nat.add_sub_cancel' (by omega)]
    exact Nat.testBit_log2 hpos
