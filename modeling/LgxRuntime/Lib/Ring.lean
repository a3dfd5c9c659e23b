import Mathlib.Algebra.Order.Ring.Nat
import Mathlib.Order.Bounds.Basic
import Mathlib.Tactic.Common

/-!
# Ring buffers

A ring of `capacity = 2 ^ k` slots is addressed by positions that only grow: position `i` is in slot
`i & (capacity - 1)`.  Positions less than `capacity` apart are in different slots.
-/

namespace Ring

/-! ## Capacities -/

/-- The loop `while (cap < capacity) cap <<= 1` on a `size_t`, for at most `fuel` rounds. -/
def roundLoop (capacity : ℕ) : ℕ → ℕ → Option ℕ
  | 0, _ => none
  | fuel + 1, cap =>
      if cap < capacity then roundLoop capacity fuel (cap * 2 % 2 ^ 64) else some cap

/-- A capacity, rounded up to a power of two; `none` if the loop does not end: after 64 rounds `cap`
is 0 and stays so. -/
def roundUp (capacity : ℕ) : Option ℕ :=
  roundLoop capacity 65 1

theorem roundLoop_zero {capacity : ℕ} (hpos : 0 < capacity) (fuel : ℕ) :
    roundLoop capacity fuel 0 = none := by
  induction fuel with
  | zero => rfl
  | succ fuel ih => rw [roundLoop, if_pos hpos, Nat.zero_mul, Nat.zero_mod, ih]

theorem double_mod {k : ℕ} (hk : k < 63) : 2 ^ k * 2 % 2 ^ 64 = 2 ^ (k + 1) := by
  rw [← pow_succ]
  exact Nat.mod_eq_of_lt (Nat.pow_lt_pow_right (by decide) (by omega))

theorem roundLoop_spec {capacity fuel k cap : ℕ} (hpos : 0 < capacity) (hk : k < 64)
    (h : roundLoop capacity fuel (2 ^ k) = some cap) :
    ∃ m < 64, cap = 2 ^ m ∧ capacity ≤ cap := by
  induction fuel generalizing k with
  | zero => cases h
  | succ fuel ih =>
      rw [roundLoop] at h
      split at h
      · by_cases hlast : k = 63
        · rw [hlast, ← pow_succ, Nat.mod_self, roundLoop_zero hpos] at h
          cases h
        · rw [double_mod (by omega)] at h
          exact ih (by omega) h
      · rename_i hge
        obtain rfl := Option.some.inj h
        exact ⟨k, hk, rfl, not_lt.mp hge⟩

/-- What the loop returns is a power of two that is large enough. -/
theorem roundUp_spec {capacity cap : ℕ} (hpos : 0 < capacity) (h : roundUp capacity = some cap) :
    ∃ m < 64, cap = 2 ^ m ∧ capacity ≤ cap :=
  @roundLoop_spec capacity 65 0 cap hpos (by decide) h

/-- The loop stops at the first power of two that is large enough. -/
theorem roundLoop_least {capacity fuel k : ℕ} (hcapacity : capacity ≤ 2 ^ 63) (hk : k ≤ 63)
    (hfuel : 64 ≤ k + fuel) :
    ∃ m, roundLoop capacity fuel (2 ^ k) = some (2 ^ m) ∧ capacity ≤ 2 ^ m ∧
      ∀ j, k ≤ j → capacity ≤ 2 ^ j → m ≤ j := by
  induction fuel generalizing k with
  | zero => omega
  | succ fuel ih =>
      by_cases hlt : 2 ^ k < capacity
      · have hne : k ≠ 63 := by
          rintro rfl
          omega
        obtain ⟨m, hloop, hle, hleast⟩ := @ih (k + 1) (by omega) (by omega)
        refine ⟨m, ?_, hle, fun j hj hcap => hleast j ?_ hcap⟩
        · rw [roundLoop, if_pos hlt, double_mod (by omega), hloop]
        · refine lt_of_le_of_ne hj ?_
          rintro rfl
          exact absurd hcap (not_le.mpr hlt)
      · refine ⟨k, ?_, not_lt.mp hlt, fun j hj _ => hj⟩
        rw [roundLoop, if_neg hlt]

theorem roundUp_isLeast {capacity : ℕ} (hcapacity : capacity ≤ 2 ^ 63) :
    ∃ m, roundUp capacity = some (2 ^ m) ∧ IsLeast {c | capacity ≤ c ∧ ∃ k, c = 2 ^ k} (2 ^ m) := by
  obtain ⟨m, hloop, hle, hleast⟩ :=
    @roundLoop_least capacity 65 0 hcapacity (Nat.zero_le _) (by decide)
  refine ⟨m, hloop, ⟨hle, m, rfl⟩, ?_⟩
  rintro _ ⟨hcap, k, rfl⟩
  exact Nat.pow_le_pow_right (by decide) (hleast k (Nat.zero_le k) hcap)

/-- The loop ends for every capacity that a power of two can reach. -/
theorem roundUp_isSome {capacity : ℕ} (hcapacity : capacity ≤ 2 ^ 63) : (roundUp capacity).isSome := by
  obtain ⟨m, hm, -⟩ := roundUp_isLeast hcapacity
  rw [hm]
  rfl

/-- The loop does not end if no power of two of 64 bits is large enough. -/
theorem roundLoop_eq_none {capacity k : ℕ} (hcapacity : 2 ^ 63 < capacity) (hk : k ≤ 63) (fuel : ℕ) :
    roundLoop capacity fuel (2 ^ k) = none := by
  induction fuel generalizing k with
  | zero => rfl
  | succ fuel ih =>
      have hle : 2 ^ k ≤ 2 ^ 63 := Nat.pow_le_pow_right (by decide) hk
      rw [roundLoop, if_pos (hle.trans_lt hcapacity)]
      by_cases hlast : k = 63
      · rw [hlast, ← pow_succ, Nat.mod_self]
        exact roundLoop_zero (by omega) fuel
      · rw [double_mod (by omega)]
        exact ih (by omega)

/-- The bound on the rounds does not decide whether the loop ends. -/
theorem roundUp_eq_none_iff {capacity : ℕ} :
    roundUp capacity = none ↔ ∀ fuel, roundLoop capacity fuel 1 = none := by
  refine ⟨fun h fuel => ?_, fun h => h 65⟩
  have hlt : 2 ^ 63 < capacity := by
    by_contra hle
    have hsome := roundUp_isSome (not_lt.mp hle)
    rw [h] at hsome
    cases hsome
  exact @roundLoop_eq_none capacity 0 hlt (Nat.zero_le _) fuel

/-! ## Slots -/

/-- The slot of a position: `i & (capacity - 1)`. -/
def slot (capacity i : ℕ) : ℕ :=
  i &&& (capacity - 1)

theorem slot_two_pow (k i : ℕ) : slot (2 ^ k) i = i % 2 ^ k :=
  Nat.and_two_pow_sub_one_eq_mod i k

/-- Two positions of one lap are in different slots. -/
theorem slot_ne {k i j : ℕ} (hij : i < j) (hj : j < i + 2 ^ k) :
    slot (2 ^ k) i ≠ slot (2 ^ k) j := by
  intro heq
  rw [slot_two_pow, slot_two_pow] at heq
  have hmod : (j - i) % 2 ^ k = 0 := Nat.sub_mod_eq_zero_of_mod_eq heq.symm
  have hdvd := Nat.le_of_dvd (by omega) (Nat.dvd_of_mod_eq_zero hmod)
  omega

/-- A lap later, a position is in the same slot. -/
theorem slot_add (k i : ℕ) : slot (2 ^ k) (i + 2 ^ k) = slot (2 ^ k) i := by
  rw [slot_two_pow, slot_two_pow, Nat.add_mod_right]

/-! ## Elements -/

/-- An element of `n` bytes. -/
abbrev Element (n : ℕ) : Type := Fin n → UInt8

/-- `memcpy`, one byte at a time: byte `k`. -/
def copyByte {n : ℕ} (k : ℕ) (src dst : Element n) : Element n :=
  fun j => if j.val = k then src j else dst j

/-- The first `k` bytes have been copied. -/
def Copied {n : ℕ} (k : ℕ) (src dst : Element n) : Prop :=
  ∀ j : Fin n, j.val < k → dst j = src j

theorem Copied.zero {n : ℕ} (src dst : Element n) : Copied 0 src dst :=
  fun j hj => absurd hj (Nat.not_lt_zero j)

theorem Copied.copyByte {n k : ℕ} {src dst : Element n} (h : Copied k src dst) :
    Copied (k + 1) src (copyByte k src dst) := by
  intro j hj
  unfold Ring.copyByte
  split
  · rfl
  · exact h j (by omega)

theorem Copied.eq {n k : ℕ} {src dst : Element n} (h : Copied k src dst) (hk : n ≤ k) : dst = src :=
  funext fun j => h j (j.isLt.trans_le hk)

/-! ## What was put in -/

/-- An element that was put in was put in before, or is the last one. -/
theorem getElem?_concat_cases {α : Type*} {elements : List α} {last element : α} {i : ℕ}
    (h : (elements ++ [last])[i]? = some element) :
    elements[i]? = some element ∨ (i = elements.length ∧ element = last) := by
  rcases Nat.lt_or_ge i elements.length with hlt | hge
  · rw [List.getElem?_append_left hlt] at h
    exact Or.inl h
  · have hlast := (List.getElem?_eq_some_iff.mp h).1
    rw [List.length_append, List.length_singleton] at hlast
    obtain rfl : i = elements.length := by omega
    rw [List.getElem?_concat_length] at h
    exact Or.inr ⟨rfl, (Option.some.inj h).symm⟩

end Ring
