import Mathlib.Algebra.Order.Ring.Nat
import Mathlib.Tactic.Common

/-!
# Blocked loops

The code of a function, as far as its loops go: it goes on with a state, it has returned a result, or it is
stuck, because it reads what it may not read or because a loop has not ended after as many rounds as it was
given.

A plain loop visits the indices below `count` one by one.  A blocked loop takes `k` of them at a time, as long
as there are `k` left, and leaves the rest to a plain loop.  Both do the same if a block does what the plain
loop does at its `k` indices, one after the other.
-/

namespace BlockedLoop

variable {ρ σ : Type}

/-- Code of a function with results in `ρ`. -/
abbrev Code (ρ : Type) : Type → Type :=
  ExceptT ρ Option

/-- Return from the function. -/
def Code.ret (r : ρ) : Code ρ σ :=
  throw r

/-- The code cannot go on. -/
def Code.stuck : Code ρ σ :=
  ExceptT.mk none

/-- What the function returns; the value at the end of its code is returned as well. -/
def Code.result (code : Code ρ ρ) : Option ρ :=
  match code.run with
  | none => none
  | some (.error r) => some r
  | some (.ok r) => some r

/-- `for (; cond(i); i += stride) body(i)`, for at most `fuel` rounds; `i` is kept. -/
def loop (cond : ℕ → Prop) [DecidablePred cond] (stride : ℕ) (body : ℕ → σ → Code ρ σ) :
    ℕ → ℕ → σ → Code ρ (ℕ × σ)
  | 0, _, _ => .stuck
  | fuel + 1, i, s =>
      if cond i then do
        let s' ← body i s
        loop cond stride body fuel (i + stride) s'
      else pure (i, s)

/-- The body at `n` indices from `i` on. -/
def each (body : ℕ → σ → Code ρ σ) : ℕ → ℕ → σ → Code ρ σ
  | 0, _, s => pure s
  | n + 1, i, s => do
      let s' ← body i s
      each body n (i + 1) s'

/-- The plain loop, and the state at its end. -/
def plain (slot : ℕ → σ → Code ρ σ) (count : ℕ) (s : σ) : Code ρ σ := do
  let (_, s) ← loop (fun i => i < count) 1 slot (count + 1) 0 s
  pure s

/-- The blocked loop, which goes on with a plain one. -/
def blocked (k : ℕ) (block slot : ℕ → σ → Code ρ σ) (count : ℕ) (s : σ) : Code ρ σ := do
  let (i, s) ← loop (fun i => i + (k - 1) < count) k block (count + 1) 0 s
  let (_, s) ← loop (fun i => i < count) 1 slot (count + 1) i s
  pure s

/-! ## Indices one by one -/

variable {body : ℕ → σ → Code ρ σ}

theorem each_add (m n i : ℕ) (s : σ) :
    each body (m + n) i s = each body m i s >>= each body n (i + m) := by
  induction m generalizing i s with
  | zero => rw [Nat.zero_add, Nat.add_zero, each, pure_bind]
  | succ m ih =>
      have hcongr : ∀ s', each body (m + n) (i + 1) s' =
          each body m (i + 1) s' >>= each body n (i + (m + 1)) := by
        intro s'
        rw [ih, Nat.add_assoc, Nat.add_comm 1 m]
      rw [Nat.succ_add, each, each, bind_assoc]
      exact bind_congr hcongr

theorem each_one (i : ℕ) (s : σ) : each body 1 i s = body i s :=
  bind_pure (body i s)

/-- Indices may be counted from another start. -/
theorem each_shift (i n j : ℕ) (s : σ) :
    each (fun j => body (i + j)) n j s = each body n (i + j) s := by
  induction n generalizing j s with
  | zero => rfl
  | succ n ih =>
      rw [each, each]
      exact bind_congr fun s' => ih (j + 1) s'

/-! ## Loops -/

variable {cond : ℕ → Prop} [DecidablePred cond] {k count : ℕ} {block : ℕ → σ → Code ρ σ}

/-- A loop in blocks of `k` visits all indices up to the last multiple of `k`. -/
theorem loop_eq_each (hk : 0 < k) (hcond : ∀ i, cond i ↔ i + k ≤ count)
    (hblock : ∀ i s, i + k ≤ count → block i s = each body k i s) {fuel i : ℕ} (hi : i ≤ count)
    (hfuel : count - i < fuel) (s : σ) :
    loop cond k block fuel i s =
      each body ((count - i) / k * k) i s >>= fun s' => pure (i + (count - i) / k * k, s') := by
  induction fuel generalizing i s with
  | zero => omega
  | succ fuel ih =>
      by_cases hmore : i + k ≤ count
      · -- one block, and the blocks after it
        have hdiv : (count - i) / k = (count - (i + k)) / k + 1 := by
          have hsplit : count - i = count - (i + k) + k := by omega
          rw [hsplit, Nat.add_div_right _ hk]
        have hlen : (count - i) / k * k = k + (count - (i + k)) / k * k := by
          rw [hdiv, Nat.succ_mul, Nat.add_comm]
        have hrest : ∀ s', loop cond k block fuel (i + k) s' =
            each body ((count - (i + k)) / k * k) (i + k) s' >>=
              fun s'' => pure (i + (k + (count - (i + k)) / k * k), s'') := by
          intro s'
          rw [ih hmore (by omega), Nat.add_assoc]
        rw [loop, if_pos ((hcond i).mpr hmore), hlen, each_add, bind_assoc, hblock i s hmore]
        exact bind_congr hrest
      · have hdiv : (count - i) / k = 0 := Nat.div_eq_of_lt (by omega)
        rw [loop, if_neg (mt (hcond i).mp hmore), hdiv, Nat.zero_mul, each, pure_bind, Nat.add_zero]

/-- A loop over single indices visits all of them. -/
theorem loop_one_eq_each (hcond : ∀ i, cond i ↔ i < count) {fuel i : ℕ} (hi : i ≤ count)
    (hfuel : count - i < fuel) (s : σ) :
    loop cond 1 body fuel i s = each body (count - i) i s >>= fun s' => pure (count, s') := by
  have heq := @loop_eq_each ρ σ body cond _ 1 count body Nat.one_pos hcond
    (fun i s _ => (each_one i s).symm) fuel i hi hfuel s
  rw [Nat.div_one, Nat.mul_one] at heq
  rw [heq, Nat.add_sub_cancel' hi]

theorem plain_eq_each (s : σ) : plain body count s = each body count 0 s := by
  rw [plain, loop_one_eq_each (fun _ => Iff.rfl) (Nat.zero_le _) (by omega), Nat.sub_zero, bind_assoc]
  simp only [pure_bind, bind_pure]

/-- Blocks do not matter if each does what the plain loop does at its indices. -/
theorem blocked_eq_plain (hk : 0 < k) (hblock : ∀ i s, i + k ≤ count → block i s = each body k i s)
    (s : σ) : blocked k block body count s = plain body count s := by
  have hcond : ∀ i, i + (k - 1) < count ↔ i + k ≤ count := by
    intro i
    omega
  have hle : count / k * k ≤ count := Nat.div_mul_le_self count k
  -- the plain loop goes on where the blocks have ended
  have hrest : ∀ s', loop (fun i => i < count) 1 body (count + 1) (count / k * k) s' =
      each body (count - count / k * k) (count / k * k) s' >>= fun s'' => pure (count, s'') :=
    fun s' => loop_one_eq_each (fun _ => Iff.rfl) hle (by omega) s'
  rw [plain_eq_each, blocked, loop_eq_each hk hcond hblock (Nat.zero_le _) (by omega), Nat.sub_zero,
    bind_assoc]
  simp only [pure_bind, Nat.zero_add, hrest, bind_assoc, bind_pure]
  calc each body (count / k * k) 0 s >>= each body (count - count / k * k) (count / k * k)
      = each body (count / k * k + (count - count / k * k)) 0 s := by rw [each_add, Nat.zero_add]
    _ = each body count 0 s := by rw [Nat.add_sub_cancel' hle]

end BlockedLoop
