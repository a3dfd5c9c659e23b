import LgxRuntime.Platform.Services
import Mathlib.Data.List.Pairwise
import Mathlib.Tactic.Ring

/-!
# The rate limit of the log

A call of `check_rate_limit` adds the whole tokens that are due since the last refill, caps the bucket, and
takes a token.  The time that it read becomes the time of the last refill only if a token was due.

No schedule of calls is granted more than the tokens at the start and those of the time that has passed.  A
refill does drop the fraction of a token that was due beyond the whole ones, so that the calls may get less.
-/

namespace LgxRuntime.Platform.LogRateLimit

/-- Calls at the times that the clock shows: what they return, and the state afterwards. -/
def checkAll (services : Services) : List ℕ → List Bool × Services
  | [] => ([], services)
  | now :: times =>
      let (allowed, checked) := checkRateLimit services now
      let (rest, last) := checkAll checked times
      (allowed :: rest, last)

/-- The tokens that the calls add. -/
def tokensAdded (services : Services) : List ℕ → ℕ
  | [] => 0
  | now :: times => tokensToAdd services now + tokensAdded (checkRateLimit services now).2 times

/-- The clock does not go back, and shows times of 64 bits. -/
structure Clocked (services : Services) (times : List ℕ) : Prop where
  mono : (services.rateLimitLastRefill :: times).Pairwise (· ≤ ·)
  lt : ∀ now ∈ times, now < 2 ^ 64

/-- No refill reaches the cap, and no product wraps. -/
def Unhindered (services : Services) : List ℕ → Prop
  | [] => True
  | now :: times =>
      (now - services.rateLimitLastRefill) * services.rateLimitRefillRate < 2 ^ 64 ∧
        services.rateLimitTokens + tokensToAdd services now ≤ services.rateLimitMaxTokens ∧
          Unhindered (checkRateLimit services now).2 times

/-- The fractions of a token, in units of the window, that are due at a rate beyond the whole tokens.  They
are read off at each time by which a whole token is due since the last of these times. -/
def fractions (rate : ℕ) : ℕ → List ℕ → ℕ
  | _, [] => 0
  | last, now :: times =>
      if (now - last) * rate ≥ logRateWindowNs then
        (now - last) * rate % logRateWindowNs + fractions rate now times
      else fractions rate last times

/-! ## One call -/

section

variable {services : Services} {now : ℕ} {times : List ℕ}

/-- What a refill does: nothing, if no token is due. -/
structure Refilled (services : Services) (now : ℕ) (refilled : Services) : Prop where
  enabled : refilled.rateLimitingEnabled = services.rateLimitingEnabled
  maxTokens : refilled.rateLimitMaxTokens = services.rateLimitMaxTokens
  rate : refilled.rateLimitRefillRate = services.rateLimitRefillRate
  last : refilled.rateLimitLastRefill =
    if tokensToAdd services now = 0 then services.rateLimitLastRefill else now
  tokens_le : refilled.rateLimitTokens ≤ services.rateLimitTokens + tokensToAdd services now
  capped : refilled.rateLimitTokens ≤ max services.rateLimitTokens services.rateLimitMaxTokens

theorem refill_refilled : Refilled services now (refill services now) := by
  by_cases hadd : tokensToAdd services now = 0
  · have hsame : refill services now = services := if_neg fun h => h.2.ne' hadd
    rw [hsame]
    exact ⟨rfl, rfl, rfl, (if_pos hadd).symm, Nat.le_add_right .., le_max_left ..⟩
  · have helapsed : sub64 now services.rateLimitLastRefill > 0 := by
      refine Nat.pos_of_ne_zero fun hzero => hadd ?_
      rw [tokensToAdd, hzero, Nat.zero_mul]
      rfl
    have hwrap : wrap64 (services.rateLimitTokens + tokensToAdd services now) ≤
        services.rateLimitTokens + tokensToAdd services now := Nat.mod_le ..
    rw [refill, if_pos ⟨helapsed, Nat.pos_of_ne_zero hadd⟩]
    refine ⟨rfl, rfl, rfl, (if_neg hadd).symm, ?_, le_max_of_le_right ?_⟩ <;> dsimp only <;> split <;> omega

/-- A call refills the bucket, and takes a token if there is one. -/
theorem checkRateLimit_cases (henabled : services.rateLimitingEnabled = true) :
    (0 < (refill services now).rateLimitTokens ∧ checkRateLimit services now =
      (true, { refill services now with
        rateLimitTokens := (refill services now).rateLimitTokens - 1 })) ∨
    ((refill services now).rateLimitTokens = 0 ∧ checkRateLimit services now =
      (false, { refill services now with
        rateLimitDropped := wrap64 ((refill services now).rateLimitDropped + 1) })) := by
  rw [checkRateLimit, henabled]
  by_cases htoken : (refill services now).rateLimitTokens > 0
  · exact Or.inl ⟨htoken, if_pos htoken⟩
  · exact Or.inr ⟨Nat.eq_zero_of_not_pos htoken, if_neg htoken⟩

/-- What a call does: a token is taken if it is allowed. -/
structure Checked (services : Services) (now : ℕ) (checked : Bool × Services) : Prop where
  enabled : checked.2.rateLimitingEnabled = true
  maxTokens : checked.2.rateLimitMaxTokens = services.rateLimitMaxTokens
  rate : checked.2.rateLimitRefillRate = services.rateLimitRefillRate
  last : checked.2.rateLimitLastRefill =
    if tokensToAdd services now = 0 then services.rateLimitLastRefill else now
  tokens_le : checked.2.rateLimitTokens + checked.1.toNat ≤
    services.rateLimitTokens + tokensToAdd services now
  capped : checked.2.rateLimitTokens ≤ max services.rateLimitTokens services.rateLimitMaxTokens

theorem checkRateLimit_checked (henabled : services.rateLimitingEnabled = true) :
    Checked services now (checkRateLimit services now) := by
  have h := @refill_refilled services now
  rcases @checkRateLimit_cases services now henabled with ⟨htoken, heq⟩ | ⟨htoken, heq⟩ <;> rw [heq]
  · refine ⟨h.enabled.trans henabled, h.maxTokens, h.rate, h.last, ?_, (Nat.sub_le ..).trans h.capped⟩
    rw [Bool.toNat_true, Nat.sub_add_cancel htoken]
    exact h.tokens_le
  · exact ⟨h.enabled.trans henabled, h.maxTokens, h.rate, h.last, h.tokens_le, h.capped⟩

/-- The calls that remain are made by the same clock. -/
theorem Clocked.tail (henabled : services.rateLimitingEnabled = true) (h : Clocked services (now :: times)) :
    Clocked (checkRateLimit services now).2 times := by
  obtain ⟨hlast, hrest⟩ := List.pairwise_cons.mp h.mono
  refine ⟨List.pairwise_cons.mpr ⟨fun time htime => ?_, hrest.of_cons⟩, fun time htime => h.lt _ ?_⟩
  · rw [(checkRateLimit_checked henabled).last]
    split
    · exact hlast _ (List.mem_cons_of_mem _ htime)
    · exact (List.pairwise_cons.mp hrest).1 _ htime
  · exact List.mem_cons_of_mem _ htime

theorem Clocked.head_le (h : Clocked services (now :: times)) : services.rateLimitLastRefill ≤ now :=
  (List.pairwise_cons.mp h.mono).1 _ List.mem_cons_self

theorem Clocked.tokensToAdd_eq (h : Clocked services (now :: times)) :
    tokensToAdd services now =
      wrap64 ((now - services.rateLimitLastRefill) * services.rateLimitRefillRate) / logRateWindowNs := by
  rw [tokensToAdd, sub64_of_le (h.lt now List.mem_cons_self) h.head_le]

end

/-! ## Upper bound -/

section

variable {services : Services} {now : ℕ} {times : List ℕ}

/-- Neither the rate nor the cap changes, and the tokens stay below the cap or those at the start. -/
theorem checkAll_tokens_le (henabled : services.rateLimitingEnabled = true) :
    (checkAll services times).2.rateLimitTokens ≤
      max services.rateLimitTokens services.rateLimitMaxTokens := by
  induction times generalizing services with
  | nil => exact le_max_left ..
  | cons now times ih =>
      have h := @checkRateLimit_checked services now henabled
      refine (ih h.enabled).trans ?_
      rw [h.maxTokens]
      exact max_le h.capped (le_max_right ..)

/-- A product that wraps only adds fewer tokens. -/
theorem Clocked.tokensToAdd_le (h : Clocked services (now :: times)) :
    tokensToAdd services now ≤
      (now - services.rateLimitLastRefill) * services.rateLimitRefillRate / logRateWindowNs := by
  rw [h.tokensToAdd_eq]
  exact Nat.div_le_div_right (Nat.mod_le ..)

theorem count_checkAll_cons :
    (checkAll services (now :: times)).1.count true =
      (checkRateLimit services now).1.toNat +
        (checkAll (checkRateLimit services now).2 times).1.count true := by
  cases hcheck : checkRateLimit services now with
  | mk allowed checked =>
      rw [checkAll, hcheck]
      cases allowed with
      | false => exact (List.count_cons_of_ne (by decide)).trans (Nat.zero_add _).symm
      | true => exact List.count_cons_self.trans (Nat.add_comm ..)

theorem due_split {rate a b c : ℕ} (hab : a ≤ b) (hbc : b ≤ c) :
    (c - a) * rate = (b - a) * rate + (c - b) * rate := by
  rw [← Nat.add_mul]
  congr 1
  omega

/-- The calls that are allowed are paid by the tokens at the start and those of the time that has passed. -/
theorem checkAll_allowed_le (henabled : services.rateLimitingEnabled = true) (hclock : Clocked services times)
    (hnow : ∀ time ∈ times, time ≤ now) :
    (checkAll services times).1.count true ≤ services.rateLimitTokens +
      services.rateLimitRefillRate * (now - services.rateLimitLastRefill) / logRateWindowNs := by
  rw [Nat.mul_comm]
  induction times generalizing services with
  | nil => exact Nat.zero_le _
  | cons time times ih =>
      have h := @checkRateLimit_checked services time henabled
      have hrest := ih h.enabled (hclock.tail henabled) fun t ht => hnow t (List.mem_cons_of_mem _ ht)
      have hpaid := h.tokens_le
      rw [count_checkAll_cons]
      rw [h.rate, h.last] at hrest
      by_cases hadd : tokensToAdd services time = 0
      · rw [if_pos hadd] at hrest
        omega
      · rw [if_neg hadd] at hrest
        -- what is due in two stretches of time is due in both together
        have hdue : (time - services.rateLimitLastRefill) * services.rateLimitRefillRate / logRateWindowNs +
            (now - time) * services.rateLimitRefillRate / logRateWindowNs ≤
              (now - services.rateLimitLastRefill) * services.rateLimitRefillRate / logRateWindowNs := by
          rw [due_split hclock.head_le (hnow time List.mem_cons_self)]
          exact Nat.div_add_div_le_add_div
        have hle := hclock.tokensToAdd_le
        omega

/-- The bounds on the bucket and on the calls that are allowed. -/
theorem checkAll_bounded (henabled : services.rateLimitingEnabled = true) (hclock : Clocked services times)
    (hnow : ∀ time ∈ times, time ≤ now) :
    (checkAll services times).2.rateLimitTokens ≤
        max services.rateLimitTokens services.rateLimitMaxTokens ∧
      (checkAll services times).1.count true ≤ services.rateLimitTokens +
        services.rateLimitRefillRate * (now - services.rateLimitLastRefill) / logRateWindowNs :=
  ⟨checkAll_tokens_le henabled, checkAll_allowed_le henabled hclock hnow⟩

end

/-- A bucket of ten tokens, after the limit was set to 10 and back to 1000 messages for each second. -/
def lowered : Services :=
  setLogRateLimit (setLogRateLimit (servicesInit [] 0 fun _ => none).1 10) 1000

theorem checkAll_bounded_lowered :
    (checkAll lowered [1500000, 3000000]).2.rateLimitTokens ≤ max 10 1000 ∧
      (checkAll lowered [1500000, 3000000]).1.count true ≤ 10 + 1000 * (3000000 - 0) / logRateWindowNs :=
  checkAll_bounded rfl ⟨by decide, by decide⟩ (by decide)

/-! ## Lost fractions -/

section

variable {services : Services} {now : ℕ} {times : List ℕ}

theorem Clocked.last_le (henabled : services.rateLimitingEnabled = true) (hclock : Clocked services times) :
    services.rateLimitLastRefill ≤ (checkAll services times).2.rateLimitLastRefill := by
  induction times generalizing services with
  | nil => exact le_refl _
  | cons now times ih =>
      have h := @checkRateLimit_checked services now henabled
      have hhead : services.rateLimitLastRefill ≤ (checkRateLimit services now).2.rateLimitLastRefill := by
        rw [h.last]
        split
        · exact le_refl _
        · exact hclock.head_le
      exact hhead.trans (ih h.enabled (hclock.tail henabled))

/-- The tokens that are added and the fractions that are dropped are what is due at the last refill. -/
theorem tokensAdded_add_fractions (henabled : services.rateLimitingEnabled = true)
    (hclock : Clocked services times) (hfree : Unhindered services times) :
    tokensAdded services times * logRateWindowNs +
        fractions services.rateLimitRefillRate services.rateLimitLastRefill times =
      services.rateLimitRefillRate *
        ((checkAll services times).2.rateLimitLastRefill - services.rateLimitLastRefill) := by
  induction times generalizing services with
  | nil => rw [tokensAdded, fractions, checkAll, Nat.zero_mul, Nat.sub_self, Nat.mul_zero]
  | cons now times ih =>
      have h := @checkRateLimit_checked services now henabled
      have htail := hclock.tail henabled
      have hrest := ih h.enabled htail hfree.2.2
      have hfinal := htail.last_le h.enabled
      have hadd : tokensToAdd services now =
          (now - services.rateLimitLastRefill) * services.rateLimitRefillRate / logRateWindowNs := by
        rw [hclock.tokensToAdd_eq, wrap64_of_lt hfree.1]
      have hwindow : 0 < logRateWindowNs := by decide
      have hlast : (checkAll services (now :: times)).2 = (checkAll (checkRateLimit services now).2 times).2 :=
        rfl
      rw [h.rate] at hrest
      rw [h.last] at hrest hfinal
      rw [tokensAdded, fractions, hlast]
      by_cases hdue : (now - services.rateLimitLastRefill) * services.rateLimitRefillRate ≥ logRateWindowNs
      · -- what is due up to this time is the whole tokens and the fraction
        have hpos : tokensToAdd services now ≠ 0 := by
          rw [hadd]
          exact (Nat.div_pos hdue hwindow).ne'
        have hsplit := Nat.div_add_mod
          ((now - services.rateLimitLastRefill) * services.rateLimitRefillRate) logRateWindowNs
        rw [if_neg hpos] at hrest hfinal
        rw [if_pos hdue]
        calc (tokensToAdd services now + tokensAdded (checkRateLimit services now).2 times) * logRateWindowNs +
              ((now - services.rateLimitLastRefill) * services.rateLimitRefillRate % logRateWindowNs +
                fractions services.rateLimitRefillRate now times)
            = (logRateWindowNs * tokensToAdd services now +
                (now - services.rateLimitLastRefill) * services.rateLimitRefillRate % logRateWindowNs) +
              (tokensAdded (checkRateLimit services now).2 times * logRateWindowNs +
                fractions services.rateLimitRefillRate now times) := by ring
          _ = (now - services.rateLimitLastRefill) * services.rateLimitRefillRate +
              services.rateLimitRefillRate *
                ((checkAll (checkRateLimit services now).2 times).2.rateLimitLastRefill - now) := by
              rw [hadd, hsplit, hrest]
          _ = services.rateLimitRefillRate *
                ((checkAll (checkRateLimit services now).2 times).2.rateLimitLastRefill -
                  services.rateLimitLastRefill) := by
              rw [Nat.mul_comm _ (_ - now), ← due_split hclock.head_le hfinal, Nat.mul_comm]
      · have hzero : tokensToAdd services now = 0 := by
          rw [hadd]
          exact Nat.div_eq_of_lt (not_le.mp hdue)
        rw [if_pos hzero] at hrest
        rw [if_neg hdue, hzero, Nat.zero_add]
        exact hrest

/-- The tokens that were added are the whole tokens that are due at the last refill if and only if the
fractions that were dropped do not make up a token. -/
theorem tokensAdded_eq_iff (henabled : services.rateLimitingEnabled = true)
    (hclock : Clocked services times) (hfree : Unhindered services times) :
    tokensAdded services times = services.rateLimitRefillRate *
        ((checkAll services times).2.rateLimitLastRefill - services.rateLimitLastRefill) / logRateWindowNs ↔
      fractions services.rateLimitRefillRate services.rateLimitLastRefill times < logRateWindowNs := by
  have hwindow : 0 < logRateWindowNs := by decide
  rw [← tokensAdded_add_fractions henabled hclock hfree, Nat.add_comm, Nat.add_mul_div_right _ _ hwindow,
    right_eq_add, Nat.div_eq_zero_iff_lt hwindow]

end

theorem unhindered_lowered : Unhindered lowered [1500000, 3000000] :=
  ⟨by decide, by decide, by decide, by decide, trivial⟩

theorem tokensAdded_eq_iff_lowered :
    tokensAdded lowered [1500000, 3000000] = 1000 *
        ((checkAll lowered [1500000, 3000000]).2.rateLimitLastRefill - 0) / logRateWindowNs ↔
      fractions 1000 0 [1500000, 3000000] < logRateWindowNs :=
  tokensAdded_eq_iff rfl ⟨by decide, by decide⟩ unhindered_lowered

/-- Two calls after 1.5 and 3 ms, at 1000 messages for each second: 2 tokens are added, and 3 are due. -/
theorem not_tokensAdded_eq :
    ¬ ∀ (services : Services) (times : List ℕ), services.rateLimitingEnabled = true →
      Clocked services times → Unhindered services times →
        tokensAdded services times = services.rateLimitRefillRate *
          ((checkAll services times).2.rateLimitLastRefill - services.rateLimitLastRefill) / logRateWindowNs := by
  intro hall
  have hadded := hall lowered [1500000, 3000000] rfl ⟨by decide, by decide⟩ unhindered_lowered
  exact absurd hadded (by decide)

end LgxRuntime.Platform.LogRateLimit
