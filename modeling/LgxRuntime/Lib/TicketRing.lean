import LgxRuntime.Lib.Interleaving
import Mathlib.Algebra.Order.Ring.Nat
import Mathlib.Tactic.Common

/-!
# Rings with tickets

A ring of `cap` cells is used through two counters.  Who writes takes a position from `head` and then fills
its cell; who reads takes a position from `tail`, waits for its cell to be filled, and then empties it.  If
a position is taken from `head` only when its cell is vacant, no cell is ever in use for two positions.
-/

open Function (update update_self update_of_ne)
open Interleaving (update_cases unique_update)

variable {Agent Item : Type*}

/-- A position that is taken from `head` and not emptied: nobody has taken it from `tail`, or its reader
is not done. -/
def TicketRing.Open (head tail : ℕ) (reads : Agent → Option ℕ) (p : ℕ) : Prop :=
  (tail ≤ p ∧ p < head) ∨ ∃ t, reads t = some p

/-- The cell of a position is empty and nobody is about to fill, read or empty it. -/
structure TicketRing.Vacant (cap : ℕ) (cell : ℕ → Option Item) (writes reads : Agent → Option ℕ) (p : ℕ) :
    Prop where
  empty : cell (p % cap) = none
  writes : ∀ t q, writes t = some q → q % cap ≠ p % cap
  reads : ∀ t q, reads t = some q → q % cap ≠ p % cap

/-- The open positions are in different cells; each of them is filled, or about to be filled. -/
structure TicketRing (cap head tail : ℕ) (cell : ℕ → Option Item) (writes reads : Agent → Option ℕ) :
    Prop where
  tail_le : tail ≤ head
  reads_lt : ∀ t p, reads t = some p → p < tail
  reads_inj : ∀ t u p, reads t = some p → reads u = some p → t = u
  writes_open : ∀ t p, writes t = some p → p < head ∧ TicketRing.Open head tail reads p
  writes_inj : ∀ t u p, writes t = some p → writes u = some p → t = u
  unwritten : ∀ t p, writes t = some p → cell (p % cap) = none
  unclaimed : ∀ p, tail ≤ p → p < head → cell (p % cap) ≠ none ∨ ∃ t, writes t = some p
  filled : ∀ i item, cell i = some item → ∃ p, TicketRing.Open head tail reads p ∧ p % cap = i
  distinct : ∀ p q, TicketRing.Open head tail reads p → TicketRing.Open head tail reads q →
    p % cap = q % cap → p = q

namespace TicketRing

variable {cap head tail : ℕ} {cell : ℕ → Option Item} {writes reads : Agent → Option ℕ} {t : Agent}

theorem init (cap : ℕ) : TicketRing cap 0 0 (fun _ => (none : Option Item)) (fun _ : Agent => none)
    fun _ => none := by
  refine ⟨le_rfl, ?_, ?_, ?_, ?_, ?_, ?_, ?_, ?_⟩
  · intro t p ht
    cases ht
  · intro t u p ht
    cases ht
  · intro t p ht
    cases ht
  · intro t u p ht
    cases ht
  · intro t p ht
    cases ht
  · intro p _ hp
    exact absurd hp (Nat.not_lt_zero p)
  · intro i item hi
    cases hi
  · intro p q hp
    rcases hp with ⟨-, hp⟩ | ⟨t, ht⟩
    · exact absurd hp (Nat.not_lt_zero p)
    · cases ht

/-- Two agents do not write to one cell. -/
theorem writes_unique (h : TicketRing cap head tail cell writes reads) {u : Agent} {p q : ℕ}
    (ht : writes t = some p) (hu : writes u = some q) (hpq : p % cap = q % cap) : t = u := by
  obtain rfl := h.distinct p q (h.writes_open t p ht).2 (h.writes_open u q hu).2 hpq
  exact h.writes_inj t u p ht hu

/-- Two agents do not read from one cell. -/
theorem reads_unique (h : TicketRing cap head tail cell writes reads) {u : Agent} {p q : ℕ}
    (ht : reads t = some p) (hu : reads u = some q) (hpq : p % cap = q % cap) : t = u := by
  obtain rfl := h.distinct p q (Or.inr ⟨t, ht⟩) (Or.inr ⟨u, hu⟩) hpq
  exact h.reads_inj t u p ht hu

/-- Everything has been taken, and nobody is about to read: the ring is empty. -/
theorem cell_eq_none (h : TicketRing cap head tail cell writes reads) (hempty : tail = head)
    (hreads : ∀ t, reads t = none) (i : ℕ) : cell i = none := by
  cases hcell : cell i with
  | none => rfl
  | some item =>
      obtain ⟨p, hopen, -⟩ := h.filled i item hcell
      rcases hopen with ⟨hle, hlt⟩ | ⟨t, ht⟩
      · omega
      · rw [hreads t] at ht
        cases ht

section

variable [DecidableEq Agent]

/-- A writer takes a position whose cell is vacant. -/
theorem reserve (h : TicketRing cap head tail cell writes reads) (hidle : writes t = none)
    (hvacant : Vacant cap cell writes reads head) :
    TicketRing cap (head + 1) tail cell (update writes t (some head)) reads := by
  have hopen : ∀ p, Open (head + 1) tail reads p ↔ Open head tail reads p ∨ p = head := by
    intro p
    have hle := h.tail_le
    unfold Open
    constructor
    · rintro (⟨hp, hp'⟩ | hp)
      · rcases Nat.lt_succ_iff_lt_or_eq.mp hp' with hlt | heq
        · exact Or.inl (Or.inl ⟨hp, hlt⟩)
        · exact Or.inr heq
      · exact Or.inl (Or.inr hp)
    · rintro ((⟨hp, hp'⟩ | hp) | rfl)
      · exact Or.inl ⟨hp, by omega⟩
      · exact Or.inr hp
      · exact Or.inl ⟨hle, by omega⟩
  -- an open position in the cell of `head` is filled, or has a writer or a reader
  have hnew : ∀ q, Open head tail reads q → q % cap ≠ head % cap := by
    intro q hq heq
    rcases hq with ⟨hle, hlt⟩ | ⟨u, hu⟩
    · rcases h.unclaimed q hle hlt with hcell | ⟨u, hu⟩
      · rw [heq] at hcell
        exact hcell hvacant.empty
      · exact hvacant.writes u q hu heq
    · exact hvacant.reads u q hu heq
  refine ⟨by have := h.tail_le; omega, h.reads_lt, h.reads_inj, fun u p hu => ?_,
    unique_update h.writes_inj fun p hp u _ hu => ?_, fun u p hu => ?_, fun p hle hlt => ?_,
    fun i item hi => ?_, fun p q hp hq heq => ?_⟩
  · rcases update_cases hu with ⟨-, hp⟩ | ⟨-, hu⟩
    · obtain rfl := Option.some.inj hp
      exact ⟨Nat.lt_succ_self _, (hopen _).mpr (Or.inr rfl)⟩
    · obtain ⟨hlt, ho⟩ := h.writes_open u p hu
      exact ⟨by omega, (hopen p).mpr (Or.inl ho)⟩
  · obtain rfl := Option.some.inj hp
    exact lt_irrefl _ (h.writes_open u _ hu).1
  · rcases update_cases hu with ⟨-, hp⟩ | ⟨-, hu⟩
    · rw [← Option.some.inj hp]
      exact hvacant.empty
    · exact h.unwritten u p hu
  · rcases Nat.lt_succ_iff_lt_or_eq.mp hlt with hlt | rfl
    · rcases h.unclaimed p hle hlt with hcell | ⟨u, hu⟩
      · exact Or.inl hcell
      · refine Or.inr ⟨u, ?_⟩
        rw [update_of_ne]
        · exact hu
        · rintro rfl
          rw [hidle] at hu
          cases hu
    · exact Or.inr ⟨t, update_self ..⟩
  · obtain ⟨p, ho, hp⟩ := h.filled i item hi
    exact ⟨p, (hopen p).mpr (Or.inl ho), hp⟩
  · rcases (hopen p).mp hp with hp | rfl
    · rcases (hopen q).mp hq with hq | rfl
      · exact h.distinct p q hp hq heq
      · exact absurd heq (hnew p hp)
    · rcases (hopen q).mp hq with hq | rfl
      · exact absurd heq.symm (hnew q hq)
      · rfl

/-- The writer fills its cell. -/
theorem fill (h : TicketRing cap head tail cell writes reads) {p : ℕ} (ht : writes t = some p)
    (item : Item) :
    TicketRing cap head tail (update cell (p % cap) (some item)) (update writes t none) reads := by
  have hwrites : ∀ u q, update writes t none u = some q → u ≠ t ∧ writes u = some q :=
    fun u q hu => (update_cases hu).resolve_left (by simp)
  refine ⟨h.tail_le, h.reads_lt, h.reads_inj, fun u q hu => h.writes_open u q (hwrites u q hu).2,
    unique_update h.writes_inj (fun q hq => nomatch hq), fun u q hu => ?_,
    fun q hle hlt => ?_, fun i item' hi => ?_, h.distinct⟩
  · obtain ⟨hne, hu⟩ := hwrites u q hu
    rw [update_of_ne]
    · exact h.unwritten u q hu
    · exact fun heq => hne (h.writes_unique hu ht heq)
  · by_cases hcell : q % cap = p % cap
    · rw [hcell, update_self]
      exact Or.inl (Option.some_ne_none item)
    · rw [update_of_ne hcell]
      rcases h.unclaimed q hle hlt with hfull | ⟨u, hu⟩
      · exact Or.inl hfull
      · refine Or.inr ⟨u, ?_⟩
        rw [update_of_ne]
        · exact hu
        · rintro rfl
          rw [ht] at hu
          exact hcell (congrArg (· % cap) (Option.some.inj hu).symm)
  · by_cases hcell : i = p % cap
    · exact ⟨p, (h.writes_open t p ht).2, hcell.symm⟩
    · rw [update_of_ne hcell] at hi
      exact h.filled i item' hi

/-- A reader takes a position. -/
theorem claim (h : TicketRing cap head tail cell writes reads) (hlt : tail < head)
    (hidle : reads t = none) :
    TicketRing cap head (tail + 1) cell writes (update reads t (some tail)) := by
  have hreads : ∀ u p, update reads t (some tail) u = some p ↔
      (u = t ∧ p = tail) ∨ reads u = some p := by
    intro u p
    by_cases hut : u = t
    · subst hut
      simp [hidle, eq_comm]
    · simp [hut]
  have hopen : ∀ p, Open head (tail + 1) (update reads t (some tail)) p ↔ Open head tail reads p := by
    intro p
    unfold Open
    constructor
    · rintro (⟨hp, hp'⟩ | ⟨u, hu⟩)
      · exact Or.inl ⟨by omega, hp'⟩
      · rcases (hreads u p).mp hu with ⟨-, rfl⟩ | hu
        · exact Or.inl ⟨le_rfl, hlt⟩
        · exact Or.inr ⟨u, hu⟩
    · rintro (⟨hp, hp'⟩ | ⟨u, hu⟩)
      · rcases Nat.lt_or_ge tail p with hgt | hge
        · exact Or.inl ⟨hgt, hp'⟩
        · exact Or.inr ⟨t, (hreads t p).mpr (Or.inl ⟨rfl, by omega⟩)⟩
      · exact Or.inr ⟨u, (hreads u p).mpr (Or.inr hu)⟩
  refine ⟨hlt, fun u p hu => ?_, unique_update h.reads_inj fun p hp u _ hu => ?_, fun u p hu => ?_,
    h.writes_inj, h.unwritten, fun p hle hp => h.unclaimed p (by omega) hp, fun i item hi => ?_,
    fun p q hp hq => ?_⟩
  · rcases (hreads u p).mp hu with ⟨-, rfl⟩ | hu
    · exact Nat.lt_succ_self _
    · have := h.reads_lt u p hu
      omega
  · obtain rfl := Option.some.inj hp
    exact lt_irrefl _ (h.reads_lt u _ hu)
  · obtain ⟨hp, ho⟩ := h.writes_open u p hu
    exact ⟨hp, (hopen p).mpr ho⟩
  · obtain ⟨p, ho, hp⟩ := h.filled i item hi
    exact ⟨p, (hopen p).mpr ho, hp⟩
  · exact h.distinct p q ((hopen p).mp hp) ((hopen q).mp hq)

/-- The reader empties its cell. -/
theorem empty (h : TicketRing cap head tail cell writes reads) {p : ℕ} (ht : reads t = some p)
    (hfull : cell (p % cap) ≠ none) :
    TicketRing cap head tail (update cell (p % cap) none) writes (update reads t none) := by
  have hreads : ∀ u q, update reads t none u = some q → u ≠ t ∧ reads u = some q :=
    fun u q hu => (update_cases hu).resolve_left (by simp)
  have hlt := h.reads_lt t p ht
  have hopen : ∀ q, Open head tail (update reads t none) q ↔ Open head tail reads q ∧ q ≠ p := by
    intro q
    unfold Open
    constructor
    · rintro (⟨hq, hq'⟩ | ⟨u, hu⟩)
      · exact ⟨Or.inl ⟨hq, hq'⟩, by omega⟩
      · obtain ⟨hne, hu⟩ := hreads u q hu
        refine ⟨Or.inr ⟨u, hu⟩, ?_⟩
        rintro rfl
        exact hne (h.reads_inj u t q hu ht)
    · rintro ⟨hq | ⟨u, hu⟩, hne⟩
      · exact Or.inl hq
      · refine Or.inr ⟨u, ?_⟩
        rw [update_of_ne]
        · exact hu
        · rintro rfl
          rw [ht] at hu
          exact hne (Option.some.inj hu).symm
  have hcell : ∀ q, Open head tail reads q → q ≠ p → q % cap ≠ p % cap :=
    fun q hq hne heq => hne (h.distinct q p hq (Or.inr ⟨t, ht⟩) heq)
  refine ⟨h.tail_le, fun u q hu => h.reads_lt u q (hreads u q hu).2,
    unique_update h.reads_inj (fun q hq => nomatch hq), fun u q hu => ?_, h.writes_inj,
    fun u q hu => ?_, fun q hle hq => ?_, fun i item hi => ?_, fun q r hq hr => ?_⟩
  · obtain ⟨hq, ho⟩ := h.writes_open u q hu
    refine ⟨hq, (hopen q).mpr ⟨ho, ?_⟩⟩
    rintro rfl
    exact hfull (h.unwritten u q hu)
  · by_cases hc : q % cap = p % cap
    · rw [hc, update_self]
    · rw [update_of_ne hc]
      exact h.unwritten u q hu
  · rw [update_of_ne (hcell q (Or.inl ⟨hle, hq⟩) (by omega))]
    exact h.unclaimed q hle hq
  · by_cases hc : i = p % cap
    · rw [hc, update_self] at hi
      cases hi
    · rw [update_of_ne hc] at hi
      obtain ⟨q, ho, rfl⟩ := h.filled i item hi
      refine ⟨q, (hopen q).mpr ⟨ho, ?_⟩, rfl⟩
      rintro rfl
      exact hc rfl
  · exact h.distinct q r ((hopen q).mp hq).1 ((hopen r).mp hr).1

end

end TicketRing
