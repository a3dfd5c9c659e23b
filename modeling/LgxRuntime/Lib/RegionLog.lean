import Mathlib.Data.List.Basic
import Mathlib.Data.Nat.Basic

/-!
# Logs of regions

Regions of memory are acquired from families of functions and released to them.  A log is settled if each
region goes back to the family that it came from, after it was acquired, and each exactly once.  Logs are
lists with the latest event first.
-/

namespace RegionLog

variable {Family Region : Type*} [DecidableEq Family] [DecidableEq Region]

/-- A region is acquired from a family, or released to one. -/
inductive Event (Family Region : Type*)
  | acquired (family : Family) (region : Region)
  | released (family : Family) (region : Region)
  deriving DecidableEq

/-- What is held after a log, with the families that it came from.  There is no answer if something was
released that was not held from that family. -/
def held : List (Event Family Region) → Option (List (Family × Region))
  | [] => some []
  | .acquired family region :: log => (held log).map fun regions => (family, region) :: regions
  | .released family region :: log =>
      (held log).bind fun regions =>
        if (family, region) ∈ regions then some (regions.erase (family, region)) else none

/-- Every region has gone back where it came from. -/
def Settled (log : List (Event Family Region)) : Prop :=
  held log = some []

instance (log : List (Event Family Region)) : Decidable (Settled log) :=
  inferInstanceAs (Decidable (held log = some []))

variable {log : List (Event Family Region)} {regions : List (Family × Region)} {family : Family}
  {region : Region}

theorem held_released (h : held log = some regions) (hmem : (family, region) ∈ regions) :
    held (.released family region :: log) = some (regions.erase (family, region)) := by
  rw [held, h, Option.bind_some, if_pos hmem]

theorem held_released_head (h : held log = some ((family, region) :: regions)) :
    held (.released family region :: log) = some regions := by
  rw [held_released h (List.mem_cons_self ..), List.erase_cons_head]

/-- What is held is what has been acquired and not released. -/
theorem count_add_count (h : held log = some regions) (family : Family) (region : Region) :
    regions.count (family, region) + log.count (.released family region) =
      log.count (.acquired family region) := by
  induction log generalizing regions with
  | nil =>
      obtain rfl := Option.some.inj h
      rfl
  | cons e log ih =>
      cases e with
      | acquired family' region' =>
          obtain ⟨before, hbefore, rfl⟩ := Option.map_eq_some_iff.mp h
          have hcount := ih hbefore
          simp only [List.count_cons, beq_iff_eq, Prod.mk.injEq, Event.acquired.injEq, reduceCtorEq,
            if_false]
          omega
      | released family' region' =>
          obtain ⟨before, hbefore, hrest⟩ := Option.bind_eq_some_iff.mp h
          obtain ⟨hmem, herase⟩ := Option.ite_none_right_eq_some.mp hrest
          obtain rfl := Option.some.inj herase
          have hcount := ih hbefore
          have hpos := List.count_pos_iff.mpr hmem
          simp only [List.count_cons, beq_iff_eq, Event.released.injEq, reduceCtorEq, if_false]
          by_cases hsame : family' = family ∧ region' = region
          · obtain ⟨rfl, rfl⟩ := hsame
            rw [List.count_erase_self]
            simp only [and_self, if_true]
            omega
          · have hne : (family, region) ≠ (family', region') := by
              rintro heq
              cases heq
              exact hsame ⟨rfl, rfl⟩
            rw [List.count_erase_of_ne hne, if_neg hsame]
            omega

/-- A family gets back as many regions as came from it. -/
theorem Settled.count_eq (h : Settled log) (family : Family) (region : Region) :
    log.count (.released family region) = log.count (.acquired family region) := by
  have hcount := count_add_count h family region
  rwa [List.count_nil, Nat.zero_add] at hcount

end RegionLog
