import LgxRuntime.Lib.RegionLog
import Mathlib.Algebra.BigOperators.Group.Multiset.Basic
import Mathlib.Data.Multiset.Basic
import Mathlib.Tactic.Abel

/-!
# Programs that acquire and release

A program acquires resources of several kinds and releases them.  What it holds is told from the log of what it
did.  A triple says what a program takes over and what it leaves to its caller, and that it leaves alone
whatever else is held: a resource that is released twice, or was never acquired, has no triple.
-/

namespace ResourceLogic

open RegionLog

variable {Kind α β σ : Type}

/-! ## Programs -/

/-- What has been acquired and released, the latest first, and how many names have been given.  The names of
resources are the numbers from one on; zero is the name of none. -/
structure Ledger (Kind : Type) where
  log : List (Event Kind ℕ)
  named : ℕ

/-- Nothing has been acquired. -/
def Ledger.new : Ledger Kind :=
  ⟨[], 0⟩

/-- A program with a result. -/
abbrev Program (Kind α : Type) := StateM (Ledger Kind) α

/-- A resource is asked for: its name, or zero if it is not to be had. -/
def acquire (kind : Kind) (succeeds : Bool) : Program Kind ℕ := fun ledger =>
  if succeeds then
    (ledger.named + 1, { log := .acquired kind (ledger.named + 1) :: ledger.log, named := ledger.named + 1 })
  else (0, ledger)

/-- A resource is acquired under the name of another, if there is that one. -/
def attach (kind : Kind) (name : ℕ) : Program Kind Unit := fun ledger =>
  if name = 0 then ((), ledger) else ((), { ledger with log := .acquired kind name :: ledger.log })

/-- A resource is released, unless its name is zero. -/
def release (kind : Kind) (name : ℕ) : Program Kind Unit := fun ledger =>
  if name = 0 then ((), ledger) else ((), { ledger with log := .released kind name :: ledger.log })

theorem release_zero (kind : Kind) : release kind 0 = pure () :=
  funext fun _ => if_pos rfl

/-! ## Results -/

/-- The result of the program has the property, whatever happened before. -/
def Returns (program : Program Kind α) (property : α → Prop) : Prop :=
  ∀ ledger, property (program.run ledger).1

namespace Returns

variable {program : Program Kind α} {next : α → Program Kind β} {property : α → Prop} {property' : β → Prop}

theorem pure {a : α} (h : property a) : Returns (pure a : Program Kind α) property :=
  fun _ => h

theorem bind (hprogram : Returns program property) (hnext : ∀ a, property a → Returns (next a) property') :
    Returns (program >>= next) property' :=
  fun ledger => hnext _ (hprogram ledger) _

/-- The result does not depend on what a first part returns. -/
theorem after (hnext : ∀ a, Returns (next a) property') : Returns (program >>= next) property' :=
  fun _ => hnext _ _

theorem ite {c : Prop} [Decidable c] {program' : Program Kind α} (hpos : c → Returns program property)
    (hneg : ¬c → Returns program' property) : Returns (if c then program else program') property := by
  split_ifs with hc
  · exact hpos hc
  · exact hneg hc

theorem acquire (kind : Kind) (succeeds : Bool) :
    Returns (acquire kind succeeds) fun name => name = 0 ↔ succeeds = false := by
  intro ledger
  cases succeeds with
  | false => exact iff_of_true rfl rfl
  | true => exact iff_of_false (Nat.succ_ne_zero _) (Bool.noConfusion ·)

/-- A loop that keeps a state keeps what its body keeps. -/
theorem foldlM {property : σ → Prop} {body : σ → α → Program Kind σ}
    (h : ∀ s x, property s → Returns (body s x) property) (xs : List α) {s : σ} (hs : property s) :
    Returns (xs.foldlM body s) property := by
  induction xs generalizing s with
  | nil => exact pure hs
  | cons x xs ih =>
      rw [List.foldlM_cons]
      exact (h s x hs).bind fun s' hs' => ih hs'

end Returns

/-! ## Logs grow -/

/-- The program adds to the log and changes nothing in it. -/
def Extends (program : Program Kind α) : Prop :=
  ∀ ledger, ∃ events, (program.run ledger).2.log = events ++ ledger.log

namespace Extends

variable {program : Program Kind α} {next : α → Program Kind β}

theorem pure (a : α) : Extends (pure a : Program Kind α) :=
  fun _ => ⟨[], rfl⟩

theorem bind (hprogram : Extends program) (hnext : ∀ a, Extends (next a)) : Extends (program >>= next) := by
  intro ledger
  obtain ⟨events, hevents⟩ := hprogram ledger
  obtain ⟨events', hevents'⟩ := hnext (program.run ledger).1 (program.run ledger).2
  refine ⟨events' ++ events, ?_⟩
  rw [List.append_assoc, ← hevents]
  exact hevents'

theorem ite {c : Prop} [Decidable c] {program' : Program Kind α} (hpos : Extends program)
    (hneg : Extends program') : Extends (if c then program else program') := by
  split_ifs
  · exact hpos
  · exact hneg

theorem acquire (kind : Kind) (succeeds : Bool) : Extends (acquire kind succeeds) := by
  intro ledger
  cases succeeds with
  | false => exact ⟨[], rfl⟩
  | true => exact ⟨[.acquired kind (ledger.named + 1)], rfl⟩

theorem attach (kind : Kind) (name : ℕ) : Extends (attach kind name) := by
  intro ledger
  by_cases hname : name = 0
  · have hrun : (ResourceLogic.attach kind name).run ledger = ((), ledger) := if_pos hname
    exact ⟨[], by rw [hrun]; rfl⟩
  · have hrun : (ResourceLogic.attach kind name).run ledger =
        ((), { ledger with log := .acquired kind name :: ledger.log }) := if_neg hname
    exact ⟨[.acquired kind name], by rw [hrun]; rfl⟩

theorem release (kind : Kind) (name : ℕ) : Extends (release kind name) := by
  intro ledger
  by_cases hname : name = 0
  · have hrun : (ResourceLogic.release kind name).run ledger = ((), ledger) := if_pos hname
    exact ⟨[], by rw [hrun]; rfl⟩
  · have hrun : (ResourceLogic.release kind name).run ledger =
        ((), { ledger with log := .released kind name :: ledger.log }) := if_neg hname
    exact ⟨[.released kind name], by rw [hrun]; rfl⟩

end Extends

/-! ## What is held -/

/-- The resource of a name, if the name is not zero. -/
def owned (kind : Kind) (name : ℕ) : Multiset (Kind × ℕ) :=
  if name = 0 then 0 else {(kind, name)}

@[simp] theorem owned_zero (kind : Kind) : owned kind 0 = 0 := rfl

theorem owned_of_ne_zero (kind : Kind) {name : ℕ} (h : name ≠ 0) : owned kind name = {(kind, name)} :=
  if_neg h

theorem owned_ne_zero (kind : Kind) {name : ℕ} (h : name ≠ 0) : owned kind name ≠ 0 := by
  rw [owned_of_ne_zero kind h]
  exact Multiset.singleton_ne_zero _

@[simp] theorem mem_owned {kind kind' : Kind} {name name' : ℕ} :
    (kind', name') ∈ owned kind name ↔ name ≠ 0 ∧ kind' = kind ∧ name' = name := by
  by_cases hname : name = 0
  · simp [hname]
  · simp [owned_of_ne_zero kind hname, hname]

theorem add_eq_zero_iff (resources resources' : Multiset (Kind × ℕ)) :
    resources + resources' = 0 ↔ resources = 0 ∧ resources' = 0 := by
  rw [← Multiset.card_eq_zero, Multiset.card_add, Nat.add_eq_zero_iff, Multiset.card_eq_zero, Multiset.card_eq_zero]

/-- None of the resources is of the family. -/
def Without (kind : Kind) (resources : Multiset (Kind × ℕ)) : Prop :=
  ∀ name, (kind, name) ∉ resources

namespace Without

variable {kind kind' : Kind} {resources resources' : Multiset (Kind × ℕ)}

theorem zero : Without kind 0 :=
  fun _ => Multiset.notMem_zero _

theorem owned {name : ℕ} (h : kind ≠ kind') : Without kind (owned kind' name) :=
  fun _ hmem => h (mem_owned.mp hmem).2.1

theorem add (h : Without kind resources) (h' : Without kind resources') : Without kind (resources + resources') := by
  intro name hmem
  rcases Multiset.mem_add.mp hmem with hmem | hmem
  · exact h name hmem
  · exact h' name hmem

theorem sum {f : α → Multiset (Kind × ℕ)} (h : ∀ x, Without kind (f x)) (xs : List α) :
    Without kind (xs.map f).sum := by
  induction xs with
  | nil => exact zero
  | cons x xs ih =>
      rw [List.map_cons, List.sum_cons]
      exact (h x).add ih

end Without

/-- One resource of each. -/
theorem coe_map_le_sum {resource : α → Kind × ℕ} {resources : α → Multiset (Kind × ℕ)} {xs : List α}
    (h : ∀ x ∈ xs, {resource x} ≤ resources x) : (xs.map resource : Multiset (Kind × ℕ)) ≤ (xs.map resources).sum := by
  induction xs with
  | nil => exact le_rfl
  | cons x xs ih =>
      rw [List.map_cons, List.map_cons, List.sum_cons, ← Multiset.cons_coe, ← Multiset.singleton_add]
      exact add_le_add (h x (List.mem_cons_self ..)) (ih fun y hy => h y (List.mem_cons_of_mem _ hy))

variable [DecidableEq Kind]

/-- These resources have been acquired and not released, and no others. -/
def Holds (ledger : Ledger Kind) (resources : Multiset (Kind × ℕ)) : Prop :=
  ∃ regions, held ledger.log = some regions ∧ (regions : Multiset (Kind × ℕ)) = resources

variable {ledger : Ledger Kind} {resources : Multiset (Kind × ℕ)}

theorem Holds.new : Holds (.new : Ledger Kind) 0 :=
  ⟨[], rfl, rfl⟩

theorem Holds.acquired {kind : Kind} {name : ℕ} (h : Holds ledger resources) (named : ℕ) :
    Holds { log := .acquired kind name :: ledger.log, named } ((kind, name) ::ₘ resources) := by
  obtain ⟨regions, hheld, rfl⟩ := h
  refine ⟨(kind, name) :: regions, ?_, rfl⟩
  change (held ledger.log).map _ = _
  rw [hheld, Option.map_some]

theorem Holds.released {kind : Kind} {name : ℕ} (h : Holds ledger ((kind, name) ::ₘ resources)) :
    Holds { ledger with log := .released kind name :: ledger.log } resources := by
  obtain ⟨regions, hheld, hregions⟩ := h
  obtain ⟨rest, rfl⟩ := Quot.exists_rep resources
  have hperm : regions.Perm ((kind, name) :: rest) := Multiset.coe_eq_coe.mp hregions
  have hmem : (kind, name) ∈ regions := hperm.mem_iff.mpr (List.mem_cons_self ..)
  refine ⟨regions.erase (kind, name), held_released hheld hmem, Multiset.coe_eq_coe.mpr ?_⟩
  have herase := hperm.erase (kind, name)
  rwa [List.erase_cons_head] at herase

/-- Everything has been released if and only if nothing is held. -/
theorem Holds.settled_iff_eq_zero (h : Holds ledger resources) : Settled ledger.log ↔ resources = 0 := by
  obtain ⟨regions, hheld, rfl⟩ := h
  rw [Settled, hheld, Option.some.injEq, Multiset.coe_eq_zero]

theorem Holds.unique {resources' : Multiset (Kind × ℕ)} (h : Holds ledger resources)
    (h' : Holds ledger resources') : resources = resources' := by
  obtain ⟨regions, hheld, rfl⟩ := h
  obtain ⟨regions', hheld', rfl⟩ := h'
  rw [hheld, Option.some.injEq] at hheld'
  rw [hheld']

/-- No name has been given twice. -/
def Named (ledger : Ledger Kind) : Prop :=
  ∀ kind name, ledger.log.count (.acquired kind name) ≤ 1 ∧
    (ledger.named < name → ledger.log.count (.acquired kind name) = 0)

theorem Named.new : Named (.new : Ledger Kind) :=
  fun _ _ => ⟨Nat.zero_le _, fun _ => rfl⟩

/-- Nothing is held twice. -/
theorem Holds.nodup (h : Holds ledger resources) (hnamed : Named ledger) : resources.Nodup := by
  obtain ⟨regions, hheld, rfl⟩ := h
  rw [Multiset.coe_nodup, List.nodup_iff_count_le_one]
  rintro ⟨kind, name⟩
  have hcount := count_add_count hheld kind name
  have hle := (hnamed kind name).1
  omega

/-- A name that has not been given yet is nobody's. -/
theorem Holds.not_mem_of_lt {kind : Kind} {name : ℕ} (h : Holds ledger resources) (hnamed : Named ledger)
    (hlt : ledger.named < name) : (kind, name) ∉ resources := by
  obtain ⟨regions, hheld, rfl⟩ := h
  intro hmem
  have hcount := count_add_count hheld kind name
  have hnone := (hnamed kind name).2 hlt
  have hpos := List.count_pos_iff.mpr (Multiset.mem_coe.mp hmem)
  omega

/-- The program gives no name twice. -/
def Names (program : Program Kind α) : Prop :=
  ∀ ledger, Named ledger → Named (program.run ledger).2

namespace Names

variable {program : Program Kind α} {next : α → Program Kind β}

theorem pure (a : α) : Names (pure a : Program Kind α) :=
  fun _ h => h

theorem bind (hprogram : Names program) (hnext : ∀ a, Names (next a)) : Names (program >>= next) :=
  fun ledger h => hnext _ _ (hprogram ledger h)

theorem ite {c : Prop} [Decidable c] {program' : Program Kind α} (hpos : Names program) (hneg : Names program') :
    Names (if c then program else program') := by
  split_ifs
  · exact hpos
  · exact hneg

theorem acquire (kind : Kind) (succeeds : Bool) : Names (acquire kind succeeds) := by
  intro ledger h
  cases succeeds with
  | false => exact h
  | true =>
      intro kind' name
      obtain ⟨hle, hzero⟩ := h kind' name
      change (List.count _ (_ :: _)) ≤ 1 ∧ (ledger.named + 1 < name → List.count _ (_ :: _) = 0)
      rw [List.count_cons]
      by_cases hsame : kind' = kind ∧ name = ledger.named + 1
      · obtain ⟨rfl, rfl⟩ := hsame
        have hnone := hzero (Nat.lt_succ_self _)
        simp only [beq_self_eq_true, if_true]
        omega
      · have hne : ¬((Event.acquired kind (ledger.named + 1) : Event Kind ℕ) == .acquired kind' name) = true := by
          rw [beq_iff_eq, Event.acquired.injEq]
          exact fun h => hsame ⟨h.1.symm, h.2.symm⟩
        rw [if_neg hne]
        exact ⟨hle, fun hlt => hzero (by omega)⟩

theorem release (kind : Kind) (name : ℕ) : Names (release kind name) := by
  intro ledger h
  by_cases hname : name = 0
  · have hrun : (ResourceLogic.release kind name).run ledger = ((), ledger) := if_pos hname
    rwa [hrun]
  · have hrun : (ResourceLogic.release kind name).run ledger =
        ((), { ledger with log := .released kind name :: ledger.log }) := if_neg hname
    rw [hrun]
    intro kind' name'
    have hcount : (Event.released kind name :: ledger.log).count (.acquired kind' name') =
        ledger.log.count (.acquired kind' name') := List.count_cons_of_ne (by simp)
    rw [hcount]
    exact h kind' name'

theorem forM {body : α → Program Kind PUnit} (h : ∀ x, Names (body x)) (xs : List α) : Names (xs.forM body) := by
  induction xs with
  | nil => exact pure _
  | cons x xs ih => exact (h x).bind fun _ => ih

theorem foldlM {body : σ → α → Program Kind σ} (h : ∀ s x, Names (body s x)) (xs : List α) (s : σ) :
    Names (xs.foldlM body s) := by
  induction xs generalizing s with
  | nil => exact pure s
  | cons x xs ih =>
      rw [List.foldlM_cons]
      exact (h s x).bind ih

end Names

/-- Something has been released that was not held. -/
def Broken (ledger : Ledger Kind) : Prop :=
  held ledger.log = none

theorem Holds.not_broken (h : Holds ledger resources) : ¬Broken ledger := by
  obtain ⟨regions, hheld, -⟩ := h
  intro hbroken
  rw [Broken, hheld] at hbroken
  exact nomatch hbroken

/-- What is not held cannot be released. -/
theorem Holds.broken_of_not_mem {kind : Kind} {name : ℕ} (h : Holds ledger resources) (hname : name ≠ 0)
    (hmem : (kind, name) ∉ resources) : Broken ((release kind name).run ledger).2 := by
  obtain ⟨regions, hheld, rfl⟩ := h
  have hrun : (release kind name).run ledger = ((), { ledger with log := .released kind name :: ledger.log }) :=
    if_neg hname
  rw [hrun, Broken]
  change (held ledger.log).bind _ = none
  rw [hheld, Option.bind_some]
  exact if_neg hmem

/-- It cannot be mended. -/
theorem Broken.run {program : Program Kind α} (h : Broken ledger) (hextends : Extends program) :
    Broken (program.run ledger).2 := by
  obtain ⟨events, hevents⟩ := hextends ledger
  rw [Broken, hevents]
  clear hevents
  induction events with
  | nil => exact h
  | cons e events ih =>
      cases e with
      | acquired family region =>
          change (held (events ++ ledger.log)).map _ = none
          rw [ih, Option.map_none]
      | released family region =>
          change (held (events ++ ledger.log)).bind _ = none
          rw [ih, Option.bind_none]

/-- The program gives no name twice, and changes nothing in the log. -/
structure Tame (program : Program Kind α) : Prop where
  names : Names program
  extending : Extends program

namespace Tame

variable {program : Program Kind α} {next : α → Program Kind β}

theorem pure (a : α) : Tame (pure a : Program Kind α) :=
  ⟨.pure a, .pure a⟩

theorem bind (hprogram : Tame program) (hnext : ∀ a, Tame (next a)) : Tame (program >>= next) :=
  ⟨hprogram.names.bind fun a => (hnext a).names, hprogram.extending.bind fun a => (hnext a).extending⟩

theorem ite {c : Prop} [Decidable c] {program' : Program Kind α} (hpos : Tame program) (hneg : Tame program') :
    Tame (if c then program else program') :=
  ⟨.ite hpos.names hneg.names, .ite hpos.extending hneg.extending⟩

theorem acquire (kind : Kind) (succeeds : Bool) : Tame (acquire kind succeeds) :=
  ⟨.acquire kind succeeds, .acquire kind succeeds⟩

theorem release (kind : Kind) (name : ℕ) : Tame (release kind name) :=
  ⟨.release kind name, .release kind name⟩

theorem forM {body : α → Program Kind PUnit} (h : ∀ x, Tame (body x)) (xs : List α) : Tame (xs.forM body) := by
  induction xs with
  | nil => exact pure _
  | cons x xs ih => exact (h x).bind fun _ => ih

end Tame

/-! ## Triples -/

/-- The program takes over `before` and leaves `after`, whatever else is held. -/
def Triple (before : Multiset (Kind × ℕ)) (program : Program Kind α)
    (after : α → Multiset (Kind × ℕ)) : Prop :=
  ∀ ledger others, Holds ledger (before + others) →
    Holds (program.run ledger).2 (after (program.run ledger).1 + others)

namespace Triple

variable {before rest : Multiset (Kind × ℕ)} {program : Program Kind α} {next : α → Program Kind β}
  {between : α → Multiset (Kind × ℕ)} {after : β → Multiset (Kind × ℕ)}

theorem pure {after : α → Multiset (Kind × ℕ)} {a : α} (h : before = after a) :
    Triple before (pure a) after := by
  intro ledger others hholds
  rw [h] at hholds
  exact hholds

theorem bind (hprogram : Triple before program between) (hnext : ∀ a, Triple (between a) (next a) after) :
    Triple before (program >>= next) after := by
  intro ledger others hholds
  exact hnext _ _ others (hprogram ledger others hholds)

/-- What a program does not need may be held during it. -/
theorem frame (h : Triple before program between) (rest : Multiset (Kind × ℕ)) :
    Triple (before + rest) program fun a => between a + rest := by
  intro ledger others hholds
  rw [add_assoc] at hholds ⊢
  exact h ledger (rest + others) hholds

theorem congr {before' : Multiset (Kind × ℕ)} {between' : α → Multiset (Kind × ℕ)}
    (h : Triple before program between) (hbefore : before' = before) (hafter : ∀ a, between a = between' a) :
    Triple before' program between' := by
  rw [hbefore, ← funext hafter]
  exact h

/-- What is known of the result may tell what is left. -/
theorem congr_returns {property : α → Prop} {between' : α → Multiset (Kind × ℕ)} (h : Triple before program between)
    (hreturns : Returns program property) (hafter : ∀ a, property a → between a = between' a) :
    Triple before program between' := by
  intro ledger others hholds
  rw [← hafter _ (hreturns ledger)]
  exact h ledger others hholds

theorem of_eq {before' : Multiset (Kind × ℕ)} (hbefore : before = before') (h : Triple before' program between) :
    Triple before program between := by
  rwa [hbefore]

/-- A call of a program that needs a part of what is held. -/
theorem call {part : Multiset (Kind × ℕ)} (hprogram : Triple part program between)
    (hbefore : before = part + rest) (hnext : ∀ a, Triple (between a + rest) (next a) after) :
    Triple before (program >>= next) after := by
  rw [hbefore]
  exact (hprogram.frame rest).bind hnext

/-- A call of a program that leaves nothing of what it needs. -/
theorem spend {part : Multiset (Kind × ℕ)} (hprogram : Triple part program fun _ => 0)
    (hnext : ∀ a, Triple rest (next a) after) : Triple (part + rest) (program >>= next) after :=
  hprogram.call rfl fun a => of_eq (zero_add rest) (hnext a)

/-- A call of a program whose result is known to have a property. -/
theorem call_returns {part : Multiset (Kind × ℕ)} {property : α → Prop} (hprogram : Triple part program between)
    (hreturns : Returns program property) (hbefore : before = part + rest)
    (hnext : ∀ a, property a → Triple (between a + rest) (next a) after) :
    Triple before (program >>= next) after := by
  intro ledger others hholds
  rw [hbefore] at hholds
  exact hnext _ (hreturns ledger) _ others (hprogram.frame rest ledger others hholds)

theorem ite {c : Prop} [Decidable c] {program' : Program Kind α} (hpos : c → Triple before program between)
    (hneg : ¬c → Triple before program' between) : Triple before (if c then program else program') between := by
  split_ifs with hc
  · exact hpos hc
  · exact hneg hc

theorem acquire (kind : Kind) (succeeds : Bool) : Triple 0 (acquire kind succeeds) (owned kind) := by
  intro ledger others hholds
  rw [zero_add] at hholds
  cases succeeds with
  | false =>
      change Holds ledger (owned kind 0 + others)
      rwa [owned_zero, zero_add]
  | true =>
      change Holds _ (owned kind (ledger.named + 1) + others)
      rw [owned_of_ne_zero kind (Nat.succ_ne_zero _), Multiset.singleton_add]
      exact hholds.acquired _

theorem attach (kind : Kind) (name : ℕ) : Triple 0 (attach kind name) fun _ => owned kind name := by
  intro ledger others hholds
  rw [zero_add] at hholds
  by_cases hname : name = 0
  · have hrun : (ResourceLogic.attach kind name).run ledger = ((), ledger) := if_pos hname
    rw [hrun, hname, owned_zero, zero_add]
    exact hholds
  · have hrun : (ResourceLogic.attach kind name).run ledger =
        ((), { ledger with log := .acquired kind name :: ledger.log }) := if_neg hname
    rw [hrun, owned_of_ne_zero kind hname, Multiset.singleton_add]
    exact hholds.acquired _

theorem release (kind : Kind) (name : ℕ) : Triple (owned kind name) (release kind name) fun _ => 0 := by
  intro ledger others hholds
  by_cases hname : name = 0
  · have hrun : (ResourceLogic.release kind name).run ledger = ((), ledger) := if_pos hname
    rw [hname, owned_zero] at hholds
    rw [hrun]
    exact hholds
  · have hrun : (ResourceLogic.release kind name).run ledger =
        ((), { ledger with log := .released kind name :: ledger.log }) := if_neg hname
    rw [owned_of_ne_zero kind hname, Multiset.singleton_add] at hholds
    rw [hrun, zero_add]
    exact hholds.released

theorem acquire_bind {kind : Kind} {succeeds : Bool} {next : ℕ → Program Kind β}
    (h : ∀ name, (succeeds = false → name = 0) → Triple (owned kind name + before) (next name) after) :
    Triple before (ResourceLogic.acquire kind succeeds >>= next) after := by
  cases succeeds with
  | false =>
      have hnext := h 0 fun _ => rfl
      rw [owned_zero, zero_add] at hnext
      exact hnext
  | true =>
      have hnext : ∀ name, Triple (owned kind name + before) (next name) after :=
        fun name => h name fun hfalse => Bool.noConfusion hfalse
      exact (acquire kind true).call (zero_add before).symm hnext

/-- A resource is asked for, and the program goes another way without it. -/
theorem acquire_or {kind : Kind} {succeeds : Bool} {failed next : ℕ → Program Kind β}
    (hfailed : succeeds = false → Triple before (failed 0) after)
    (hnext : succeeds = true → ∀ name, name ≠ 0 → Triple (owned kind name + before) (next name) after) :
    Triple before (ResourceLogic.acquire kind succeeds >>= fun name => if name = 0 then failed name else next name)
      after := by
  cases succeeds with
  | false => exact hfailed rfl
  | true =>
      intro ledger others hholds
      have hacquired := ((acquire kind true).frame before) ledger others (by rwa [zero_add])
      exact hnext rfl (ledger.named + 1) (Nat.succ_ne_zero _) _ others hacquired

theorem acquire_checked {kind : Kind} {succeeds : Bool} {failed next : ℕ → Program Kind β}
    (hfailed : Triple before (failed 0) after)
    (hnext : ∀ name, name ≠ 0 → Triple (owned kind name + before) (next name) after) :
    Triple before (ResourceLogic.acquire kind succeeds >>= fun name => if name = 0 then failed name else next name)
      after :=
  acquire_or (fun _ => hfailed) fun _ => hnext

theorem attach_bind {kind : Kind} {name : ℕ} {next : Unit → Program Kind β}
    (h : Triple (owned kind name + before) (next ()) after) :
    Triple before (ResourceLogic.attach kind name >>= next) after :=
  (attach kind name).call (zero_add before).symm fun _ => h

theorem release_bind {kind : Kind} {name : ℕ} {next : Unit → Program Kind β}
    (hbefore : before = owned kind name + rest) (h : Triple rest (next ()) after) :
    Triple before (ResourceLogic.release kind name >>= next) after :=
  (release kind name).call hbefore fun _ => h.congr (zero_add rest) fun _ => rfl

/-- A loop that takes over something for each element, and may leave some of it. -/
theorem forM_leaving {needs leaves : α → Multiset (Kind × ℕ)} {body : α → Program Kind PUnit}
    (h : ∀ x, Triple (needs x) (body x) fun _ => leaves x) (xs : List α) :
    Triple (xs.map needs).sum (xs.forM body) fun _ => (xs.map leaves).sum := by
  induction xs with
  | nil => exact pure rfl
  | cons x xs ih =>
      rw [List.map_cons, List.map_cons, List.sum_cons, List.sum_cons]
      refine (h x).call rfl fun _ => ?_
      exact (ih.frame (leaves x)).congr (add_comm ..) fun _ => add_comm ..

theorem forM {needs : α → Multiset (Kind × ℕ)} {body : α → Program Kind PUnit}
    (h : ∀ x, Triple (needs x) (body x) fun _ => 0) (xs : List α) :
    Triple (xs.map needs).sum (xs.forM body) fun _ => 0 :=
  (forM_leaving h xs).congr rfl fun _ => List.sum_map_zero

/-- A loop that keeps a state, and with it what the state owns. -/
theorem foldlM {objects : σ → Multiset (Kind × ℕ)} {body : σ → α → Program Kind σ}
    (h : ∀ s x, Triple (objects s) (body s x) objects) (xs : List α) (s : σ) :
    Triple (objects s) (xs.foldlM body s) objects := by
  induction xs generalizing s with
  | nil => exact pure rfl
  | cons x xs ih =>
      rw [List.foldlM_cons]
      exact (h s x).bind ih

/-- From nothing on, what is held is what the program leaves. -/
theorem holds (h : Triple 0 program between) :
    Holds (program.run .new).2 (between (program.run .new).1) := by
  have hholds := h .new 0 Holds.new
  rwa [add_zero] at hholds

end Triple

/-! ## Programs that break -/

/-- Whenever just this is held, the program releases something that is not. -/
def Breaks (before : Multiset (Kind × ℕ)) (program : Program Kind α) : Prop :=
  ∀ ledger, Holds ledger before → Broken (program.run ledger).2

namespace Breaks

variable {before : Multiset (Kind × ℕ)} {program : Program Kind α} {next : α → Program Kind β}
  {between : α → Multiset (Kind × ℕ)}

theorem of_eq {before' : Multiset (Kind × ℕ)} (hbefore : before = before') (h : Breaks before' program) :
    Breaks before program := by
  rwa [hbefore]

/-- The program breaks before its end. -/
theorem bind (h : Breaks before program) (hnext : ∀ a, Extends (next a)) : Breaks before (program >>= next) :=
  fun ledger hholds => (h ledger hholds).run (hnext _)

theorem release {kind : Kind} {name : ℕ} (hname : name ≠ 0) (hmem : (kind, name) ∉ before) :
    Breaks before (release kind name) :=
  fun _ hholds => hholds.broken_of_not_mem hname hmem

/-- The program breaks after a part that does not. -/
theorem call {part rest : Multiset (Kind × ℕ)} {property : α → Prop} (hprogram : Triple part program between)
    (hreturns : Returns program property) (hbefore : before = part + rest)
    (hnext : ∀ a, property a → Breaks (between a + rest) (next a)) : Breaks before (program >>= next) := by
  intro ledger hholds
  rw [hbefore] at hholds
  exact hnext _ (hreturns ledger) _ (hprogram ledger rest hholds)

theorem ite {c : Prop} [Decidable c] {program' : Program Kind α} (hpos : c → Breaks before program)
    (hneg : ¬c → Breaks before program') : Breaks before (if c then program else program') := by
  split_ifs with hc
  · exact hpos hc
  · exact hneg hc

theorem acquire_or {kind : Kind} {succeeds : Bool} {failed next : ℕ → Program Kind β}
    (hfailed : succeeds = false → Breaks before (failed 0))
    (hnext : succeeds = true → ∀ name, name ≠ 0 → Breaks (owned kind name + before) (next name)) :
    Breaks before (acquire kind succeeds >>= fun name => if name = 0 then failed name else next name) := by
  cases succeeds with
  | false => exact hfailed rfl
  | true =>
      intro ledger hholds
      have hacquired := Triple.acquire kind true ledger before (by rwa [zero_add])
      exact hnext rfl (ledger.named + 1) (Nat.succ_ne_zero _) _ hacquired

theorem attach_bind {kind : Kind} {name : ℕ} {next : Unit → Program Kind β}
    (h : Breaks (owned kind name + before) (next ())) : Breaks before (attach kind name >>= next) := by
  intro ledger hholds
  exact h _ (Triple.attach kind name ledger before (by rwa [zero_add]))

end Breaks

/-! ## Outcomes -/

/-- Started with just this, the program ends with a result and with what is held then, or with none if it has
released something that was not held. -/
def Outcome (before : Multiset (Kind × ℕ)) (program : Program Kind α)
    (post : α → Option (Multiset (Kind × ℕ)) → Prop) : Prop :=
  ∀ ledger, Holds ledger before → Named ledger →
    (post (program.run ledger).1 none ∧ Broken (program.run ledger).2) ∨
      ∃ left, post (program.run ledger).1 (some left) ∧ Holds (program.run ledger).2 left ∧
        Named (program.run ledger).2

namespace Outcome

variable {before rest : Multiset (Kind × ℕ)} {program : Program Kind α} {next : α → Program Kind β}
  {between : α → Multiset (Kind × ℕ)} {post : α → Option (Multiset (Kind × ℕ)) → Prop}
  {post' : β → Option (Multiset (Kind × ℕ)) → Prop}

theorem pure {a : α} (h : post a (some before)) : Outcome before (pure a) post :=
  fun _ hholds hnamed => .inr ⟨before, h, hholds, hnamed⟩

theorem of_eq {before' : Multiset (Kind × ℕ)} (hbefore : before = before') (h : Outcome before' program post) :
    Outcome before program post := by
  rwa [hbefore]

theorem mono {post' : α → Option (Multiset (Kind × ℕ)) → Prop} (h : Outcome before program post)
    (himp : ∀ a left, post a left → post' a left) : Outcome before program post' := by
  intro ledger hholds hnamed
  rcases h ledger hholds hnamed with ⟨hpost, hbroken⟩ | ⟨left, hpost, hleft⟩
  · exact .inl ⟨himp _ _ hpost, hbroken⟩
  · exact .inr ⟨left, himp _ _ hpost, hleft⟩

/-- A program that may break goes on breaking. -/
theorem bind (h : Outcome before program post)
    (hnext : ∀ a left, post a (some left) → Outcome left (next a) post')
    (hbroken : ∀ a, post a none → Extends (next a) ∧ Returns (next a) (post' · none)) :
    Outcome before (program >>= next) post' := by
  intro ledger hholds hnamed
  rcases h ledger hholds hnamed with ⟨hpost, hbreaks⟩ | ⟨left, hpost, hleft, hnamed'⟩
  · obtain ⟨hextends, hreturns⟩ := hbroken _ hpost
    exact .inl ⟨hreturns _, hbreaks.run hextends⟩
  · exact hnext _ _ hpost _ hleft hnamed'

/-- A call of a program that needs a part of what is held. -/
theorem call_returns {part : Multiset (Kind × ℕ)} {property : α → Prop} (hprogram : Triple part program between)
    (hnames : Names program) (hreturns : Returns program property) (hbefore : before = part + rest)
    (hnext : ∀ a, property a → Outcome (between a + rest) (next a) post') :
    Outcome before (program >>= next) post' := by
  intro ledger hholds hnamed
  rw [hbefore] at hholds
  exact hnext _ (hreturns ledger) _ (hprogram ledger rest hholds) (hnames ledger hnamed)

theorem call {part : Multiset (Kind × ℕ)} (hprogram : Triple part program between) (hnames : Names program)
    (hbefore : before = part + rest) (hnext : ∀ a, Outcome (between a + rest) (next a) post') :
    Outcome before (program >>= next) post' :=
  call_returns hprogram hnames (fun _ => trivial) hbefore fun a (_ : True) => hnext a

/-- A call of a program that leaves nothing of what it needs. -/
theorem spend {part : Multiset (Kind × ℕ)} (hprogram : Triple part program fun _ => 0) (hnames : Names program)
    (hnext : ∀ a, Outcome rest (next a) post') : Outcome (part + rest) (program >>= next) post' :=
  call hprogram hnames rfl fun a => of_eq (zero_add rest) (hnext a)

/-- A program with a triple does not break. -/
theorem of_triple {part : Multiset (Kind × ℕ)} {property : α → Prop} (hprogram : Triple part program between)
    (hnames : Names program) (hreturns : Returns program property) (hbefore : before = part + rest) :
    Outcome before program fun a left => property a ∧ left = some (between a + rest) := by
  intro ledger hholds hnamed
  rw [hbefore] at hholds
  exact .inr ⟨_, ⟨hreturns ledger, rfl⟩, hprogram ledger rest hholds, hnames ledger hnamed⟩

theorem ite {c : Prop} [Decidable c] {program' : Program Kind α} (hpos : c → Outcome before program post)
    (hneg : ¬c → Outcome before program' post) : Outcome before (if c then program else program') post := by
  split_ifs with hc
  · exact hpos hc
  · exact hneg hc

/-- A resource is asked for, and the program goes another way without it.  Nothing that is held has its name. -/
theorem acquire_or {kind : Kind} {succeeds : Bool} {failed next : ℕ → Program Kind β}
    (hfailed : succeeds = false → Outcome before (failed 0) post')
    (hnext : succeeds = true → ∀ name, name ≠ 0 → (∀ kind', (kind', name) ∉ before) →
      Outcome (owned kind name + before) (next name) post') :
    Outcome before (acquire kind succeeds >>= fun name => if name = 0 then failed name else next name) post' := by
  cases succeeds with
  | false => exact hfailed rfl
  | true =>
      intro ledger hholds hnamed
      have hacquired := Triple.acquire kind true ledger before (by rwa [zero_add])
      exact hnext rfl (ledger.named + 1) (Nat.succ_ne_zero _)
        (fun kind' => hholds.not_mem_of_lt hnamed (Nat.lt_succ_self _)) _ hacquired
        (Names.acquire kind true ledger hnamed)

theorem acquire_bind {kind : Kind} {succeeds : Bool} {next : ℕ → Program Kind β}
    (hnext : ∀ name, (name = 0 ↔ succeeds = false) → Outcome (owned kind name + before) (next name) post') :
    Outcome before (acquire kind succeeds >>= next) post' := by
  intro ledger hholds hnamed
  have hacquired := Triple.acquire kind succeeds ledger before (by rwa [zero_add])
  refine hnext _ ?_ _ hacquired (Names.acquire kind succeeds ledger hnamed)
  cases succeeds with
  | false => exact iff_of_true rfl rfl
  | true => exact iff_of_false (Nat.succ_ne_zero _) (Bool.noConfusion ·)

theorem release_bind {kind : Kind} {name : ℕ} {next : Unit → Program Kind β}
    (hbefore : before = owned kind name + rest) (h : Outcome rest (next ()) post') :
    Outcome before (release kind name >>= next) post' :=
  call (Triple.release kind name) (Names.release kind name) hbefore fun _ => of_eq (zero_add rest) h

/-- Something is released that is not held. -/
theorem breaks {kind : Kind} {name : ℕ} {next : Unit → Program Kind β} (hname : name ≠ 0)
    (hmem : (kind, name) ∉ before) (hextends : Extends (next ())) (hreturns : Returns (next ()) (post' · none)) :
    Outcome before (release kind name >>= next) post' := by
  intro ledger hholds hnamed
  exact .inl ⟨hreturns _, (hholds.broken_of_not_mem hname hmem).run hextends⟩

end Outcome

end ResourceLogic
