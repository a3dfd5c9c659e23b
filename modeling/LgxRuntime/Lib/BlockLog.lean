import Mathlib.Data.Set.Insert
import Mathlib.Logic.Function.Basic
import Mathlib.Tactic.Common

/-!
# Logs of an allocator that sits on top of another one

The upper allocator acquires blocks from the lower one, grants them to clients, gets them back, and
releases them to the lower allocator.  What the upper allocator owes to both sides is a property of the
log of these events: a block that a client has is neither granted again nor released, and a block is
released only while the upper allocator holds it.  Logs are lists with the latest event first.
-/

namespace BlockLog

open Function (update update_self update_of_ne)

variable {θ α : Type*}

/-- An event about one block, with the thread that took part in it. -/
inductive Event (θ α : Type*)
  /-- Thread `t` got the block from the lower allocator, with room for `usable` bytes. -/
  | acquired (t : θ) (p : α) (usable : ℕ)
  /-- Thread `t` granted the block to a client that asked for `size` bytes. -/
  | granted (t : θ) (p : α) (size : ℕ)
  /-- A client gave the block back on thread `t`. -/
  | returned (t : θ) (p : α)
  /-- The block was released to the lower allocator. -/
  | released (p : α)

/-- The block that an event is about. -/
def Event.block : Event θ α → α
  | acquired _ p _ => p
  | granted _ p _ => p
  | returned _ p => p
  | released p => p

/-- The blocks that clients have. -/
def live : List (Event θ α) → Set α
  | [] => ∅
  | .granted _ p _ :: log => insert p (live log)
  | .returned _ p :: log => live log \ {p}
  | .acquired _ _ _ :: log => live log
  | .released _ :: log => live log

/-- The blocks that have been acquired and not released since. -/
def held : List (Event θ α) → Set α
  | [] => ∅
  | .acquired _ p _ :: log => insert p (held log)
  | .released p :: log => held log \ {p}
  | .granted _ _ _ :: log => held log
  | .returned _ _ :: log => held log

/-- The room of a block, as of its last acquisition. -/
def usable [DecidableEq α] : List (Event θ α) → α → ℕ
  | [] => fun _ => 0
  | .acquired _ p room :: log => update (usable log) p room
  | .granted _ _ _ :: log => usable log
  | .returned _ _ :: log => usable log
  | .released _ :: log => usable log

/-- The last event about a block. -/
def lastEvent [DecidableEq α] : List (Event θ α) → α → Option (Event θ α)
  | [], _ => none
  | e :: log, p => if e.block = p then some e else lastEvent log p

/-- No live block is granted or released, and only blocks that are held are released. -/
def Safe : List (Event θ α) → Prop
  | [] => True
  | .granted _ p _ :: log => p ∉ live log ∧ Safe log
  | .released p :: log => p ∉ live log ∧ p ∈ held log ∧ Safe log
  | .acquired _ _ _ :: log => Safe log
  | .returned _ _ :: log => Safe log

/-- Every block was granted for a request that it has room for. -/
def Roomy [DecidableEq α] : List (Event θ α) → Prop
  | [] => True
  | .granted _ p size :: log => size ≤ usable log p ∧ Roomy log
  | .acquired _ _ _ :: log => Roomy log
  | .returned _ _ :: log => Roomy log
  | .released _ :: log => Roomy log

/-- Thread `t` acquires the blocks of a list, one after the other. -/
def acquireAll (t : θ) (room : α → ℕ) (blocks : List α) (log : List (Event θ α)) :
    List (Event θ α) :=
  blocks.foldl (fun log p => .acquired t p (room p) :: log) log

/-- The blocks of a list are released, one after the other. -/
def releaseAll (blocks : List α) (log : List (Event θ α)) : List (Event θ α) :=
  blocks.foldl (fun log p => .released p :: log) log

variable {e : Event θ α} {log events : List (Event θ α)} {p : α}

/-! ## What one event changes -/

theorem mem_live_of_ne (hne : e.block ≠ p) : p ∈ live (e :: log) ↔ p ∈ live log := by
  cases e <;> simp only [Event.block, ne_eq] at hne <;> simp [live, Ne.symm hne]

theorem mem_held_of_ne (hne : e.block ≠ p) : p ∈ held (e :: log) ↔ p ∈ held log := by
  cases e <;> simp only [Event.block, ne_eq] at hne <;> simp [held, Ne.symm hne]

/-! ## Acquiring and releasing a list of blocks -/

section

variable {t : θ} {room : α → ℕ} {blocks : List α}

theorem live_acquireAll : live (acquireAll t room blocks log) = live log := by
  induction blocks generalizing log with
  | nil => rfl
  | cons q blocks ih => exact ih

theorem mem_held_acquireAll : p ∈ held (acquireAll t room blocks log) ↔ p ∈ blocks ∨ p ∈ held log := by
  induction blocks generalizing log with
  | nil => simp [acquireAll]
  | cons q blocks ih =>
      refine ih.trans ?_
      simp only [held, Set.mem_insert_iff, List.mem_cons]
      tauto

theorem Safe.acquireAll (h : Safe log) : Safe (acquireAll t room blocks log) := by
  induction blocks generalizing log with
  | nil => exact h
  | cons q blocks ih => exact @ih (.acquired t q (room q) :: log) h

theorem live_releaseAll : live (releaseAll blocks log) = live log := by
  induction blocks generalizing log with
  | nil => rfl
  | cons q blocks ih => exact ih

theorem mem_held_releaseAll : p ∈ held (releaseAll blocks log) ↔ p ∈ held log ∧ p ∉ blocks := by
  induction blocks generalizing log with
  | nil => simp [releaseAll]
  | cons q blocks ih =>
      refine ih.trans ?_
      simp only [held, Set.mem_sdiff, Set.mem_singleton_iff, List.mem_cons]
      tauto

/-- Blocks that are held and that no client has can be released once. -/
theorem Safe.releaseAll (h : Safe log) (hnodup : blocks.Nodup) (hlive : ∀ p ∈ blocks, p ∉ live log)
    (hheld : ∀ p ∈ blocks, p ∈ held log) : Safe (releaseAll blocks log) := by
  induction blocks generalizing log with
  | nil => exact h
  | cons q blocks ih =>
      rw [List.nodup_cons] at hnodup
      refine @ih (.released q :: log) ⟨hlive q (List.mem_cons_self ..),
        hheld q (List.mem_cons_self ..), h⟩ hnodup.2 (fun p hp => hlive p (List.mem_cons_of_mem _ hp)) ?_
      intro p hp
      refine ⟨hheld p (List.mem_cons_of_mem _ hp), fun heq => hnodup.1 ?_⟩
      rwa [Set.mem_singleton_iff.mp heq] at hp

theorem Safe.of_releaseAll (h : Safe (BlockLog.releaseAll blocks log)) : Safe log := by
  induction blocks generalizing log with
  | nil => exact h
  | cons q blocks ih => exact (@ih (.released q :: log) h).2.2

/-- A safe log releases no live block. -/
theorem Safe.notMem_live_of_releaseAll (h : Safe (BlockLog.releaseAll blocks log)) (hp : p ∈ blocks) :
    p ∉ live log := by
  induction blocks generalizing log with
  | nil => simp at hp
  | cons q blocks ih =>
      rcases List.mem_cons.mp hp with rfl | hp
      · exact (@Safe.of_releaseAll _ _ (.released p :: log) blocks h).1
      · exact @ih (.released q :: log) h hp

end

/-! ## Rooms and last events -/

variable [DecidableEq α]

theorem usable_of_ne (hne : e.block ≠ p) : usable (e :: log) p = usable log p := by
  cases e with
  | acquired t q room => exact update_of_ne (Ne.symm hne) ..
  | granted | returned | released => rfl

theorem lastEvent_of_ne (hne : e.block ≠ p) : lastEvent (e :: log) p = lastEvent log p := by
  rw [lastEvent, if_neg hne]

theorem lastEvent_self : lastEvent (e :: log) e.block = some e := by
  rw [lastEvent, if_pos rfl]

/-- Events about other blocks do not matter. -/
theorem append_of_ne (hother : ∀ e ∈ events, e.block ≠ p) :
    (p ∈ live (events ++ log) ↔ p ∈ live log) ∧ (p ∈ held (events ++ log) ↔ p ∈ held log) ∧
      usable (events ++ log) p = usable log p ∧ lastEvent (events ++ log) p = lastEvent log p := by
  induction events with
  | nil => exact ⟨Iff.rfl, Iff.rfl, rfl, rfl⟩
  | cons e events ih =>
      have hne := hother e (List.mem_cons_self ..)
      obtain ⟨hlive, hheld, husable, hlast⟩ := ih fun e' he' => hother e' (List.mem_cons_of_mem _ he')
      rw [List.cons_append]
      exact ⟨(mem_live_of_ne hne).trans hlive, (mem_held_of_ne hne).trans hheld,
        (usable_of_ne hne).trans husable, (lastEvent_of_ne hne).trans hlast⟩

section

variable {t : θ} {room : α → ℕ} {blocks : List α}

theorem acquireAll_of_notMem (hp : p ∉ blocks) :
    lastEvent (acquireAll t room blocks log) p = lastEvent log p ∧
      usable (acquireAll t room blocks log) p = usable log p := by
  induction blocks generalizing log with
  | nil => exact ⟨rfl, rfl⟩
  | cons q blocks ih =>
      have hne : (Event.acquired t q (room q) : Event θ α).block ≠ p := by
        rintro rfl
        exact hp (List.mem_cons_self ..)
      have hlog := @ih (.acquired t q (room q) :: log) fun hmem => hp (List.mem_cons_of_mem _ hmem)
      rw [lastEvent_of_ne hne, usable_of_ne hne] at hlog
      exact hlog

theorem acquireAll_of_mem (hp : p ∈ blocks) :
    lastEvent (acquireAll t room blocks log) p = some (.acquired t p (room p)) ∧
      usable (acquireAll t room blocks log) p = room p := by
  induction blocks generalizing log with
  | nil => simp at hp
  | cons q blocks ih =>
      by_cases hmem : p ∈ blocks
      · exact ih hmem
      · obtain rfl : p = q := (List.mem_cons.mp hp).resolve_right hmem
        obtain ⟨hlast, husable⟩ :=
          @acquireAll_of_notMem _ _ (.acquired t p (room p) :: log) p _ t room blocks hmem
        exact ⟨hlast.trans lastEvent_self, husable.trans (update_self ..)⟩

theorem Roomy.acquireAll (h : Roomy log) : Roomy (acquireAll t room blocks log) := by
  induction blocks generalizing log with
  | nil => exact h
  | cons q blocks ih => exact @ih (.acquired t q (room q) :: log) h

theorem usable_releaseAll : usable (releaseAll blocks log) = usable log := by
  induction blocks generalizing log with
  | nil => rfl
  | cons q blocks ih => exact ih

theorem lastEvent_releaseAll_of_notMem (hp : p ∉ blocks) :
    lastEvent (releaseAll blocks log) p = lastEvent log p := by
  induction blocks generalizing log with
  | nil => rfl
  | cons q blocks ih =>
      have hne : (Event.released q : Event θ α).block ≠ p := by
        rintro rfl
        exact hp (List.mem_cons_self ..)
      exact (ih fun hmem => hp (List.mem_cons_of_mem _ hmem)).trans (lastEvent_of_ne hne)

theorem lastEvent_releaseAll_of_mem (hp : p ∈ blocks) :
    lastEvent (releaseAll blocks log) p = some (.released p) := by
  induction blocks generalizing log with
  | nil => simp at hp
  | cons q blocks ih =>
      by_cases hmem : p ∈ blocks
      · exact ih hmem
      · obtain rfl : p = q := (List.mem_cons.mp hp).resolve_right hmem
        exact (lastEvent_releaseAll_of_notMem hmem).trans lastEvent_self

theorem Roomy.releaseAll (h : Roomy log) : Roomy (releaseAll blocks log) := by
  induction blocks generalizing log with
  | nil => exact h
  | cons q blocks ih => exact @ih (.released q :: log) h

end

end BlockLog
