import LgxRuntime.Lib.Interleaving
import LgxRuntime.Lib.Linked
import Mathlib.Data.List.Perm.Basic

/-!
# Treiber stacks

The nodes of a stack are linked from `head`.  A thread that pushes a node owns it before, and one that pops
a node owns it afterwards; the nodes on the stack have no owner, so that what owners do to their nodes does
not concern the stack.  A pop is right if the node that it unlinks still points to the node that it makes
the new head.

`Balance` compares what was pushed with what was returned, what threads have taken off the stack and not
returned yet, and what is left.
-/

open Function (update update_self update_of_ne)
open Interleaving (update_cases unique_update)

variable {Thread Node Value : Type*}

/-! ## The nodes -/

/-- The nodes `l` are on the stack, and no thread owns one of them. -/
structure Treiber (next : Node → Option Node) (head : Option Node) (owns : Thread → Option Node)
    (l : List Node) : Prop where
  linked : Linked next head l
  owned : ∀ t node, owns t = some node → node ∉ l
  unique : ∀ t u node, owns t = some node → owns u = some node → t = u

namespace Treiber

variable {next : Node → Option Node} {head : Option Node} {owns : Thread → Option Node} {l : List Node}
  {t : Thread} {node : Node}

/-- The owner of a node writes to it. -/
theorem setNext [DecidableEq Node] (h : Treiber next head owns l) (hnode : node ∉ l)
    (after : Option Node) : Treiber (update next node after) head owns l := by
  refine ⟨h.linked.congr fun x hx => ?_, h.owned, h.unique⟩
  rw [update_of_ne]
  rintro rfl
  exact hnode hx

section

variable [DecidableEq Thread]

/-- A thread gets a node that is not in use. -/
theorem acquire (h : Treiber next head owns l) (hnode : node ∉ l) (hfree : ∀ u, owns u ≠ some node) :
    Treiber next head (update owns t (some node)) l := by
  refine ⟨h.linked, fun u x hu => ?_, unique_update h.unique fun x hx u _ => ?_⟩
  · rcases update_cases hu with ⟨-, hx⟩ | ⟨-, hu⟩
    · rwa [← Option.some.inj hx]
    · exact h.owned u x hu
  · rw [← hx]
    exact hfree u

/-- A thread gives up the node that it owns. -/
theorem release (h : Treiber next head owns l) : Treiber next head (update owns t none) l := by
  refine ⟨h.linked, fun u x hu => ?_, unique_update h.unique fun x hx => nomatch hx⟩
  rcases update_cases hu with ⟨-, hx⟩ | ⟨-, hu⟩
  · cases hx
  · exact h.owned u x hu

/-- A thread pushes its node, which points to the head. -/
theorem push (h : Treiber next head owns l) (hnode : owns t = some node) (hnext : next node = head) :
    Treiber next (some node) (update owns t none) (node :: l) := by
  refine ⟨⟨rfl, by rw [hnext]; exact h.linked⟩, fun u x hu => ?_, h.release.unique⟩
  rcases update_cases hu with ⟨-, hx⟩ | ⟨hut, hu⟩
  · cases hx
  · intro hmem
    rcases List.mem_cons.mp hmem with rfl | hmem
    · exact hut (h.unique u t x hu hnode)
    · exact h.owned u x hu hmem

/-- A thread pops the head, which points to the new head. -/
theorem pop (h : Treiber next head owns l) (hhead : head = some node) :
    ∃ rest, l = node :: rest ∧ Treiber next (next node) (update owns t (some node)) rest := by
  cases l with
  | nil =>
      have hnone := h.linked
      rw [Linked.nil_iff, hhead] at hnone
      cases hnone
  | cons x rest =>
      obtain ⟨hx, hrest⟩ := h.linked
      obtain rfl : node = x := Option.some.inj (hhead.symm.trans hx)
      refine ⟨rest, rfl, ?_⟩
      have hnodup := h.linked.nodup
      have htail : Treiber next (next node) owns rest :=
        ⟨hrest, fun u y hu hmem => h.owned u y hu (List.mem_cons_of_mem _ hmem), h.unique⟩
      exact htail.acquire (List.nodup_cons.mp hnodup).1
        fun u hu => h.owned u node hu (List.mem_cons_self ..)

end

end Treiber

/-! ## The values -/

/-- What was pushed was returned, has been taken by a thread, or is left. -/
structure Balance (takes : Thread → Option Value) (takers : List Thread)
    (pushed returned left : List Value) : Prop where
  nodup : takers.Nodup
  mem_iff : ∀ t, t ∈ takers ↔ (takes t).isSome
  perm : pushed.Perm (returned ++ (takers.filterMap takes ++ left))

namespace Balance

variable {takes : Thread → Option Value} {takers : List Thread} {pushed returned left : List Value}
  {t : Thread} {value : Value}

theorem init : Balance (fun _ : Thread => (none : Option Value)) [] [] [] [] :=
  ⟨List.nodup_nil, by simp, List.Perm.refl _⟩

theorem subperm (h : Balance takes takers pushed returned left) : returned.Subperm pushed :=
  (List.sublist_append_left _ _).subperm.trans h.perm.symm.subperm

/-- If what was taken and what is left are different values, each value was returned as often as it was
pushed, or once less. -/
theorem count_le_succ [DecidableEq Value] (h : Balance takes takers pushed returned left)
    (hnodup : (takers.filterMap takes ++ left).Nodup) (value : Value) :
    pushed.count value ≤ returned.count value + 1 := by
  have hone := List.nodup_iff_count_le_one.mp hnodup value
  rw [h.perm.count_eq, List.count_append]
  omega

/-- A value is pushed. -/
theorem push (h : Balance takes takers pushed returned left) (value : Value) :
    Balance takes takers (value :: pushed) returned (value :: left) := by
  refine ⟨h.nodup, h.mem_iff, (h.perm.cons value).trans ?_⟩
  rw [← List.append_assoc, ← List.append_assoc]
  exact List.perm_middle.symm

section

variable [DecidableEq Thread]

theorem filterMap_update (h : t ∉ takers) (value : Option Value) :
    takers.filterMap (update takes t value) = takers.filterMap takes := by
  refine List.filterMap_congr fun u hu => ?_
  rw [update_of_ne]
  rintro rfl
  exact h hu

/-- A thread takes a value that was left. -/
theorem take (h : Balance takes takers pushed returned (value :: left)) (hidle : takes t = none) :
    Balance (update takes t (some value)) (t :: takers) pushed returned left := by
  have hnew : t ∉ takers := by
    rw [h.mem_iff, hidle]
    simp
  refine ⟨List.nodup_cons.mpr ⟨hnew, h.nodup⟩, fun u => ?_, h.perm.trans ?_⟩
  · by_cases hut : u = t
    · simp [hut]
    · simp [hut, h.mem_iff]
  · rw [List.filterMap_cons_some (update_self ..), filterMap_update hnew]
    exact List.perm_middle.append_left returned

/-- A thread returns the value that it has taken. -/
theorem give (h : Balance takes takers pushed returned left) (htaken : takes t = some value) :
    Balance (update takes t none) (takers.erase t) pushed (value :: returned) left := by
  have hmem : t ∈ takers := by
    rw [h.mem_iff, htaken]
    rfl
  have hnot : t ∉ takers.erase t := h.nodup.not_mem_erase
  refine ⟨h.nodup.erase t, fun u => ?_, h.perm.trans ?_⟩
  · rw [h.nodup.mem_erase_iff]
    by_cases hut : u = t
    · simp [hut]
    · simp [hut, h.mem_iff]
  · rw [filterMap_update hnot]
    have hsplit : (takers.filterMap takes).Perm (value :: (takers.erase t).filterMap takes) := by
      have hcons := (List.perm_cons_erase hmem).filterMap takes
      rwa [List.filterMap_cons_some htaken] at hcons
    exact ((hsplit.append_right left).append_left returned).trans List.perm_middle

end

end Balance

/-- Where threads own the nodes that they have taken, these and the nodes on the stack are different. -/
theorem Treiber.nodup_taken {next : Node → Option Node} {head : Option Node}
    {owns takes : Thread → Option Node} {takers : List Thread} {pushed returned l : List Node}
    (h : Treiber next head owns l) (hbalance : Balance takes takers pushed returned l)
    (htakes : ∀ t node, takes t = some node → owns t = some node) :
    (takers.filterMap takes ++ l).Nodup := by
  have htaken : (takers.filterMap takes).Nodup :=
    hbalance.nodup.filterMap fun t u node ht hu => h.unique t u node (htakes t node ht) (htakes u node hu)
  refine List.nodup_append.mpr ⟨htaken, h.linked.nodup, fun x hx y hy hxy => ?_⟩
  obtain ⟨t, -, ht⟩ := List.mem_filterMap.mp hx
  rw [hxy] at ht
  exact h.owned t y (htakes t y ht) hy
