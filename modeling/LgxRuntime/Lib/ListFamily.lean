import LgxRuntime.Lib.Linked
import Mathlib.Data.List.Basic

/-!
# Families of doubly linked lists in one store

Free lists that are indexed by a level share the forward and back pointers of their nodes.
`ListFamily next prev heads lists` says that `heads k` is the head of the doubly linked list
`lists k`, and that no node is on two lists.

The two edits are local: `ListFamily.unlink` takes a node off its list by patching the pointers on both
sides of it, `ListFamily.push` puts a node in front of a list.  The functions `unlinkNext` and so on are
the pointers after the edit; outside the list that is edited they are as before.
-/

open Function (update update_self update_of_ne)

variable {α κ : Type*} {next prev : α → Option α}
  {heads : κ → Option α} {lists : κ → List α} {a : α} {k : κ}

/-- The lists `lists k` are doubly linked from `heads k`, and disjoint. -/
structure ListFamily (next prev : α → Option α) (heads : κ → Option α) (lists : κ → List α) : Prop
    where
  linked : ∀ k, DoublyLinked next prev none (heads k) (lists k)
  disjoint : ∀ j k x, x ∈ lists j → x ∈ lists k → j = k

namespace ListFamily

theorem nodup (h : ListFamily next prev heads lists) (k : κ) : (lists k).Nodup :=
  (h.linked k).nodup

theorem congr {next' prev' : α → Option α} (h : ListFamily next prev heads lists)
    (hnext : ∀ k, ∀ x ∈ lists k, next' x = next x) (hprev : ∀ k, ∀ x ∈ lists k, prev' x = prev x) :
    ListFamily next' prev' heads lists :=
  ⟨fun k => (h.linked k).congr (hnext k) (hprev k), h.disjoint⟩

theorem mem_of_head (h : ListFamily next prev heads lists) {x : α} (hx : heads k = some x) :
    x ∈ lists k := by
  have hhead := (h.linked k).head_eq
  rw [hx] at hhead
  exact List.mem_of_mem_head? hhead.symm

theorem mem_of_prev (h : ListFamily next prev heads lists) (ha : a ∈ lists k) {x : α}
    (hx : prev a = some x) : x ∈ lists k := by
  obtain ⟨l₁, l₂, hk⟩ := List.append_of_mem ha
  have hlist := h.linked k
  rw [hk] at hlist ⊢
  have hprev := hlist.around.2.1
  rw [hx, Option.or_none] at hprev
  exact List.mem_append_left _ (List.mem_of_getLast? hprev.symm)

theorem mem_of_next (h : ListFamily next prev heads lists) (ha : a ∈ lists k) {x : α}
    (hx : next a = some x) : x ∈ lists k := by
  obtain ⟨l₁, l₂, hk⟩ := List.append_of_mem ha
  have hlist := h.linked k
  rw [hk] at hlist ⊢
  have hnext := hlist.around.2.2
  rw [hx] at hnext
  exact List.mem_append_right _ (List.mem_cons_of_mem _ (List.mem_of_mem_head? hnext.symm))

theorem prev_ne_self (h : ListFamily next prev heads lists) (ha : a ∈ lists k) :
    prev a ≠ some a := by
  intro heq
  obtain ⟨l₁, l₂, hk⟩ := List.append_of_mem ha
  have hlist := h.linked k
  rw [hk] at hlist
  have hprev := hlist.around.2.1
  rw [heq, Option.or_none] at hprev
  have hnodup := hlist.nodup
  rw [List.nodup_append] at hnodup
  exact hnodup.2.2 a (List.mem_of_getLast? hprev.symm) a (List.mem_cons_self ..) rfl

end ListFamily

/-! ## The pointers after an edit -/

variable [DecidableEq α]

/-- The forward pointers after `a` has been unlinked. -/
def unlinkNext (next prev : α → Option α) (a : α) : α → Option α :=
  match prev a with
  | some p => update next p (next a)
  | none => next

/-- The heads after `a` has been unlinked from list `k`. -/
def unlinkHeads [DecidableEq κ] (next prev : α → Option α) (heads : κ → Option α) (k : κ) (a : α) :
    κ → Option α :=
  match prev a with
  | some _ => heads
  | none => update heads k (next a)

/-- The back pointers after `a` has been unlinked. -/
def unlinkPrev (next prev : α → Option α) (a : α) : α → Option α :=
  match next a with
  | some n => update prev n (prev a)
  | none => prev

/-- The back pointers after `a` has been pushed in front of a list with the given head. -/
def pushPrev (prev : α → Option α) (head : Option α) (a : α) : α → Option α :=
  match head with
  | some x => update (update prev a none) x (some a)
  | none => update prev a none

theorem unlinkNext_of_eq {x : α} (hx : prev a = some x) : unlinkNext next prev a x = next a := by
  simp [unlinkNext, hx]

theorem unlinkNext_of_ne {x : α} (hx : prev a ≠ some x) : unlinkNext next prev a x = next x := by
  cases hp : prev a with
  | none => simp [unlinkNext, hp]
  | some p =>
      have hne : x ≠ p := fun heq => hx (heq ▸ hp)
      simp [unlinkNext, hp, update_of_ne hne]

theorem unlinkPrev_of_eq {x : α} (hx : next a = some x) : unlinkPrev next prev a x = prev a := by
  simp [unlinkPrev, hx]

theorem unlinkPrev_of_ne {x : α} (hx : next a ≠ some x) : unlinkPrev next prev a x = prev x := by
  cases hn : next a with
  | none => simp [unlinkPrev, hn]
  | some n =>
      have hne : x ≠ n := fun heq => hx (heq ▸ hn)
      simp [unlinkPrev, hn, update_of_ne hne]

theorem pushPrev_of_eq {head : Option α} {x : α} (hx : head = some x) :
    pushPrev prev head a x = some a := by
  simp [pushPrev, hx]

theorem pushPrev_self {head : Option α} (ha : head ≠ some a) : pushPrev prev head a a = none := by
  cases head with
  | none => simp [pushPrev]
  | some y =>
      have hne : a ≠ y := fun heq => ha (heq ▸ rfl)
      simp [pushPrev, update_of_ne hne]

theorem pushPrev_of_ne {head : Option α} {x : α} (hxa : x ≠ a) (hx : head ≠ some x) :
    pushPrev prev head a x = prev x := by
  cases head with
  | none => simp [pushPrev, update_of_ne hxa]
  | some y =>
      have hne : x ≠ y := fun heq => hx (heq ▸ rfl)
      simp [pushPrev, update_of_ne hne, update_of_ne hxa]

namespace ListFamily

theorem unlinkNext_of_not_mem (h : ListFamily next prev heads lists) (ha : a ∈ lists k) {x : α}
    (hx : x ∉ lists k) : unlinkNext next prev a x = next x :=
  unlinkNext_of_ne fun hp => hx (h.mem_of_prev ha hp)

theorem unlinkPrev_of_not_mem (h : ListFamily next prev heads lists) (ha : a ∈ lists k) {x : α}
    (hx : x ∉ lists k) : unlinkPrev next prev a x = prev x :=
  unlinkPrev_of_ne fun hn => hx (h.mem_of_next ha hn)

theorem pushPrev_of_not_mem (h : ListFamily next prev heads lists) {x : α} (hxa : x ≠ a)
    (hx : x ∉ lists k) : pushPrev prev (heads k) a x = prev x :=
  pushPrev_of_ne hxa fun hhead => hx (h.mem_of_head hhead)

variable [DecidableEq κ]

/-- Taking a node off its list. -/
theorem unlink (h : ListFamily next prev heads lists) (ha : a ∈ lists k) :
    ListFamily (unlinkNext next prev a) (unlinkPrev next prev a) (unlinkHeads next prev heads k a)
      (update lists k ((lists k).erase a)) := by
  obtain ⟨l₁, l₂, hk⟩ := List.append_of_mem ha
  have hnodup := h.nodup k
  have herase : (lists k).erase a = l₁ ++ l₂ := by
    rw [hk, List.nodup_append] at hnodup
    rw [hk, List.erase_append_right _ fun hmem =>
      hnodup.2.2 a hmem a (List.mem_cons_self ..) rfl, List.erase_cons_head]
  have hsub : ∀ j x, x ∈ update lists k ((lists k).erase a) j → x ∈ lists j := by
    intro j x hx
    by_cases hj : j = k
    · subst hj
      rw [update_self] at hx
      exact List.mem_of_mem_erase hx
    · rwa [update_of_ne hj] at hx
  refine ⟨fun j => ?_, fun i j x hi hj => h.disjoint i j x (hsub i x hi) (hsub j x hj)⟩
  by_cases hj : j = k
  · subst hj
    rw [update_self, herase]
    have hlist := h.linked j
    rw [hk] at hlist
    have hprev := hlist.around.2.1
    rw [Option.or_none] at hprev
    refine hlist.unlink ?_ ?_ ?_ ?_ (fun x hx => unlinkPrev_of_eq hx)
      fun x _ hx => unlinkPrev_of_ne hx
    · rintro rfl
      simp only [List.getLast?_nil] at hprev
      simp [unlinkHeads, hprev]
    · intro hne
      rw [List.getLast?_eq_some_getLast hne] at hprev
      simp [unlinkHeads, hprev]
    · exact fun x hx => unlinkNext_of_eq (hprev.trans hx)
    · exact fun x _ hx => unlinkNext_of_ne fun hp => hx (hprev.symm.trans hp)
  · have hout : ∀ x ∈ lists j, x ∉ lists k := fun x hx hxk => hj (h.disjoint j k x hx hxk)
    have hhead : unlinkHeads next prev heads k a j = heads j := by
      cases hp : prev a <;> simp [unlinkHeads, hp, update_of_ne hj]
    rw [update_of_ne hj, hhead]
    exact (h.linked j).congr (fun x hx => h.unlinkNext_of_not_mem ha (hout x hx))
      fun x hx => h.unlinkPrev_of_not_mem ha (hout x hx)

/-- Putting a node that is on no list in front of list `k`. -/
theorem push (h : ListFamily next prev heads lists) (ha : ∀ j, a ∉ lists j) (k : κ) :
    ListFamily (update next a (heads k)) (pushPrev prev (heads k) a) (update heads k (some a))
      (update lists k (a :: lists k)) := by
  have hne : ∀ j, ∀ x ∈ lists j, x ≠ a := fun j x hx heq => ha j (heq ▸ hx)
  refine ⟨fun j => ?_, fun i j x hi hj => ?_⟩
  · by_cases hj : j = k
    · subst hj
      rw [update_self, update_self]
      exact (h.linked j).push (update_self ..)
        (pushPrev_self fun hhead => ha j (h.mem_of_head hhead))
        (fun x hx => update_of_ne (hne j x hx) _ _) (fun x hx => pushPrev_of_eq hx)
        fun x hx hnot => pushPrev_of_ne (hne j x hx) hnot
    · rw [update_of_ne hj, update_of_ne hj]
      exact (h.linked j).congr (fun x hx => update_of_ne (hne j x hx) _ _) fun x hx =>
        h.pushPrev_of_not_mem (hne j x hx) fun hxk => hj (h.disjoint j k x hx hxk)
  · by_cases hxa : x = a
    · subst hxa
      have hin : ∀ {j}, x ∈ update lists k (x :: lists k) j → j = k := by
        intro j hmem
        by_contra hjk
        rw [update_of_ne hjk] at hmem
        exact ha j hmem
      rw [hin hi, hin hj]
    · have hin : ∀ {j}, x ∈ update lists k (a :: lists k) j → x ∈ lists j := by
        intro j hmem
        by_cases hjk : j = k
        · subst hjk
          rw [update_self] at hmem
          exact (List.mem_cons.mp hmem).resolve_left hxa
        · rwa [update_of_ne hjk] at hmem
      exact h.disjoint i j x (hin hi) (hin hj)

end ListFamily
