import Mathlib.Data.List.Nodup
import Mathlib.Logic.Function.Basic
import Mathlib.Order.Basic

/-!
# Linked lists in a store

`Linked next head l` says that following `next` from `head` visits exactly the nodes of `l` and then
stops.  It is a relation between the pointers of a store and an ordinary list, so what a piece of
pointer surgery does is said by the list it leads to.  A node is visited at most once
(`Linked.nodup`), because what follows it is determined by its pointer.

`DoublyLinked next prev before head l` says in addition that the back pointers are right: each node
points back to the node before it, the first one to `before`.
-/

variable {α : Type*} {next next' prev prev' : α → Option α} {head before : Option α} {a p : α}
  {l l₁ l₂ : List α}

/-- Following `next` from `head` visits exactly the nodes of `l`. -/
def Linked (next : α → Option α) : Option α → List α → Prop
  | head, [] => head = none
  | head, a :: l => head = some a ∧ Linked next (next a) l

namespace Linked

@[simp] theorem nil_iff : Linked next head [] ↔ head = none := Iff.rfl

@[simp] theorem cons_iff : Linked next head (a :: l) ↔ head = some a ∧ Linked next (next a) l :=
  Iff.rfl

theorem congr (h : Linked next head l) (hnext : ∀ x ∈ l, next' x = next x) :
    Linked next' head l := by
  induction l generalizing head with
  | nil => exact h
  | cons x l ih =>
      refine ⟨h.1, ?_⟩
      rw [hnext x (List.mem_cons_self ..)]
      exact ih h.2 fun y hy => hnext y (List.mem_cons_of_mem _ hy)

/-- A store holds at most one list from a given head. -/
theorem unique (h₁ : Linked next head l₁) (h₂ : Linked next head l₂) : l₁ = l₂ := by
  induction l₁ generalizing head l₂ with
  | nil =>
      cases l₂ with
      | nil => rfl
      | cons y l₂ =>
          rw [nil_iff] at h₁
          simp [h₁] at h₂
  | cons x l₁ ih =>
      cases l₂ with
      | nil =>
          rw [nil_iff] at h₂
          simp [h₂] at h₁
      | cons y l₂ =>
          obtain rfl : x = y := Option.some.inj (h₁.1.symm.trans h₂.1)
          rw [ih h₁.2 h₂.2]

theorem of_append (h : Linked next head (l₁ ++ a :: l₂)) : Linked next (next a) l₂ := by
  induction l₁ generalizing head with
  | nil => exact h.2
  | cons x l₁ ih => exact ih h.2

/-- A list reached through pointers has no repetitions. -/
theorem nodup (h : Linked next head l) : l.Nodup := by
  induction l generalizing head with
  | nil => exact List.nodup_nil
  | cons x l ih =>
      refine List.nodup_cons.mpr ⟨fun hmem => ?_, ih h.2⟩
      obtain ⟨l₁, l₂, rfl⟩ := List.append_of_mem hmem
      have hlen := congrArg List.length (h.2.unique (of_append h.2))
      simp only [List.length_append, List.length_cons] at hlen
      omega

/-- Unlinking the node after `p` by writing `p`'s pointer. -/
theorem bypass (h : Linked next head (l₁ ++ p :: a :: l₂)) (hp : next' p = next a)
    (hother : ∀ x, x ≠ p → next' x = next x) : Linked next' head (l₁ ++ p :: l₂) := by
  have hnodup := h.nodup
  induction l₁ generalizing head with
  | nil =>
      obtain ⟨hhead, hnext, htail⟩ := h
      refine ⟨hhead, ?_⟩
      rw [hp]
      refine htail.congr fun x hx => hother x ?_
      rintro rfl
      simp [hx] at hnodup
  | cons x l₁ ih =>
      have hne : x ≠ p := by
        rintro rfl
        simp at hnodup
      refine ⟨h.1, ?_⟩
      rw [hother x hne]
      exact ih h.2 (List.nodup_cons.mp hnodup).2

theorem head_eq (h : Linked next head l) : head = l.head? := by
  cases l with
  | nil => exact h
  | cons x l => exact h.1

theorem mem_of_next (h : Linked next head l) (ha : a ∈ l) {x : α} (hx : next a = some x) : x ∈ l := by
  obtain ⟨l₁, l₂, rfl⟩ := List.append_of_mem ha
  have htail := h.of_append.head_eq
  rw [hx] at htail
  exact List.mem_append_right _ (List.mem_cons_of_mem _ (List.mem_of_mem_head? htail.symm))

/-! A loop that unlinks nodes on its way holds the place of a link: the head pointer before it has passed
a node, and the link of the last node that it has passed afterwards. -/

/-- The link behind the nodes `l₁` leads to the rest of the list. -/
theorem load_eq (h : Linked next head (l₁ ++ l₂)) : l₁.getLast?.elim head next = l₂.head? := by
  cases hlast : l₁.getLast? with
  | none =>
      rw [List.getLast?_eq_none_iff] at hlast
      subst hlast
      exact h.head_eq
  | some p =>
      obtain ⟨l, rfl⟩ := List.getLast?_eq_some_iff.mp hlast
      rw [List.append_assoc] at h
      exact h.of_append.head_eq

/-- Unlinking the node behind `l₁` by writing the link that leads to it. -/
theorem store [DecidableEq α] {head' : Option α} (h : Linked next head (l₁ ++ a :: l₂))
    (hhead : head' = if l₁.getLast? = none then next a else head)
    (hnext : ∀ x ∈ l₁ ++ l₂, next' x = if l₁.getLast? = some x then next a else next x) :
    Linked next' head' (l₁ ++ l₂) := by
  have hnodup := h.nodup
  cases hlast : l₁.getLast? with
  | none =>
      rw [hlast] at hhead hnext
      rw [List.getLast?_eq_none_iff] at hlast
      subst hlast
      rw [hhead, if_pos rfl]
      exact h.2.congr fun x hx => (hnext x hx).trans (if_neg (by simp))
  | some p =>
      rw [hlast] at hhead hnext
      obtain ⟨l, rfl⟩ := List.getLast?_eq_some_iff.mp hlast
      rw [hhead, if_neg (by simp)]
      rw [List.append_assoc] at h ⊢
      have hbypass : Linked (fun x => if x = p then next a else next x) head (l ++ p :: l₂) :=
        h.bypass (if_pos rfl) fun x hx => if_neg hx
      refine hbypass.congr fun x hx => ?_
      rw [hnext x (by simpa using hx)]
      by_cases hxp : x = p
      · simp [hxp]
      · simp [hxp, Ne.symm hxp]

end Linked

/-- Following `next` from `head` visits exactly the nodes of `l`, and each node points back to the one
before it, the first one to `before`. -/
def DoublyLinked (next prev : α → Option α) : Option α → Option α → List α → Prop
  | _, head, [] => head = none
  | before, head, a :: l =>
      head = some a ∧ prev a = before ∧ DoublyLinked next prev (some a) (next a) l

namespace DoublyLinked

@[simp] theorem nil_iff : DoublyLinked next prev before head [] ↔ head = none := Iff.rfl

@[simp] theorem cons_iff : DoublyLinked next prev before head (a :: l) ↔
    head = some a ∧ prev a = before ∧ DoublyLinked next prev (some a) (next a) l :=
  Iff.rfl

theorem linked (h : DoublyLinked next prev before head l) : Linked next head l := by
  induction l generalizing before head with
  | nil => exact h
  | cons x l ih => exact ⟨h.1, ih h.2.2⟩

theorem nodup (h : DoublyLinked next prev before head l) : l.Nodup :=
  h.linked.nodup

theorem head_eq (h : DoublyLinked next prev before head l) : head = l.head? :=
  h.linked.head_eq

theorem congr (h : DoublyLinked next prev before head l) (hnext : ∀ x ∈ l, next' x = next x)
    (hprev : ∀ x ∈ l, prev' x = prev x) : DoublyLinked next' prev' before head l := by
  induction l generalizing before head with
  | nil => exact h
  | cons x l ih =>
      refine ⟨h.1, ?_, ?_⟩
      · rw [hprev x (List.mem_cons_self ..)]
        exact h.2.1
      · rw [hnext x (List.mem_cons_self ..)]
        exact ih h.2.2 (fun y hy => hnext y (List.mem_cons_of_mem _ hy))
          fun y hy => hprev y (List.mem_cons_of_mem _ hy)

/-- The node before the list is replaced by writing the back pointer of its first node. -/
theorem rebase {before' : Option α} (h : DoublyLinked next prev before head l)
    (hnext : ∀ x ∈ l, next' x = next x) (hfirst : ∀ x, head = some x → prev' x = before')
    (hprev : ∀ x ∈ l, head ≠ some x → prev' x = prev x) :
    DoublyLinked next' prev' before' head l := by
  have hnodup := h.nodup
  cases l with
  | nil => exact h
  | cons x l =>
      obtain ⟨hhead, -, htail⟩ := h
      refine ⟨hhead, hfirst x hhead, ?_⟩
      rw [hnext x (List.mem_cons_self ..)]
      refine htail.congr (fun y hy => hnext y (List.mem_cons_of_mem _ hy)) fun y hy => ?_
      refine hprev y (List.mem_cons_of_mem _ hy) ?_
      rw [hhead]
      rintro heq
      cases heq
      exact (List.nodup_cons.mp hnodup).1 hy

/-- A list with a node in the middle: the pointers around that node. -/
theorem around (h : DoublyLinked next prev before head (l₁ ++ a :: l₂)) :
    (l₁ = [] → head = some a) ∧ prev a = (l₁.getLast?).or before ∧ next a = l₂.head? := by
  induction l₁ generalizing before head with
  | nil =>
      obtain ⟨hhead, hprev, htail⟩ := h
      exact ⟨fun _ => hhead, by simpa using hprev, htail.head_eq⟩
  | cons x l₁ ih =>
      obtain ⟨-, -, htail⟩ := h
      obtain ⟨-, hprev, hnext⟩ := ih htail
      refine ⟨by simp, ?_, hnext⟩
      rw [hprev]
      cases l₁ with
      | nil => simp
      | cons y l₁ =>
          rw [List.getLast?_cons_cons, List.getLast?_eq_some_getLast (List.cons_ne_nil y l₁)]
          rfl

/-- Unlinking a node: its predecessor (or the head) takes over its forward pointer, its successor its
back pointer, and every other pointer on the list stays. -/
theorem unlink {head' : Option α} (h : DoublyLinked next prev before head (l₁ ++ a :: l₂))
    (hhead : l₁ = [] → head' = next a) (hhead' : l₁ ≠ [] → head' = head)
    (hnextPred : ∀ x, l₁.getLast? = some x → next' x = next a)
    (hnextOther : ∀ x ∈ l₁ ++ l₂, l₁.getLast? ≠ some x → next' x = next x)
    (hprevSucc : ∀ x, next a = some x → prev' x = prev a)
    (hprevOther : ∀ x ∈ l₁ ++ l₂, next a ≠ some x → prev' x = prev x) :
    DoublyLinked next' prev' before head' (l₁ ++ l₂) := by
  have hnodup := h.nodup
  induction l₁ generalizing before head head' with
  | nil =>
      obtain ⟨-, hprev, htail⟩ := h
      rw [hhead rfl]
      refine htail.rebase (fun x hx => hnextOther x hx (by simp)) (fun x hx => ?_)
        fun x hx hne => hprevOther x hx hne
      rw [hprevSucc x hx, hprev]
  | cons y l₁ ih =>
      obtain ⟨hy, hprevy, htail⟩ := h
      have hnodup' := (List.nodup_cons.mp hnodup).2
      have hfresh : y ∉ l₁ ++ a :: l₂ := (List.nodup_cons.mp hnodup).1
      have hnextne : next a ≠ some y := by
        intro heq
        have hsucc := (around htail).2.2
        rw [heq] at hsucc
        refine hfresh (List.mem_append_right _ (List.mem_cons_of_mem _ ?_))
        exact List.mem_of_mem_head? (by rw [← hsucc, Option.mem_def])
      refine ⟨(hhead' (by simp)).trans hy, ?_, ?_⟩
      · rw [hprevOther y (by simp) hnextne]
        exact hprevy
      · cases l₁ with
        | nil =>
            have hya : next' y = next a := hnextPred y (by simp)
            refine ih htail (fun _ => hya) (fun hne => absurd rfl hne) (by simp) ?_ ?_ hnodup'
            · intro x hx _
              refine hnextOther x (List.mem_cons_of_mem _ hx) ?_
              rintro heq
              simp only [List.getLast?_singleton, Option.some.injEq] at heq
              subst heq
              exact hfresh (by simpa using Or.inr hx)
            · exact fun x hx => hprevOther x (List.mem_cons_of_mem _ hx)
        | cons z l₁ =>
            have hyne : (y :: z :: l₁).getLast? ≠ some y := by
              intro heq
              refine hfresh (List.mem_append_left _ (List.mem_of_getLast? ?_))
              rwa [List.getLast?_cons_cons] at heq
            rw [hnextOther y (by simp) hyne]
            refine ih htail (by simp) (fun _ => rfl) ?_ ?_ ?_ hnodup'
            · exact fun x hx => hnextPred x (by rwa [List.getLast?_cons_cons])
            · exact fun x hx hne => hnextOther x (List.mem_cons_of_mem _ hx)
                (by rwa [List.getLast?_cons_cons])
            · exact fun x hx => hprevOther x (List.mem_cons_of_mem _ hx)

/-- Pushing a node: it points to the old head, whose back pointer is set to it. -/
theorem push (h : DoublyLinked next prev none head l) (hnexta : next' a = head)
    (hpreva : prev' a = none) (hnext : ∀ x ∈ l, next' x = next x)
    (hfirst : ∀ x, head = some x → prev' x = some a)
    (hprev : ∀ x ∈ l, head ≠ some x → prev' x = prev x) :
    DoublyLinked next' prev' none (some a) (a :: l) := by
  refine ⟨rfl, hpreva, ?_⟩
  rw [hnexta]
  exact h.rebase hnext hfirst hprev

end DoublyLinked
