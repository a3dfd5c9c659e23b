import Mathlib.Logic.Function.Basic

/-!
# Interleavings

A concurrent program is a step function on a shared state: an action says which thread moves, and what
the outside decides for it.  An interleaving is a sequence of actions.  The states that interleavings
reach are collected in `Reachable`, under a condition on every action in the state before it.
-/

namespace Interleaving

variable {State Action : Type*}

/-- The states that are reached from an initial one by allowed actions. -/
inductive Reachable (init : State → Prop) (step : State → Action → Option State)
    (allowed : State → Action → Prop) : State → Prop
  | init {s : State} (h : init s) : Reachable init step allowed s
  | step {s s' : State} (a : Action) (hreach : Reachable init step allowed s) (hallowed : allowed s a)
      (hstep : step s a = some s') : Reachable init step allowed s'

variable {init : State → Prop} {step : State → Action → Option State}
  {allowed : State → Action → Prop}

/-- What holds initially and is kept by every step holds in every reachable state. -/
theorem Reachable.invariant {I : State → Prop} {s : State} (h : Reachable init step allowed s)
    (hinit : ∀ s, init s → I s)
    (hstep : ∀ s s' a, I s → allowed s a → step s a = some s' → I s') : I s := by
  induction h with
  | init h => exact hinit _ h
  | step a _ hallowed hs ih => exact hstep _ _ a ih hallowed hs

/-- An interleaving, action by action. -/
def run (step : State → Action → Option State) : List Action → State → Option State
  | [], s => some s
  | a :: actions, s => (step s a).bind (run step actions)

theorem run_append {s s₁ s₂ : State} {actions actions' : List Action}
    (h : run step actions s = some s₁) (h' : run step actions' s₁ = some s₂) :
    run step (actions ++ actions') s = some s₂ := by
  induction actions generalizing s with
  | nil =>
      obtain rfl := Option.some.inj h
      exact h'
  | cons a actions ih =>
      obtain ⟨s', hstep, hrest⟩ := Option.bind_eq_some_iff.mp h
      exact Option.bind_eq_some_iff.mpr ⟨s', hstep, ih hrest⟩

/-- An interleaving of actions that are always allowed. -/
theorem Reachable.run {s s' : State} {actions : List Action} (h : Reachable init step allowed s)
    (hallowed : ∀ s a, allowed s a) (hrun : run step actions s = some s') :
    Reachable init step allowed s' := by
  induction actions generalizing s with
  | nil =>
      obtain rfl := Option.some.inj hrun
      exact h
  | cons a actions ih =>
      obtain ⟨s₁, hstep, hrest⟩ := Option.bind_eq_some_iff.mp hrun
      exact ih (h.step a (hallowed s a) hstep) hrest

/-- A step that is checked first. -/
def guarded (step : State → Action → Option State) (check : State → Action → Bool) (s : State)
    (a : Action) : Option State :=
  if check s a then step s a else none

/-- An interleaving whose actions are checked one by one. -/
theorem Reachable.run_guarded {check : State → Action → Bool} {s s' : State} {actions : List Action}
    (h : Reachable init step allowed s)
    (hcheck : ∀ s a, Reachable init step allowed s → check s a = true → allowed s a)
    (hrun : Interleaving.run (guarded step check) actions s = some s') :
    Reachable init step allowed s' := by
  induction actions generalizing s with
  | nil =>
      obtain rfl := Option.some.inj hrun
      exact h
  | cons a actions ih =>
      obtain ⟨s₁, hstep, hrest⟩ := Option.bind_eq_some_iff.mp hrun
      obtain ⟨hchecked, hstep⟩ := Option.ite_none_right_eq_some.mp hstep
      exact ih (h.step a (hcheck s a h hchecked) hstep) hrest

/-- A state with a given outcome, which an interleaving reaches whose actions are checked one by one. -/
theorem Reachable.exists_of_run_guarded {Value : Type*} {check : State → Action → Bool} {s : State}
    {actions : List Action} {f : State → Value} {value : Value} (h : Reachable init step allowed s)
    (hcheck : ∀ s a, Reachable init step allowed s → check s a = true → allowed s a)
    (hresult : (Interleaving.run (guarded step check) actions s).map f = some value) :
    ∃ s', Reachable init step allowed s' ∧ f s' = value := by
  obtain ⟨s', hrun, hvalue⟩ := Option.map_eq_some_iff.mp hresult
  exact ⟨s', h.run_guarded hcheck hrun, hvalue⟩

/-! ## Threads -/

section

open Function (update update_self update_of_ne)

variable {Thread Place Value : Type*} [DecidableEq Thread] {pc : Thread → Place} {t u : Thread}
  {pc' : Place}

/-- What the threads have, after one of them has moved on. -/
theorem comp_update (f : Place → Value) :
    (fun u => f (update pc t pc' u)) = update (fun u => f (pc u)) t (f pc') :=
  funext fun u => Function.apply_update (fun _ => f) pc t pc' u

theorem comp_update_self {f : Place → Value} (hf : f pc' = f (pc t)) :
    (fun u => f (update pc t pc' u)) = fun u => f (pc u) := by
  rw [comp_update f, hf]
  exact Function.update_eq_self t fun u => f (pc u)

theorem apply_update_self {f : Place → Value} (hf : f pc' = f (pc t)) (u : Thread) :
    f (update pc t pc' u) = f (pc u) :=
  congrFun (comp_update_self hf) u

theorem apply_eq_of_update {pc₂ : Thread → Place} {f : Place → Value} (hpc : pc₂ = update pc t pc')
    (hf : f pc' = f (pc t)) (u : Thread) : f (pc₂ u) = f (pc u) := by
  rw [hpc]
  exact apply_update_self hf u

/-- What holds of every thread, after one of them has moved on. -/
theorem forall_update {P Q : Thread → Place → Prop} (h : ∀ u, P u (pc u))
    (hother : ∀ u, u ≠ t → P u (pc u) → Q u (pc u)) (hself : Q t pc') (u : Thread) :
    Q u (update pc t pc' u) := by
  by_cases hut : u = t
  · rw [hut, update_self]
    exact hself
  · rw [update_of_ne hut]
    exact hother u hut (h u)

/-- What a thread has is new if it is the one that has moved on, and otherwise what it had. -/
theorem update_cases {has : Thread → Value} {new value : Value} (h : update has t new u = value) :
    (u = t ∧ new = value) ∨ (u ≠ t ∧ has u = value) := by
  by_cases hut : u = t
  · rw [hut, update_self] at h
    exact Or.inl ⟨hut, h⟩
  · rw [update_of_ne hut] at h
    exact Or.inr ⟨hut, h⟩

theorem apply_update_cases {f : Place → Value} {value : Value} (h : f (update pc t pc' u) = value) :
    (u = t ∧ f pc' = value) ∨ (u ≠ t ∧ f (pc u) = value) :=
  update_cases ((congrFun (comp_update f) u).symm.trans h)

/-- A thread that has nothing has nothing of the wrong kind. -/
theorem of_eq_none {has : Option Value} {P : Value → Prop} (hnone : has = none) (value : Value)
    (h : has = some value) : P value := by
  rw [hnone] at h
  cases h

/-- Who has a value does not change if the thread that moves on does not have it before or afterwards. -/
theorem apply_update_iff {f : Place → Value} {value : Value} (hold : f (pc t) ≠ value)
    (hnew : f pc' ≠ value) (u : Thread) : f (update pc t pc' u) = value ↔ f (pc u) = value := by
  by_cases hut : u = t
  · rw [hut, update_self]
    exact iff_of_false hnew hold
  · rw [update_of_ne hut]

/-- A thread that is somewhere was there before, unless it is the one that has moved there. -/
theorem of_update {P : Place → Prop} (hnew : ¬ P pc') (h : P (update pc t pc' u)) : P (pc u) := by
  by_cases hut : u = t
  · rw [hut, update_self] at h
    exact absurd h hnew
  · rwa [update_of_ne hut] at h

/-- A thread that is somewhere stays there if the one that moves on was not there. -/
theorem update_of_not {P : Place → Prop} (hold : ¬ P (pc t)) (h : P (pc u)) : P (update pc t pc' u) := by
  have hut : u ≠ t := fun heq => hold (heq ▸ h)
  rwa [update_of_ne hut]

/-- Only the thread that moves on can be somewhere where no other thread was. -/
theorem eq_of_update {P : Place → Prop} (hothers : ∀ u, u ≠ t → ¬ P (pc u)) (h : P (update pc t pc' u)) :
    u = t := by
  by_contra hut
  rw [update_of_ne hut] at h
  exact hothers u hut h

/-- Nobody is where only the thread was that has moved on to another place. -/
theorem not_update {P : Place → Prop} (hothers : ∀ u, u ≠ t → ¬ P (pc u)) (hnew : ¬ P pc') (u : Thread) :
    ¬ P (update pc t pc' u) := by
  intro h
  obtain rfl := eq_of_update hothers h
  rw [update_self] at h
  exact hnew h

/-- A value stays with one thread if nobody else has what the thread that moves on gets. -/
theorem unique_update {has : Thread → Option Value} {new : Option Value}
    (hunique : ∀ u v value, has u = some value → has v = some value → u = v)
    (hnew : ∀ value, new = some value → ∀ u, u ≠ t → has u ≠ some value) (u v : Thread) (value : Value)
    (hu : update has t new u = some value) (hv : update has t new v = some value) : u = v := by
  rcases update_cases hu with ⟨hut, hgot⟩ | ⟨hut, hu⟩
  · rcases update_cases hv with ⟨hvt, -⟩ | ⟨hvt, hv⟩
    · rw [hut, hvt]
    · exact absurd hv (hnew value hgot v hvt)
  · rcases update_cases hv with ⟨-, hgot⟩ | ⟨-, hv⟩
    · exact absurd hu (hnew value hgot u hut)
    · exact hunique u v value hu hv

theorem apply_unique_update {f : Place → Option Value}
    (hunique : ∀ u v value, f (pc u) = some value → f (pc v) = some value → u = v)
    (hnew : ∀ value, f pc' = some value → ∀ u, u ≠ t → f (pc u) ≠ some value) (u v : Thread)
    (value : Value) (hu : f (update pc t pc' u) = some value) (hv : f (update pc t pc' v) = some value) :
    u = v :=
  unique_update hunique hnew u v value ((congrFun (comp_update f) u).symm.trans hu)
    ((congrFun (comp_update f) v).symm.trans hv)

end

end Interleaving
