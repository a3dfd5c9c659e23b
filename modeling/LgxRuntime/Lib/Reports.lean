import Mathlib.Data.List.Basic

/-!
# Steps that report

A step has a new state and reports some events.  An observer sees the events one after the other and forms an idea
of the state; a step is told in full if the observer whose idea was right before is right again.  Steps that are told
in full can be done one after the other.
-/

namespace Reports

variable {State Event Idea Item : Type*}

/-- One step, and then another. -/
def andThen (first second : State → State × List Event) (s : State) : State × List Event :=
  ((second (first s).1).1, (first s).2 ++ (second (first s).1).2)

/-- A step for each item. -/
def forEach (step : Item → State → State × List Event) : List Item → State → State × List Event
  | [], s => (s, [])
  | item :: items, s => andThen (step item) (forEach step items) s

/-- What an observer who sees the events of the step takes the state for, is the state again. -/
def Told (idea : State → Idea) (see : Idea → Event → Idea) (step : State → State × List Event) : Prop :=
  ∀ s, (step s).2.foldl see (idea s) = idea (step s).1

variable {idea : State → Idea} {see : Idea → Event → Idea} {step first second : State → State × List Event}

theorem Told.andThen (hfirst : Told idea see first) (hsecond : Told idea see second) :
    Told idea see (andThen first second) := by
  intro s
  calc (Reports.andThen first second s).2.foldl see (idea s)
      = (second (first s).1).2.foldl see ((first s).2.foldl see (idea s)) := List.foldl_append
    _ = (second (first s).1).2.foldl see (idea (first s).1) := by rw [hfirst s]
    _ = idea (second (first s).1).1 := hsecond _

theorem Told.forEach {step : Item → State → State × List Event} (hstep : ∀ item, Told idea see (step item))
    (items : List Item) : Told idea see (forEach step items) := by
  induction items with
  | nil => exact fun _ => rfl
  | cons item items ih => exact (hstep item).andThen ih

/-- A step of which the observer need not know. -/
theorem told_of_silent (hidea : ∀ s, idea (step s).1 = idea s) (hsilent : ∀ s, (step s).2 = []) :
    Told idea see step := by
  intro s
  rw [hsilent, hidea]
  rfl

/-- What the steps for some items do to a part of the state that each step handles by itself. -/
theorem forEach_fst {Part : Type*} (part : State → Part) (handle : Part → Item → Part)
    {step : Item → State → State × List Event} (hstep : ∀ item s, part (step item s).1 = handle (part s) item)
    (items : List Item) (s : State) : part (forEach step items s).1 = items.foldl handle (part s) := by
  induction items generalizing s with
  | nil => rfl
  | cons item items ih =>
      change part (forEach step items (step item s).1).1 = _
      rw [ih, hstep]
      rfl

end Reports
