import LgxRuntime.Lib.Interleaving

/-!
# Linearization

The history of an object is what its callers see: which thread has called what, and what was returned to it.  It is
linearizable if a point can be put into every call that has returned, and into some of the others, at which the call
is decided, so that the decided calls, in the order of their points, are calls of a sequential object.

A concurrent program has a linearizable history in every reachable state if each of its steps is silent, or begins a
call, or decides one, or ends one (`follows_of_reachable`).
-/

namespace Linearization

open Function (update)

variable {Thread Call Result : Type*}

/-! ## Histories -/

/-- What the callers see. -/
inductive Event (Thread Call Result : Type*)
  | called (t : Thread) (call : Call)
  | returned (t : Thread) (result : Result)
  deriving DecidableEq

/-- What the callers see, and the points at which the calls are decided. -/
inductive Mark (Thread Call Result : Type*)
  | seen (event : Event Thread Call Result)
  | decided (t : Thread) (call : Call) (result : Result)

/-- Where a thread is: it has no call, or one that is not decided, or one that is. -/
inductive Phase (Call Result : Type*)
  | idle
  | pending (call : Call)
  | decided (result : Result)

/-- What the callers see of a mark. -/
def Mark.event? : Mark Thread Call Result → Option (Event Thread Call Result)
  | .seen event => some event
  | .decided _ _ _ => none

/-- What is decided at a mark. -/
def Mark.decision? : Mark Thread Call Result → Option (Call × Result)
  | .seen _ => none
  | .decided _ call result => some (call, result)

variable [DecidableEq Thread]

/-- Every thread does one call after the other, and each is decided once, between its call and its return.  The latest
mark comes first. -/
inductive Marked : List (Mark Thread Call Result) → (Thread → Phase Call Result) → Prop
  | nil : Marked [] fun _ => .idle
  | called {marks phase} (t : Thread) (call : Call) (h : Marked marks phase) (hphase : phase t = .idle) :
      Marked (.seen (.called t call) :: marks) (update phase t (.pending call))
  | decided {marks phase} (t : Thread) (call : Call) (result : Result) (h : Marked marks phase)
      (hphase : phase t = .pending call) :
      Marked (.decided t call result :: marks) (update phase t (.decided result))
  | returned {marks phase} (t : Thread) (result : Result) (h : Marked marks phase)
      (hphase : phase t = .decided result) :
      Marked (.seen (.returned t result) :: marks) (update phase t .idle)

/-- Points can be put into the calls so that the sequential object allows what is decided at them. -/
def Linearizable (legal : List (Call × Result) → Prop) (history : List (Event Thread Call Result)) : Prop :=
  ∃ marks phase, Marked marks phase ∧ marks.filterMap Mark.event? = history ∧ legal (marks.filterMap Mark.decision?)

/-! ## Programs -/

/-- The phases, the history and the decisions, before and after a step. -/
inductive Progress (phase : Thread → Phase Call Result) (history : List (Event Thread Call Result))
    (decisions : List (Call × Result)) :
    (Thread → Phase Call Result) → List (Event Thread Call Result) → List (Call × Result) → Prop
  | silent : Progress phase history decisions phase history decisions
  | called (t : Thread) (call : Call) (hphase : phase t = .idle) :
      Progress phase history decisions (update phase t (.pending call)) (.called t call :: history) decisions
  | decided (t : Thread) (call : Call) (result : Result) (hphase : phase t = .pending call) :
      Progress phase history decisions (update phase t (.decided result)) history ((call, result) :: decisions)
  | returned (t : Thread) (result : Result) (hphase : phase t = .decided result) :
      Progress phase history decisions (update phase t .idle) (.returned t result :: history) decisions

/-- There are points for the history of the state, and an invariant that knows the decisions. -/
def Follows {State : Type*} (phase : State → Thread → Phase Call Result)
    (history : State → List (Event Thread Call Result)) (inv : List (Call × Result) → State → Prop) (s : State) :
    Prop :=
  ∃ marks, Marked marks (phase s) ∧ marks.filterMap Mark.event? = history s ∧ inv (marks.filterMap Mark.decision?) s

variable {State Action : Type*} {init : State → Prop} {step : State → Action → Option State}
  {allowed : State → Action → Prop} {phase : State → Thread → Phase Call Result}
  {history : State → List (Event Thread Call Result)} {inv : List (Call × Result) → State → Prop}

theorem Follows.progress {s s' : State} {decisions decisions' : List (Call × Result)}
    {marks : List (Mark Thread Call Result)} (hmarked : Marked marks (phase s))
    (hhistory : marks.filterMap Mark.event? = history s) (hdecisions : marks.filterMap Mark.decision? = decisions)
    (hprogress : Progress (phase s) (history s) decisions (phase s') (history s') decisions')
    (hinv : inv decisions' s') : Follows phase history inv s' := by
  generalize hphase' : phase s' = phase' at hprogress
  generalize hhistory' : history s' = history' at hprogress
  cases hprogress with
  | silent => exact ⟨marks, hphase' ▸ hmarked, hhistory.trans hhistory'.symm, hdecisions ▸ hinv⟩
  | called t call hidle =>
      refine ⟨_, hphase' ▸ hmarked.called t call hidle, ?_, ?_⟩
      · change Event.called t call :: marks.filterMap Mark.event? = history s'
        rw [hhistory, hhistory']
      · change inv (marks.filterMap Mark.decision?) s'
        rwa [hdecisions]
  | decided t call result hpending =>
      refine ⟨.decided t call result :: marks, hphase' ▸ hmarked.decided t call result hpending, ?_, ?_⟩
      · exact hhistory.trans hhistory'.symm
      · change inv ((call, result) :: marks.filterMap Mark.decision?) s'
        rwa [hdecisions]
  | returned t result hdecided =>
      refine ⟨_, hphase' ▸ hmarked.returned t result hdecided, ?_, ?_⟩
      · change Event.returned t result :: marks.filterMap Mark.event? = history s'
        rw [hhistory, hhistory']
      · change inv (marks.filterMap Mark.decision?) s'
        rwa [hdecisions]

/-- If every step makes progress and keeps the invariant, there are points for every history. -/
theorem follows_of_reachable {s : State} (hreach : Interleaving.Reachable init step allowed s)
    (hinit : ∀ s, init s → phase s = (fun _ => .idle) ∧ history s = [] ∧ inv [] s)
    (hstep : ∀ s s' a decisions, inv decisions s → allowed s a → step s a = some s' →
      ∃ decisions', Progress (phase s) (history s) decisions (phase s') (history s') decisions' ∧ inv decisions' s') :
    Follows phase history inv s := by
  apply hreach.invariant
  · intro s hs
    obtain ⟨hphase, hhistory, hinv⟩ := hinit s hs
    exact ⟨[], hphase ▸ .nil, hhistory.symm, hinv⟩
  · rintro s s' a ⟨marks, hmarked, hhistory, hinv⟩ hallowed hs
    obtain ⟨decisions', hprogress, hinv'⟩ := hstep s s' a _ hinv hallowed hs
    exact Follows.progress hmarked hhistory rfl hprogress hinv'

/-- Points for the history make it linearizable. -/
theorem Follows.linearizable {legal : List (Call × Result) → Prop} {s : State} (h : Follows phase history inv s)
    (hlegal : ∀ decisions, inv decisions s → legal decisions) : Linearizable legal (history s) := by
  obtain ⟨marks, hmarked, hhistory, hinv⟩ := h
  exact ⟨marks, _, hmarked, hhistory, hlegal _ hinv⟩

end Linearization
