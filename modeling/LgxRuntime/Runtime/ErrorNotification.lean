import LgxRuntime.Runtime.ErrorHandler
import Mathlib.Data.List.Induction

/-!
# Who is notified of an error

A callback that is registered while the runtime is initialised is kept in both places and is called twice
for each error, until the runtime is shut down or another callback is registered.  In all other cases the
callback registered last is called once, and never any other.
-/

namespace LgxRuntime.ErrorHandler

variable {Thread Callback UserData : Type} [DecidableEq Thread]
  {s s' : State Thread Callback UserData} {events : List (Event Thread Callback UserData)}
  {e : Event Thread Callback UserData}

/-! ## The history -/

theorem after_concat (h : after (events ++ [e]) = some s') : ∃ s, after events = some s ∧ step s e = some s' := by
  rw [after, List.foldlM_append, Option.bind_eq_bind, Option.bind_eq_some_iff] at h
  obtain ⟨s, hs, hstep⟩ := h
  exact ⟨s, hs, by simpa using hstep⟩

omit [DecidableEq Thread] in
theorem registered_concat :
    registered (events ++ [e]) =
      match e with
      | .setErrorHandler r => r
      | _ => registered events := by
  rw [registered, List.foldl_append]
  rfl

omit [DecidableEq Thread] in
theorem initialised_concat :
    Initialised (events ++ [e]) ↔ e = .init ∨ Initialised events ∧ e ≠ .shutdown :=
  History.since_concat

omit [DecidableEq Thread] in
theorem registeredTwice_concat :
    RegisteredTwice (events ++ [e]) ↔
      (Initialised events ∧ ∃ r, e = .setErrorHandler r ∧ r.callback ≠ none) ∨
        RegisteredTwice events ∧ e.IsReport :=
  History.since_concat

/-! ## The two places -/

/-- What the two places hold after some calls: the process-wide variable holds the last registration, and the
handler exists while the runtime is initialised, holds it as well if it came after the initialisation, and
is empty otherwise. -/
structure Follows (s : State Thread Callback UserData) (events : List (Event Thread Callback UserData)) :
    Prop where
  globalCallback : s.globalCallback = registered events
  initialized : s.initialized = true ↔ Initialised events
  errorHandler : s.errorHandler.isSome = s.initialized
  own : ∀ r, s.errorHandler = some r → r.callback ≠ none → r = registered events
  registeredTwice : RegisteredTwice events ↔ ∃ r, s.errorHandler = some r ∧ r.callback ≠ none

omit [DecidableEq Thread] in
theorem follows_start : Follows (start : State Thread Callback UserData) [] where
  globalCallback := rfl
  initialized := by simp [start, Initialised, History.not_since_nil]
  errorHandler := rfl
  own := by simp [start]
  registeredTwice := by simp [start, RegisteredTwice, History.not_since_nil]

/-- One call keeps the two places in step with the history. -/
theorem Follows.step (h : Follows s events) (hstep : step s e = some s') : Follows s' (events ++ [e]) := by
  cases e with
  | setErrorHandler r =>
      obtain rfl := Option.some.inj hstep
      constructor
      · rw [registered_concat]
        rfl
      · simp [initialised_concat, State.lgxSetErrorHandler, h.initialized]
      · simp [State.lgxSetErrorHandler, h.errorHandler]
      · intro r' hr' _
        obtain ⟨_, _, rfl⟩ := Option.map_eq_some_iff.mp hr'
        rw [registered_concat]
      · have hsome : Initialised events ↔ ∃ old, s.errorHandler = some old := by
          rw [← h.initialized, ← h.errorHandler, Option.isSome_iff_exists]
        simp only [registeredTwice_concat, hsome, Event.IsReport, State.lgxSetErrorHandler,
          Option.map_eq_some_iff, Event.setErrorHandler.injEq, and_false, or_false]
        grind
  | init =>
      obtain ⟨hinit, ⟨⟩⟩ := Option.ite_none_left_eq_some.mp hstep
      constructor
      · rw [registered_concat]
        exact h.globalCallback
      · simp [initialised_concat]
      · rfl
      · rintro r ⟨⟩ hr
        exact absurd rfl hr
      · simp [registeredTwice_concat, Event.IsReport, lgxErrorHandlerInit]
  | shutdown =>
      obtain ⟨hinit, ⟨⟩⟩ := Option.ite_none_right_eq_some.mp hstep
      constructor
      · rw [registered_concat]
        exact h.globalCallback
      · simp [initialised_concat]
      · rfl
      · rintro r ⟨⟩
      · simp [registeredTwice_concat, Event.IsReport]
  | report t report =>
      obtain rfl := Option.some.inj hstep
      constructor
      · rw [registered_concat]
        exact h.globalCallback
      · simpa [initialised_concat, State.lgxErrorHandlerSetError] using h.initialized
      · exact h.errorHandler
      · rw [registered_concat]
        exact h.own
      · simpa [registeredTwice_concat, Event.IsReport, State.lgxErrorHandlerSetError] using h.registeredTwice

theorem follows_after (h : after events = some s) : Follows s events := by
  induction events using List.reverseRecOn generalizing s with
  | nil =>
      obtain rfl := Option.some.inj h
      exact follows_start
  | append_singleton events e ih =>
      obtain ⟨s₀, hbefore, hstep⟩ := after_concat h
      exact (ih hbefore).step hstep

/-! ## The calls -/

/-- The handler of the runtime calls back as well exactly if a callback is registered with it. -/
theorem setError_eq_iff (h : Follows s events) (t : Thread) (report : Report) :
    (s.lgxErrorHandlerSetError s.errorHandler t report).2 = (registered events).invoke report.context ↔
      ¬ ∃ r, s.errorHandler = some r ∧ r.callback ≠ none := by
  simp only [State.lgxErrorHandlerSetError, h.globalCallback, List.append_left_eq_self]
  cases hhandler : s.errorHandler with
  | none => simp
  | some r => cases hcallback : r.callback <;> simp [Registration.invoke, hcallback]

/-- A callback that was registered twice is called twice. -/
theorem notified_twice (h : after events = some s) (htwice : RegisteredTwice events) (t : Thread)
    (report : Report) :
    (s.lgxErrorHandlerSetError s.errorHandler t report).2 =
      (registered events).invoke report.context ++ (registered events).invoke report.context := by
  have hfollows := follows_after h
  obtain ⟨r, hr, hcallback⟩ := hfollows.registeredTwice.mp htwice
  simp only [State.lgxErrorHandlerSetError, hr, hfollows.own r hr hcallback, hfollows.globalCallback]

/-- After any successful calls, the callback that was passed to `lgx_set_error_handler` most recently, and no
other, is called once for an error, with its own user data, exactly if it was not registered twice. -/
theorem notified_once_iff (h : after events = some s) (t : Thread) (report : Report) :
    (s.lgxErrorHandlerSetError s.errorHandler t report).2 = (registered events).invoke report.context ↔
      ¬ RegisteredTwice events := by
  have hfollows := follows_after h
  rw [setError_eq_iff hfollows, hfollows.registeredTwice]

/-- The error that `lgx_runtime_check_compatibility` reports without a version. -/
def missingVersion : Report :=
  ⟨.result .invalidParam, "lgx_runtime_check_compatibility", "lgx_runtime_core.c", 130, 0⟩

/-- A callback is registered before the runtime is initialised. -/
def registeredFirst : List (Event Unit Unit Unit) :=
  [.setErrorHandler ⟨some (), none⟩, .init]

/-- A callback is registered after the runtime is initialised. -/
def registeredLater : List (Event Unit Unit Unit) :=
  [.init, .setErrorHandler ⟨some (), none⟩]

/-- The callback registered first is called once. -/
theorem notified_once_registeredFirst :
    (after registeredFirst).map (fun s => (s.lgxErrorHandlerSetError s.errorHandler () missingVersion).2) =
        some [⟨(), missingVersion.context, none⟩] ∧
      ¬ RegisteredTwice registeredFirst :=
  ⟨rfl, (notified_once_iff (s := ⟨fun _ => none, ⟨some (), none⟩, some lgxErrorHandlerInit, true⟩) rfl ()
    missingVersion).mp rfl⟩

/-- The callback registered later is called twice. -/
theorem not_notified_once_registeredLater :
    ¬ ∀ (events : List (Event Unit Unit Unit)) (s : State Unit Unit Unit), after events = some s →
      ∀ report, (s.lgxErrorHandlerSetError s.errorHandler () report).2 =
        (registered events).invoke report.context := by
  intro h
  have hcalls := h registeredLater ⟨fun _ => none, ⟨some (), none⟩, some ⟨some (), none⟩, true⟩ rfl missingVersion
  exact absurd (congrArg List.length hcalls) (by decide)

end LgxRuntime.ErrorHandler
