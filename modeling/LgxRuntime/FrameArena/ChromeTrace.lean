import LgxRuntime.Lib.Json
import LgxRuntime.Runtime.Core
import Mathlib.Data.List.Forall2
import Mathlib.Data.List.Induction

/-!
# The trace of the frame resets

While tracing is on, every reset of the frame arenas writes two events into the trace file, which is a JSON text once
it has been closed.  A shutdown does not close the file, so that a trace goes on if the arenas are started again; a
file that cannot be opened ends the trace before it.

What is written is ASCII, and is given as characters.  A write that fails is left out, and so is what the resets do
besides, and what other profilers are told.
-/

namespace LgxRuntime.FrameArena

open Json (AllPlain EndsNumber ReadsOnly ReadsOnlyElements ReadsOnlyMembers Value skip)
open LgxRuntime.Runtime (LgxResult)

/-- What `g_frame_arena_state` knows of the trace: the file is what has been written into it.  The files that have
been closed are listed. -/
structure ChromeTrace where
  initialized : Bool
  chromeTraceEnabled : Bool
  chromeTraceFile : Option (List Char)
  chromeTraceFirstEvent : Bool
  closed : List (List Char)

/-- The event that `write_chrome_trace_event` writes. -/
def chromeEvent (name phase : List Char) (timestampUs durationUs : ℕ) (category : List Char) : List Char :=
  "\x7b\"name\":\"".toList ++ name ++ "\",\"cat\":\"".toList ++ category ++ "\",\"ph\":\"".toList ++ phase ++
    "\",\"ts\":".toList ++ Nat.toDigits 10 timestampUs ++ ",\"pid\":1,\"tid\":1".toList ++
    (if durationUs > 0 then ",\"dur\":".toList ++ Nat.toDigits 10 durationUs else []) ++ ['}']

namespace ChromeTrace

/-- The state of a process that has just been started. -/
def new : ChromeTrace :=
  ⟨false, false, none, true, []⟩

/-- `write_chrome_trace_event`. -/
def writeChromeTraceEvent (name phase : List Char) (timestampUs durationUs : UInt64) (category : List Char)
    (t : ChromeTrace) : ChromeTrace :=
  if !t.chromeTraceEnabled then t
  else
    match t.chromeTraceFile with
    | none => t
    | some text =>
        { t with
          chromeTraceFile := some (text ++ (if !t.chromeTraceFirstEvent then [',', '\n'] else []) ++
            chromeEvent name phase timestampUs.toNat durationUs.toNat category)
          chromeTraceFirstEvent := false }

/-- `record_profiler_reset_event`, with the time in nanoseconds. -/
def recordProfilerResetEvent (now : UInt64) (t : ChromeTrace) : ChromeTrace :=
  if t.chromeTraceEnabled then
    let timestampUs := now / 1000
    (t.writeChromeTraceEvent "frame_reset".toList ['B'] timestampUs 0 "frame_arena".toList).writeChromeTraceEvent
      "frame_reset".toList ['E'] (timestampUs + 1) 0 "frame_arena".toList
  else t

/-- The file is closed, if there is one. -/
def closeFile (t : ChromeTrace) : ChromeTrace :=
  match t.chromeTraceFile with
  | none => t
  | some text => { t with closed := t.closed ++ [text ++ "\n]\n".toList] }

/-- `lgx_frame_arena_enable_chrome_trace`, with whether there is a path and the file can be opened. -/
def enableChromeTrace (enabled outputPath fopen : Bool) (t : ChromeTrace) : LgxResult × ChromeTrace :=
  if !t.initialized then (.notInitialized, t)
  else if enabled then
    if !outputPath then (.invalidParam, t)
    else
      let t := t.closeFile
      if !fopen then (.ioError, { t with chromeTraceFile := none })
      else
        (.success, { t with
          chromeTraceFile := some "[\n".toList
          chromeTraceFirstEvent := true
          chromeTraceEnabled := true })
  else (.success, { t.closeFile with chromeTraceFile := none, chromeTraceEnabled := false })

end ChromeTrace

/-- What is done with the frame arenas: they are started, which may fail, and stopped, the trace is switched, or there
is a reset at some time. -/
inductive ChromeCall
  | init (succeeds : Bool)
  | shutdown
  | enableChromeTrace (enabled outputPath fopen : Bool)
  | reset (now : UInt64)

/-- A call, as far as the trace is concerned. -/
def ChromeTrace.call (t : ChromeTrace) : ChromeCall → ChromeTrace
  | .init succeeds => { t with initialized := t.initialized || succeeds }
  | .shutdown => { t with initialized := false }
  | .enableChromeTrace enabled outputPath fopen => (t.enableChromeTrace enabled outputPath fopen).2
  | .reset now => if t.initialized then t.recordProfilerResetEvent now else t

/-- The trace after some calls. -/
def chromeTrace (calls : List ChromeCall) : ChromeTrace :=
  calls.foldl ChromeTrace.call .new

/-! ## What should be traced -/

/-- The resets that are traced, without the texts: those of the trace that goes on, and those of the traces that have
ended. -/
structure TracedResets where
  initialized : Bool
  current : Option (List UInt64)
  ended : List (List UInt64)

/-- The trace ends, if there is one. -/
def TracedResets.finish (r : TracedResets) : TracedResets :=
  { r with current := none, ended := r.ended ++ r.current.toList }

/-- A call. -/
def TracedResets.call (r : TracedResets) : ChromeCall → TracedResets
  | .init succeeds => { r with initialized := r.initialized || succeeds }
  | .shutdown => { r with initialized := false }
  | .enableChromeTrace enabled outputPath fopen =>
      if !r.initialized || (enabled && !outputPath) then r
      else if enabled && fopen then { r.finish with current := some [] }
      else r.finish
  | .reset now => if r.initialized then { r with current := r.current.map (· ++ [now]) } else r

/-- What should be traced of some calls. -/
def tracedResets (calls : List ChromeCall) : TracedResets :=
  calls.foldl TracedResets.call ⟨false, none, []⟩

/-- An event as a JSON value. -/
def chromeEventValue (phase : List Char) (timestampUs : ℕ) : Value :=
  .object [("name".toList, .string "frame_reset".toList), ("cat".toList, .string "frame_arena".toList),
    ("ph".toList, .string phase), ("ts".toList, .number (Nat.toDigits 10 timestampUs)),
    ("pid".toList, .number (Nat.toDigits 10 1)), ("tid".toList, .number (Nat.toDigits 10 1))]

/-- The phase and the time of the events of a reset. -/
def resetEvents (now : UInt64) : List (List Char × ℕ) :=
  [(['B'], now.toNat / 1000), (['E'], now.toNat / 1000 + 1)]

/-- The trace of some resets as a JSON value. -/
def traceValue (resets : List UInt64) : Value :=
  .array ((resets.flatMap resetEvents).map fun event => chromeEventValue event.1 event.2)

/-! ## One event -/

variable {phase after rest : List Char} {timestampUs : ℕ}

/-- The characters of an event. -/
def eventChars (phase : List Char) (timestampUs : ℕ) (after : List Char) : List Char :=
  chromeEvent "frame_reset".toList phase timestampUs 0 "frame_arena".toList ++ after

theorem eventChars_eq (phase : List Char) (timestampUs : ℕ) (after : List Char) :
    eventChars phase timestampUs after =
      '{' :: '"' :: ("name".toList ++ '"' :: ':' :: '"' :: ("frame_reset".toList ++ '"' :: ',' :: '"' ::
        ("cat".toList ++ '"' :: ':' :: '"' :: ("frame_arena".toList ++ '"' :: ',' :: '"' ::
          ("ph".toList ++ '"' :: ':' :: '"' :: (phase ++ '"' :: ',' :: '"' ::
            ("ts".toList ++ '"' :: ':' :: (Nat.toDigits 10 timestampUs ++ ',' :: '"' ::
              ("pid".toList ++ '"' :: ':' :: (Nat.toDigits 10 1 ++ ',' :: '"' ::
                ("tid".toList ++ '"' :: ':' :: (Nat.toDigits 10 1 ++ '}' :: after)))))))))))) := by
  unfold eventChars chromeEvent
  rw [if_neg (lt_irrefl 0)]
  simp only [List.append_assoc]
  rfl

/-- An event is read. -/
theorem readsOnly_eventChars (hphase : AllPlain phase) (timestampUs : ℕ) (after : List Char) :
    ReadsOnly (chromeEventValue phase timestampUs) (eventChars phase timestampUs after) after := by
  rw [eventChars_eq]
  have hend : EndsNumber '}' := by decide
  have htid : ReadsOnlyMembers [("tid".toList, .number (Nat.toDigits 10 1))]
      ('"' :: ("tid".toList ++ '"' :: ':' :: (Nat.toDigits 10 1 ++ '}' :: after))) after :=
    (Json.readsOnly_skip_toDigits 1 after hend).lastMember _ _ (by decide) rfl
  have hpid := htid.compactNumber "pid".toList _ (by decide) 1
  have hts := hpid.compactNumber "ts".toList _ (by decide) timestampUs
  have hph := hts.compactString "ph".toList phase _ (by decide) hphase
  have hcat := hph.compactString "cat".toList "frame_arena".toList _ (by decide) (by decide)
  have hname := hcat.compactString "name".toList "frame_reset".toList _ (by decide) (by decide)
  exact hname.object ('"' :: _) rfl

/-! ## The events -/

/-- The characters of some events, with commas between them. -/
def eventsChars : Bool → List (List Char × ℕ) → List Char → List Char
  | _, [], after => after
  | first, event :: events, after =>
      (if !first then [',', '\n'] else []) ++ eventChars event.1 event.2 (eventsChars false events after)

/-- The events are read, with the end of the array. -/
theorem readsOnly_eventsChars {event : List Char × ℕ} {events : List (List Char × ℕ)}
    (hphases : ∀ e ∈ event :: events, AllPlain e.1) (hclose : skip after = ']' :: rest) :
    ReadsOnlyElements ((event :: events).map fun e => chromeEventValue e.1 e.2)
      (eventsChars true (event :: events) after) rest := by
  induction events generalizing event with
  | nil =>
      have hevent := readsOnly_eventChars (hphases event List.mem_cons_self) event.2 after
      exact hevent.lastElement hclose
  | cons next events ih =>
      have hevent := readsOnly_eventChars (hphases event List.mem_cons_self) event.2
        (eventsChars false (next :: events) after)
      have hrest := ih fun e he => hphases e (List.mem_cons_of_mem _ he)
      have hcomma : skip (eventsChars false (next :: events) after) =
          ',' :: '\n' :: eventsChars true (next :: events) after := Json.skip_of_not_space rfl _
      refine ReadsOnlyElements.more ?_ hevent hcomma
      rw [Json.skip_space rfl]
      exact hrest

/-! ## A whole file -/

/-- What has been written into a file when some events have been traced. -/
def writtenText (events : List (List Char × ℕ)) : List Char :=
  "[\n".toList ++ eventsChars true events []

/-- What a file holds that has been closed after some resets. -/
def closedText (resets : List UInt64) : List Char :=
  writtenText (resets.flatMap resetEvents) ++ "\n]\n".toList

theorem eventsChars_append (first : Bool) (events : List (List Char × ℕ)) (after : List Char) :
    eventsChars first events [] ++ after = eventsChars first events after := by
  induction events generalizing first with
  | nil => rfl
  | cons event events ih =>
      simp only [eventsChars, eventChars, List.append_assoc]
      rw [ih]

/-- One more event is written. -/
theorem writtenText_concat (events : List (List Char × ℕ)) (event : List Char × ℕ) :
    writtenText (events ++ [event]) = writtenText events ++ (if !events.isEmpty then [',', '\n'] else []) ++
      chromeEvent "frame_reset".toList event.1 event.2 0 "frame_arena".toList := by
  have hevents : ∀ first, eventsChars first (events ++ [event]) [] =
      eventsChars first events [] ++ ((if !(first && events.isEmpty) then [',', '\n'] else []) ++
        chromeEvent "frame_reset".toList event.1 event.2 0 "frame_arena".toList) := by
    induction events with
    | nil =>
        intro first
        simp [eventsChars, eventChars]
    | cons next events ih =>
        intro first
        simp only [List.cons_append, eventsChars, eventChars, ih, List.append_assoc]
        simp
  rw [writtenText, hevents, Bool.true_and, writtenText, List.append_assoc, List.append_assoc]

/-- A file that has been closed is a JSON text of the traced resets, and of nothing else. -/
theorem isText_closedText (resets : List UInt64) (v : Value) :
    Json.IsText v (closedText resets) ↔ v = traceValue resets := by
  have hphases : ∀ e ∈ resets.flatMap resetEvents, AllPlain e.1 := by
    intro e he
    obtain ⟨now, -, hnow⟩ := List.mem_flatMap.mp he
    rcases List.mem_cons.mp hnow with rfl | hlast
    · exact (by decide : AllPlain ['B'])
    · rw [List.mem_singleton.mp hlast]
      exact (by decide : AllPlain ['E'])
  have htext : closedText resets =
      '[' :: '\n' :: eventsChars true (resets.flatMap resetEvents) "\n]\n".toList := by
    rw [closedText, writtenText, List.append_assoc, eventsChars_append]
    rfl
  have hclose : skip "\n]\n".toList = [']', '\n'] := rfl
  rw [htext, traceValue]
  cases hevents : resets.flatMap resetEvents with
  | nil =>
      have hempty : ReadsOnly (.array []) ('[' :: '\n' :: "\n]\n".toList) ['\n'] :=
        Json.readsOnly_emptyArray _ hclose
      exact hempty.isText_iff rfl
  | cons event events =>
      rw [hevents] at hphases
      have helements := readsOnly_eventsChars hphases hclose
      exact (helements.array ('\n' :: _) rfl).isText_iff rfl

/-! ## Whole runs -/

/-- The files hold the resets that are traced. -/
structure Traces (t : ChromeTrace) (r : TracedResets) : Prop where
  initialized : t.initialized = r.initialized
  closed : t.closed = r.ended.map closedText
  file : t.chromeTraceFile = r.current.map fun resets => writtenText (resets.flatMap resetEvents)
  enabled : ∀ resets ∈ r.current, t.chromeTraceEnabled = true ∧
    t.chromeTraceFirstEvent = (resets.flatMap resetEvents).isEmpty

variable {t : ChromeTrace} {r : TracedResets}

/-- The trace ends, and the file is closed. -/
theorem Traces.closeFile (h : Traces t r) (enabled firstEvent : Bool) :
    Traces { t.closeFile with
      chromeTraceFile := none, chromeTraceEnabled := enabled, chromeTraceFirstEvent := firstEvent } r.finish := by
  have hfile := h.file
  unfold ChromeTrace.closeFile TracedResets.finish
  cases hcurrent : r.current with
  | none =>
      rw [hcurrent, Option.map_none] at hfile
      rw [hfile]
      refine ⟨h.initialized, ?_, rfl, fun _ hresets => by cases hresets⟩
      exact h.closed.trans (congrArg _ (List.append_nil _).symm)
  | some resets =>
      rw [hcurrent, Option.map_some] at hfile
      rw [hfile]
      refine ⟨h.initialized, ?_, rfl, fun _ hresets => by cases hresets⟩
      change t.closed ++ [closedText resets] = (r.ended ++ [resets]).map closedText
      rw [h.closed, List.map_append]
      rfl

/-- An event is written while a trace goes on. -/
theorem writeChromeTraceEvent_eq {events : List (List Char × ℕ)} (henabled : t.chromeTraceEnabled = true)
    (hfile : t.chromeTraceFile = some (writtenText events)) (hfirst : t.chromeTraceFirstEvent = events.isEmpty)
    (phase : List Char) (timestampUs : UInt64) :
    t.writeChromeTraceEvent "frame_reset".toList phase timestampUs 0 "frame_arena".toList =
      { t with
        chromeTraceFile := some (writtenText (events ++ [(phase, timestampUs.toNat)]))
        chromeTraceFirstEvent := (events ++ [(phase, timestampUs.toNat)]).isEmpty } := by
  have hmore : (events ++ [(phase, timestampUs.toNat)]).isEmpty = false := by simp
  rw [ChromeTrace.writeChromeTraceEvent, henabled, Bool.not_true, if_neg Bool.false_ne_true, hfile, hfirst, hmore,
    writtenText_concat]
  rfl

/-- The two events of a reset are written. -/
theorem Traces.reset (h : Traces t r) (now : UInt64) :
    Traces (t.recordProfilerResetEvent now) { r with current := r.current.map (· ++ [now]) } := by
  have hnow : (now / 1000).toNat = now.toNat / 1000 := UInt64.toNat_div now 1000
  have hnext : (now / 1000 + 1).toNat = now.toNat / 1000 + 1 := by
    have hlt := now.toNat_lt
    rw [UInt64.toNat_add, hnow, UInt64.toNat_one, Nat.mod_eq_of_lt (by omega)]
  have hfile := h.file
  cases hcurrent : r.current with
  | none =>
      rw [hcurrent, Option.map_none] at hfile
      have hsame : t.recordProfilerResetEvent now = t := by
        unfold ChromeTrace.recordProfilerResetEvent ChromeTrace.writeChromeTraceEvent
        split_ifs <;> simp [hfile]
      rw [hsame]
      exact ⟨h.initialized, h.closed, hfile, fun _ hresets => by cases hresets⟩
  | some resets =>
      rw [hcurrent, Option.map_some] at hfile
      obtain ⟨henabled, hfirst⟩ := h.enabled resets hcurrent
      have hevents : (resets ++ [now]).flatMap resetEvents =
          (resets.flatMap resetEvents ++ [(['B'], (now / 1000).toNat)]) ++ [(['E'], (now / 1000 + 1).toNat)] := by
        rw [List.flatMap_append, hnow, hnext, List.append_assoc]
        rfl
      have hrecord : t.recordProfilerResetEvent now =
          { t with
            chromeTraceFile := some (writtenText ((resets ++ [now]).flatMap resetEvents))
            chromeTraceFirstEvent := ((resets ++ [now]).flatMap resetEvents).isEmpty } := by
        rw [ChromeTrace.recordProfilerResetEvent, if_pos henabled, hevents]
        dsimp only
        rw [writeChromeTraceEvent_eq henabled hfile hfirst]
        refine writeChromeTraceEvent_eq ?_ ?_ ?_ _ _
        · exact henabled
        · rfl
        · rfl
      rw [hrecord]
      refine ⟨h.initialized, h.closed, rfl, fun resets' hresets => ?_⟩
      obtain rfl := Option.some.inj hresets
      exact ⟨henabled, rfl⟩

/-- Each call does to the files what it does to the resets that are traced. -/
theorem Traces.call (h : Traces t r) (call : ChromeCall) : Traces (t.call call) (r.call call) := by
  cases call with
  | init succeeds => exact ⟨congrArg (· || succeeds) h.initialized, h.closed, h.file, h.enabled⟩
  | shutdown => exact ⟨rfl, h.closed, h.file, h.enabled⟩
  | enableChromeTrace enabled outputPath fopen =>
      rw [ChromeTrace.call, TracedResets.call, ChromeTrace.enableChromeTrace, h.initialized]
      cases r.initialized with
      | false => exact h
      | true =>
          cases enabled with
          | false => exact h.closeFile false _
          | true =>
              cases outputPath with
              | false => exact h
              | true =>
                  cases fopen with
                  | false => exact h.closeFile _ _
                  | true =>
                      have hclosed := h.closeFile true true
                      refine ⟨hclosed.initialized, hclosed.closed, rfl, fun resets hresets => ?_⟩
                      obtain rfl := Option.some.inj hresets
                      exact ⟨rfl, rfl⟩
  | reset now =>
      rw [ChromeTrace.call, TracedResets.call, h.initialized]
      split_ifs
      · exact h.reset now
      · exact h

theorem traces_chromeTrace (calls : List ChromeCall) : Traces (chromeTrace calls) (tracedResets calls) := by
  induction calls using List.reverseRecOn with
  | nil => exact ⟨rfl, rfl, rfl, fun _ hresets => by cases hresets⟩
  | append_singleton calls call ih =>
      rw [chromeTrace, tracedResets, List.foldl_append, List.foldl_append]
      exact ih.call call

/-- However the arenas are started, stopped and reset and the trace is switched: every file that has been closed is a
JSON text of two events for each reset of a trace that has ended, in their order, and of nothing else; and the file
that is open would be one if it were closed now. -/
theorem chromeTrace_spec (calls : List ChromeCall) :
    List.Forall₂ (fun text resets => ∀ v, Json.IsText v text ↔ v = traceValue resets)
        (chromeTrace calls).closed (tracedResets calls).ended ∧
      (tracedResets calls).current.isSome = (chromeTrace calls).chromeTraceFile.isSome ∧
      ∀ text resets, (chromeTrace calls).chromeTraceFile = some text → (tracedResets calls).current = some resets →
        ∀ v, Json.IsText v (text ++ "\n]\n".toList) ↔ v = traceValue resets := by
  have htraces := traces_chromeTrace calls
  refine ⟨?_, ?_, fun text resets htext hresets v => ?_⟩
  · rw [htraces.closed, List.forall₂_map_left_iff, List.forall₂_same]
    exact fun resets _ v => isText_closedText resets v
  · rw [htraces.file, Option.isSome_map]
  · rw [htraces.file, hresets, Option.map_some, Option.some.injEq] at htext
    rw [← htext]
    exact isText_closedText resets v

end LgxRuntime.FrameArena
