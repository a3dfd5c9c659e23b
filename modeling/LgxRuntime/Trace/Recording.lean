import LgxRuntime.Lib.BoundedQueue
import LgxRuntime.Trace.TraceEvents
import Mathlib.Data.List.Basic

/-!
# What the buffer keeps

After the buffer has been cleared, it keeps the first events that are recorded, as many as it has slots, and
counts the others as dropped.  The counters have 64 bits, so that this holds exactly as long as fewer than
2^64 events are recorded.
-/

namespace LgxRuntime.Trace

/-- The calls that may come between two calls of `lgx_trace_clear`, with the time and the thread. -/
inductive TraceCall
  | traceBegin (name : Option CString) (data now : UInt64) (thread : UInt32)
  | traceEnd (name : Option CString) (now : UInt64) (thread : UInt32)
  | traceInstant (name : Option CString) (data now : UInt64) (thread : UInt32)
  | traceEnable (enabled : Bool)

/-- The system after a call. -/
def TraceCall.run : TraceCall → Option TraceSystem → Option TraceSystem
  | .traceBegin name data now thread, system => Trace.traceBegin name data now thread system
  | .traceEnd name now thread, system => Trace.traceEnd name now thread system
  | .traceInstant name data now thread, system => Trace.traceInstant name data now thread system
  | .traceEnable enabled, system => (Trace.traceEnable enabled system).2

/-- The system after some calls. -/
def runAll (calls : List TraceCall) (system : Option TraceSystem) : Option TraceSystem :=
  calls.foldl (fun system call => call.run system) system

/-- The event that a call stands for, if it has a name. -/
def TraceCall.event : TraceCall → Option TraceEvent
  | .traceBegin name data now thread =>
      name.map fun name => ⟨.traceBegin, name.truncate (maxTraceNameLength - 1), now, thread, data⟩
  | .traceEnd name now thread =>
      name.map fun name => ⟨.traceEnd, name.truncate (maxTraceNameLength - 1), now, thread, 0⟩
  | .traceInstant name data now thread =>
      name.map fun name => ⟨.traceInstant, name.truncate (maxTraceNameLength - 1), now, thread, data⟩
  | .traceEnable _ => none

/-- Whether tracing is enabled after a call. -/
def TraceCall.enables (enabled : Bool) : TraceCall → Bool
  | .traceEnable enabled' => enabled'
  | _ => enabled

/-- The events of the calls that are made while tracing is enabled. -/
def recorded : Bool → List TraceCall → List TraceEvent
  | _, [] => []
  | enabled, call :: calls =>
      (if enabled then call.event.toList else []) ++ recorded (call.enables enabled) calls

/-- The system after some events. -/
def TraceSystem.recordAll (t : TraceSystem) (events : List TraceEvent) : TraceSystem :=
  events.foldl TraceSystem.record t

/-- Tracing is enabled or disabled. -/
def TraceSystem.setEnabled (t : TraceSystem) (enabled : Bool) : TraceSystem :=
  { t with enabled := enabled }

/-! ## The calls record their events -/

variable {t : TraceSystem} {event : TraceEvent} {events : List TraceEvent}

theorem record_setEnabled (t : TraceSystem) (enabled : Bool) (event : TraceEvent) :
    (t.setEnabled enabled).record event = (t.record event).setEnabled enabled := by
  unfold TraceSystem.record
  cases event.type <;> rfl

theorem recordAll_setEnabled (t : TraceSystem) (enabled : Bool) (events : List TraceEvent) :
    (t.setEnabled enabled).recordAll events = (t.recordAll events).setEnabled enabled := by
  induction events generalizing t with
  | nil => rfl
  | cons event events ih =>
      rw [TraceSystem.recordAll, List.foldl_cons, record_setEnabled]
      exact ih _

theorem traceRecord_some (type : TraceEventType) (name : Option CString) (data now : UInt64) (thread : UInt32)
    (t : TraceSystem) :
    traceRecord type name data now thread (some t) =
      some (t.recordAll (if t.enabled then (name.map fun name =>
        ⟨type, name.truncate (maxTraceNameLength - 1), now, thread, data⟩).toList else [])) := by
  cases henabled : t.enabled with
  | false => simp [traceRecord, traceIsEnabled, henabled, TraceSystem.recordAll]
  | true => cases name <;> simp [traceRecord, traceIsEnabled, henabled, TraceSystem.recordAll]

/-- One call records its event, or changes whether tracing is enabled. -/
theorem run_some (call : TraceCall) (t : TraceSystem) :
    call.run (some t) =
      some ((t.recordAll (if t.enabled then call.event.toList else [])).setEnabled (call.enables t.enabled)) := by
  have hsame (events : List TraceEvent) : (t.recordAll events).setEnabled t.enabled = t.recordAll events :=
    (recordAll_setEnabled t t.enabled events).symm
  cases call with
  | traceBegin name data now thread =>
      exact (traceRecord_some .traceBegin name data now thread t).trans (congrArg some (hsame _).symm)
  | traceEnd name now thread =>
      exact (traceRecord_some .traceEnd name 0 now thread t).trans (congrArg some (hsame _).symm)
  | traceInstant name data now thread =>
      exact (traceRecord_some .traceInstant name data now thread t).trans (congrArg some (hsame _).symm)
  | traceEnable enabled =>
      cases henabled : t.enabled <;> rfl

/-- The calls record the events of those that are made while tracing is enabled. -/
theorem runAll_some (calls : List TraceCall) (t : TraceSystem) :
    ∃ enabled, runAll calls (some t) = some ((t.recordAll (recorded t.enabled calls)).setEnabled enabled) := by
  induction calls generalizing t with
  | nil => exact ⟨t.enabled, rfl⟩
  | cons call calls ih =>
      rw [runAll, List.foldl_cons, run_some]
      obtain ⟨enabled, henabled⟩ :=
        ih ((t.recordAll (if t.enabled then call.event.toList else [])).setEnabled (call.enables t.enabled))
      refine ⟨enabled, henabled.trans ?_⟩
      rw [recordAll_setEnabled, recorded, TraceSystem.recordAll, TraceSystem.recordAll, TraceSystem.recordAll,
        List.foldl_append]
      rfl

/-! ## The events are kept in their order -/

/-- The number of events of a type. -/
def countType (type : TraceEventType) (events : List TraceEvent) : ℕ :=
  events.countP fun event => event.type = type

theorem countType_add (events : List TraceEvent) :
    countType .traceBegin events + countType .traceEnd events + countType .traceInstant events =
      events.length := by
  induction events with
  | nil => rfl
  | cons event events ih =>
      unfold countType at ih ⊢
      rw [List.countP_cons, List.countP_cons, List.countP_cons, List.length_cons, ← ih]
      cases event.type <;> simp <;> omega

/-- The buffer has been given the events since it was cleared. -/
structure Buffered (b : TraceRingBuffer) (events : List TraceEvent) : Prop where
  readIndex : b.readIndex = 0
  writeIndex : b.writeIndex = .ofNat events.length
  holds : BoundedQueue.Holds b.events 0 (events.take b.capacity.toNat)
  dropped : b.droppedEvents = .ofNat (events.length - b.capacity.toNat)

section

variable {b : TraceRingBuffer}

theorem buffered_clear (b : TraceRingBuffer) : Buffered b.clear [] := by
  have hpos : 0 < b.events.length := by
    rw [b.length_events]
    exact b.capacity_pos
  refine ⟨rfl, rfl, ?_, by rw [List.length_nil, Nat.zero_sub]; rfl⟩
  rw [List.take_nil]
  exact ⟨Nat.zero_le _, hpos, fun i hi => absurd hi (Nat.not_lt_zero i)⟩

theorem Buffered.writeIndex_toNat (h : Buffered b events) (hlt : events.length < 2 ^ 64) :
    b.writeIndex.toNat = events.length := by
  rw [h.writeIndex, UInt64.toNat_ofNat_of_lt' hlt]

/-- One more event is stored if there is a slot left, and dropped otherwise. -/
theorem Buffered.addTraceEvent (h : Buffered b events) (hlt : events.length < 2 ^ 64) (event : TraceEvent) :
    Buffered (b.addTraceEvent event) (events ++ [event]) := by
  have hread := h.readIndex
  have hwrite := h.writeIndex_toNat hlt
  have hnext : b.writeIndex + 1 = .ofNat (events ++ [event]).length := by
    rw [List.length_append, List.length_singleton, UInt64.ofNat_add, h.writeIndex]
    rfl
  by_cases hfull : b.capacity ≤ b.writeIndex - b.readIndex
  · have hle : b.capacity.toNat ≤ events.length := by
      rwa [hread, UInt64.sub_zero, UInt64.le_iff_toNat_le, hwrite] at hfull
    unfold TraceRingBuffer.addTraceEvent
    rw [if_pos hfull]
    refine ⟨hread, hnext, ?_, ?_⟩
    · rw [List.take_append_of_le_length hle]
      exact h.holds
    · rw [List.length_append, List.length_singleton, Nat.sub_add_comm hle, UInt64.ofNat_add, ← h.dropped]
      rfl
  · have hroom : events.length < b.capacity.toNat := by
      rw [hread, UInt64.sub_zero, UInt64.not_le, UInt64.lt_iff_toNat_lt, hwrite] at hfull
      exact hfull
    have hslot : (b.writeIndex % b.capacity).toNat =
        (0 + (events.take b.capacity.toNat).length) % b.events.length := by
      rw [UInt64.toNat_mod, hwrite, b.length_events, List.take_of_length_le hroom.le, Nat.zero_add]
    have hholds := h.holds.push (x := event)
    rw [← hslot, List.take_of_length_le hroom.le] at hholds
    unfold TraceRingBuffer.addTraceEvent
    rw [if_neg hfull]
    refine ⟨hread, hnext, ?_, ?_⟩
    · rw [List.take_of_length_le (by rw [List.length_append]; exact hroom)]
      exact hholds (by rw [b.length_events]; exact hroom)
    · rw [List.length_append, List.length_singleton, Nat.sub_eq_zero_of_le hroom, h.dropped,
        Nat.sub_eq_zero_of_le hroom.le]

theorem Buffered.count_toNat (h : Buffered b events) (hlt : events.length < 2 ^ 64) :
    b.count.toNat = min events.length b.capacity.toNat := by
  have hwrite := h.writeIndex_toNat hlt
  unfold TraceRingBuffer.count
  rw [h.readIndex, UInt64.sub_zero]
  by_cases hroom : b.writeIndex < b.capacity
  · rw [if_pos hroom, hwrite, min_eq_left]
    rw [UInt64.lt_iff_toNat_lt, hwrite] at hroom
    exact hroom.le
  · rw [if_neg hroom, min_eq_right]
    rwa [UInt64.not_lt, UInt64.le_iff_toNat_le, hwrite] at hroom

/-- The slot of an index that has not wrapped around. -/
theorem slot_toNat (b : TraceRingBuffer) {i : ℕ} (hi : i < b.capacity.toNat) :
    ((0 + UInt64.ofNat i) % b.capacity).toNat = (0 + i) % b.events.length := by
  have hlt : i < 2 ^ 64 := hi.trans b.capacity.toNat_lt
  rw [UInt64.zero_add, UInt64.toNat_mod, UInt64.toNat_ofNat_of_lt' hlt, b.length_events, Nat.zero_add]

/-- The first events are exported. -/
theorem Buffered.exported_eq (h : Buffered b events) (hlt : events.length < 2 ^ 64) :
    b.exported = events.take b.capacity.toNat := by
  have hread := h.holds.map_range
  rw [List.length_take, min_comm] at hread
  unfold TraceRingBuffer.exported
  rw [h.count_toNat hlt, h.readIndex]
  refine List.map_injective_iff.mpr (Option.some_injective _) ?_
  rw [List.map_map, ← hread]
  refine List.map_congr_left fun i hi => ?_
  rw [List.mem_range, lt_min_iff] at hi
  have hslots := h.holds.slots i (by rw [List.length_take, lt_min_iff]; exact hi.symm)
  have hsome : (events.take b.capacity.toNat)[i]? = some events[i] := by
    rw [List.getElem?_take_of_lt hi.2, List.getElem?_eq_getElem hi.1]
  rw [Function.comp_apply, slot_toNat b hi.2, List.getD_eq_getElem?_getD, hslots, hsome, Option.getD_some]

end

/-! ## The events are counted -/

/-- The events have been recorded since the last call of `lgx_trace_clear`. -/
structure Recorded (t : TraceSystem) (events : List TraceEvent) : Prop where
  buffered : Buffered t.ringBuffer events
  total : t.totalEvents = .ofNat events.length
  begins : t.beginEvents = .ofNat (countType .traceBegin events)
  ends : t.endEvents = .ofNat (countType .traceEnd events)
  instants : t.instantEvents = .ofNat (countType .traceInstant events)

theorem record_ringBuffer (t : TraceSystem) (event : TraceEvent) :
    (t.record event).ringBuffer = t.ringBuffer.addTraceEvent event := by
  unfold TraceSystem.record
  cases event.type <;> rfl

theorem countType_concat (type : TraceEventType) (events : List TraceEvent) (event : TraceEvent) :
    countType type (events ++ [event]) = countType type events + if event.type = type then 1 else 0 := by
  unfold countType
  rw [List.countP_append, List.countP_singleton]
  simp only [decide_eq_true_eq]

/-- One more event is recorded. -/
theorem Recorded.record (h : Recorded t events) (hlt : events.length < 2 ^ 64) (event : TraceEvent) :
    Recorded (t.record event) (events ++ [event]) := by
  have htotal : t.totalEvents + 1 = .ofNat (events ++ [event]).length := by
    rw [List.length_append, List.length_singleton, UInt64.ofNat_add, h.total]
    rfl
  refine ⟨record_ringBuffer t event ▸ h.buffered.addTraceEvent hlt event, ?_, ?_, ?_, ?_⟩
  · refine Eq.trans ?_ htotal
    unfold TraceSystem.record
    cases event.type <;> rfl
  all_goals
    rw [countType_concat, UInt64.ofNat_add]
    unfold TraceSystem.record
    cases event.type <;> simp [h.begins, h.ends, h.instants]

theorem Recorded.recordAll (h : Recorded t []) (hlt : events.length < 2 ^ 64) :
    Recorded (t.recordAll events) events := by
  induction events using List.reverseRecOn with
  | nil => exact h
  | append_singleton events event ih =>
      rw [List.length_append, List.length_singleton] at hlt
      rw [TraceSystem.recordAll, List.foldl_append]
      exact (ih (Nat.lt_of_succ_lt hlt)).record (Nat.lt_of_succ_lt hlt) event

theorem countType_lt (type : TraceEventType) (hlt : events.length < 2 ^ 64) : countType type events < 2 ^ 64 :=
  lt_of_le_of_lt List.countP_le_length hlt

/-- What is promised of a system that has recorded the events since the last call of `lgx_trace_clear`. -/
structure KeepsFirst (t : TraceSystem) (events : List TraceEvent) : Prop where
  exported : t.exported = events.take t.getStats.bufferCapacity.toNat
  dropped : t.getStats.droppedEvents.toNat =
    events.length - min events.length t.getStats.bufferCapacity.toNat
  used : t.getStats.bufferUsed.toNat = min events.length t.getStats.bufferCapacity.toNat
  total : t.getStats.totalEvents.toNat = events.length
  types : t.getStats.beginEvents.toNat + t.getStats.endEvents.toNat + t.getStats.instantEvents.toNat =
    events.length

theorem Recorded.keepsFirst (h : Recorded t events) (hlt : events.length < 2 ^ 64) : KeepsFirst t events where
  exported := h.buffered.exported_eq hlt
  dropped := by
    change t.ringBuffer.droppedEvents.toNat = events.length - min events.length t.ringBuffer.capacity.toNat
    rw [h.buffered.dropped, UInt64.toNat_ofNat_of_lt' ((Nat.sub_le ..).trans_lt hlt)]
    omega
  used := h.buffered.count_toNat hlt
  total := (congrArg UInt64.toNat h.total).trans (UInt64.toNat_ofNat_of_lt' hlt)
  types := by
    change t.beginEvents.toNat + t.endEvents.toNat + t.instantEvents.toNat = events.length
    rw [h.begins, h.ends, h.instants, UInt64.toNat_ofNat_of_lt' (countType_lt _ hlt),
      UInt64.toNat_ofNat_of_lt' (countType_lt _ hlt), UInt64.toNat_ofNat_of_lt' (countType_lt _ hlt),
      countType_add]

/-- The total number of events has 64 bits. -/
theorem KeepsFirst.length_lt (h : KeepsFirst t events) : events.length < 2 ^ 64 := by
  rw [← h.total]
  exact UInt64.toNat_lt _

theorem recorded_clear (t : TraceSystem) :
    ∃ t', (traceClear (some t)).2 = some t' ∧ t'.enabled = t.enabled ∧ Recorded t' [] :=
  ⟨_, rfl, rfl, buffered_clear t.ringBuffer, rfl, rfl, rfl, rfl⟩

/-- After `lgx_trace_clear` and any calls, the first events that were recorded are exported and all are counted,
exactly if they are fewer than 2^64. -/
theorem keepsFirst_iff (t : TraceSystem) (calls : List TraceCall) :
    ∃ t', runAll calls (traceClear (some t)).2 = some t' ∧
      (KeepsFirst t' (recorded t.enabled calls) ↔ (recorded t.enabled calls).length < 2 ^ 64) := by
  obtain ⟨cleared, hclear, henabled, hcleared⟩ := recorded_clear t
  obtain ⟨enabled, hrun⟩ := runAll_some calls cleared
  rw [hclear]
  rw [henabled] at hrun
  refine ⟨_, hrun, KeepsFirst.length_lt, fun hlt => ?_⟩
  have hrecorded := hcleared.recordAll hlt
  exact Recorded.keepsFirst ⟨hrecorded.buffered, hrecorded.total, hrecorded.begins, hrecorded.ends,
    hrecorded.instants⟩ hlt

/-- An instant event. -/
def tick : TraceCall :=
  .traceInstant (some ⟨[116], by decide⟩) 0 0 0

theorem length_recorded_replicate (n : ℕ) : (recorded true (List.replicate n tick)).length = n := by
  induction n with
  | zero => rfl
  | succ n ih => exact congrArg Nat.succ ih

/-- After 2^64 events, the number of events is not the one that is reported. -/
theorem not_keepsFirst_twoPow :
    ∃ t', runAll (List.replicate (2 ^ 64) tick) (traceClear (some (TraceSystem.init.setEnabled true))).2 = some t' ∧
      ¬ KeepsFirst t' (recorded true (List.replicate (2 ^ 64) tick)) := by
  obtain ⟨cleared, hclear, -, -⟩ := recorded_clear (TraceSystem.init.setEnabled true)
  obtain ⟨enabled, hrun⟩ := runAll_some (List.replicate (2 ^ 64) tick) cleared
  rw [hclear]
  refine ⟨_, hrun, fun h => ?_⟩
  have hlt := h.length_lt
  rw [length_recorded_replicate] at hlt
  exact lt_irrefl _ hlt

end LgxRuntime.Trace
