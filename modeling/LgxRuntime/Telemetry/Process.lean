import LgxRuntime.Machine
import Mathlib.Data.List.Perm.Basic

/-!
# The telemetry process

Game threads write events to a ring in shared memory, and a second process reads them and aggregates them.
A writer loads the index, stores its event in the slot, and stores the next index; nothing keeps another
thread from doing the same at the same time.  The reader stops as soon as it finds that a shutdown is
requested, or is killed if it takes too long, whether there are events left or not.  The copy of an event is
not atomic: the slot has no event in the meantime.
-/

namespace LgxRuntime.Telemetry.Process

open Function (update)

/-- `TELEMETRY_RING_SIZE`. -/
def telemetryRingSize : ℕ := 8192

/-- The type of an event with its data. -/
inductive ShmData
  | frame (frameTimeMs : Float32)
  | memory (memoryMb : ℕ)
  | allocation (size : ℕ)

/-- `telemetry_shm_event_t`. -/
structure ShmEvent where
  timestampNs : ℕ
  data : ShmData

/-- A call that records an event, with its number. -/
structure Record where
  id : ℕ
  event : ShmEvent

/-- The statistics of `telemetry_process_main`. -/
structure ReaderStatistics where
  frameCount : ℕ
  totalFrameTime : Float
  maxFrameTime : Float
  allocationCount : ℕ

/-- The `switch` on the type of an event. -/
def aggregate (stats : ReaderStatistics) (event : ShmEvent) : ReaderStatistics :=
  match event.data with
  | .frame frameTimeMs =>
      let time := frameTimeMs.toFloat
      { stats with
        frameCount := wrap64 (stats.frameCount + 1)
        totalFrameTime := stats.totalFrameTime + time
        maxFrameTime := if time > stats.maxFrameTime then time else stats.maxFrameTime }
  | .memory _ => stats
  | .allocation _ => { stats with allocationCount := wrap64 (stats.allocationCount + 1) }

/-! ## The threads and the reader -/

/-- Where a thread is in `lgx_telemetry_process_write_event`, with its record, the index that it has loaded,
and the number of events that were stored before. -/
inductive WriterPc
  | idle
  /-- At the load of `write_index`. -/
  | loadWrite (record : Record)
  /-- At the load of `read_index`, and the check whether the ring is full. -/
  | loadRead (record : Record) (writeIdx stores : ℕ)
  /-- Before the copy of the event. -/
  | copy (record : Record) (writeIdx stores : ℕ)
  /-- In the middle of the copy. -/
  | finishCopy (record : Record) (writeIdx : ℕ)
  /-- At the store of `write_index`. -/
  | store (record : Record) (writeIdx : ℕ)
  /-- At the count of a dropped event. -/
  | drop (record : Record)

/-- The thread is writing its event. -/
def WriterPc.Writing : WriterPc → Prop
  | .finishCopy _ _ | .store _ _ => True
  | _ => False

/-- Where the reader is in `telemetry_process_main`, with the index that it has loaded. -/
inductive ReaderPc
  /-- At the load of `shutdown_requested`. -/
  | loop
  | loadRead
  | loadWrite (readIdx : ℕ)
  /-- At the read of the type. -/
  | readType (readIdx : ℕ)
  /-- At the read of the data, with what the slot held before. -/
  | readData (readIdx : ℕ) (seen : Option Record)
  /-- At the store of `read_index`. -/
  | store (readIdx : ℕ)
  | exited

/-- The shared memory and the two processes.  The state records the calls: those whose event was stored,
with its index, those whose event was dropped, all that have returned `LGX_SUCCESS`, and what was
aggregated. -/
structure State (Thread : Type) where
  writeIndex : ℕ
  readIndex : ℕ
  droppedEvents : ℕ
  shutdownRequested : Bool
  running : Bool
  slots : ℕ → Option Record
  writer : Thread → WriterPc
  reader : ReaderPc
  stats : ReaderStatistics
  calls : ℕ
  stored : List (ℕ × Record)
  dropped : List Record
  returned : List Record
  aggregated : List (Option Record)

/-- A call of a recorder, the next step of a thread or of the reader, or a step of
`lgx_telemetry_process_shutdown`: the request, the kill after the timeout, or the end of the wait. -/
inductive Action (Thread : Type)
  | call (t : Thread) (event : ShmEvent)
  | next (t : Thread)
  | read
  | requestShutdown
  | kill
  | reap

variable {Thread : Type} [DecidableEq Thread]

namespace State

/-- A thread moves on. -/
def goto (s : State Thread) (t : Thread) (pc : WriterPc) : State Thread :=
  { s with writer := update s.writer t pc }

/-- The next step of a thread. -/
def write (s : State Thread) (t : Thread) : WriterPc → Option (State Thread)
  | .idle => none
  | .loadWrite record => some (s.goto t (.loadRead record s.writeIndex s.stored.length))
  | .loadRead record writeIdx stores =>
      if sub64 writeIdx s.readIndex ≥ telemetryRingSize then some (s.goto t (.drop record))
      else some (s.goto t (.copy record writeIdx stores))
  | .copy record writeIdx _ =>
      some { s.goto t (.finishCopy record writeIdx) with
        slots := update s.slots (writeIdx % telemetryRingSize) none }
  | .finishCopy record writeIdx =>
      some { s.goto t (.store record writeIdx) with
        slots := update s.slots (writeIdx % telemetryRingSize) (some record) }
  | .store record writeIdx =>
      some { s.goto t .idle with
        writeIndex := wrap64 (writeIdx + 1)
        stored := s.stored ++ [(writeIdx, record)]
        returned := s.returned ++ [record] }
  | .drop record =>
      some { s.goto t .idle with
        droppedEvents := wrap64 (s.droppedEvents + 1)
        dropped := s.dropped ++ [record]
        returned := s.returned ++ [record] }

/-- An event is aggregated.  What is read of a slot that is written in the meantime is no event. -/
def aggregateSeen (s : State Thread) (seen : Option Record) : State Thread :=
  { s with
    stats := match seen with
      | some record => aggregate s.stats record.event
      | none => s.stats
    aggregated := s.aggregated ++ [seen] }

/-- The next step of the reader. -/
def read (s : State Thread) : ReaderPc → Option (State Thread)
  | .loop => some { s with reader := if s.shutdownRequested then .exited else .loadRead }
  | .loadRead => some { s with reader := .loadWrite s.readIndex }
  | .loadWrite readIdx =>
      some { s with reader := if readIdx = s.writeIndex then .loop else .readType readIdx }
  | .readType readIdx => some { s with reader := .readData readIdx (s.slots (readIdx % telemetryRingSize)) }
  | .readData readIdx seen =>
      let now := s.slots (readIdx % telemetryRingSize)
      let same := seen.map Record.id = now.map Record.id
      some { s.aggregateSeen (if same then now else none) with reader := .store readIdx }
  | .store readIdx => some { s with readIndex := wrap64 (readIdx + 1), reader := .loop }
  | .exited => none

end State

/-- One step.  A call finds that the process does not run once it has been waited for. -/
def step (s : State Thread) : Action Thread → Option (State Thread)
  | .call t event =>
      match s.writer t with
      | .idle =>
          if s.running then some { s.goto t (.loadWrite ⟨s.calls, event⟩) with calls := s.calls + 1 }
          else some s
      | _ => none
  | .next t => s.write t (s.writer t)
  | .read => s.read s.reader
  | .requestShutdown => if s.running then some { s with shutdownRequested := true } else none
  | .kill =>
      match s.reader with
      | .exited => none
      | _ => if s.running && s.shutdownRequested then some { s with reader := .exited } else none
  | .reap =>
      match s.reader with
      | .exited => if s.running && s.shutdownRequested then some { s with running := false } else none
      | _ => none

/-- `lgx_telemetry_process_init`. -/
def telemetryProcessInit : State Thread where
  writeIndex := 0
  readIndex := 0
  droppedEvents := 0
  shutdownRequested := false
  running := true
  slots := fun _ => none
  writer := fun _ => .idle
  reader := .loop
  stats := ⟨0, 0.0, 0.0, 0⟩
  calls := 0
  stored := []
  dropped := []
  returned := []
  aggregated := []

/-- The telemetry process has just been started. -/
def Initial (s : State Thread) : Prop :=
  s = telemetryProcessInit

/-- Everything that was stored has been read, and nobody is writing an event. -/
def Drained (s : State Thread) : Prop :=
  s.readIndex = s.writeIndex ∧ ∀ u, ¬ (s.writer u).Writing

/-- A thread starts to write its event while no other thread does, as long as the reader runs and nothing was
stored since it loaded the index; and the reader stops, or is killed, when there is nothing left to read. -/
def Orderly (s : State Thread) : Action Thread → Prop
  | .next t => ∀ record writeIdx stores, s.writer t = .copy record writeIdx stores →
      s.stored.length = stores ∧ (∀ u, ¬ (s.writer u).Writing) ∧ s.reader ≠ .exited
  | .read => s.reader = .loop → s.shutdownRequested = true → Drained s
  | .kill => Drained s
  | _ => True

/-- Every call that has returned `LGX_SUCCESS` was either aggregated, once and in the order of the indices,
or counted as dropped. -/
structure AllAccounted (s : State Thread) : Prop where
  aggregated : s.aggregated = s.stored.map fun entry => some entry.2
  indices : s.stored.map Prod.fst = (List.range s.stored.length).map wrap64
  stats : s.stats = s.stored.foldl (fun stats entry => aggregate stats entry.2.event) ⟨0, 0.0, 0.0, 0⟩
  returned : (s.stored.map Prod.snd ++ s.dropped).Perm s.returned
  dropped : s.droppedEvents = wrap64 s.dropped.length

end LgxRuntime.Telemetry.Process
