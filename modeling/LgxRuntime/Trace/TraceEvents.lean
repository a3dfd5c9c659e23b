import LgxRuntime.Lib.CString
import LgxRuntime.Runtime.Core

/-!
# Trace events

Begin, end and instant events are written into a buffer as long as there is room; later ones are dropped.  The
write index goes on in any case, and the read index is never moved.
-/

namespace LgxRuntime.Trace

open LgxRuntime.Runtime (LgxResult)

/-- `MAX_TRACE_NAME_LENGTH`. -/
def maxTraceNameLength : ℕ := 64

/-- `TRACE_RING_BUFFER_SIZE`. -/
def traceRingBufferSize : UInt64 := 65536

/-- `trace_event_type_t`. -/
inductive TraceEventType
  | traceBegin
  | traceEnd
  | traceInstant
  deriving DecidableEq

/-- `trace_event_t`. -/
structure TraceEvent where
  type : TraceEventType
  name : CString
  timestampNs : UInt64
  threadId : UInt32
  data : UInt64
  deriving DecidableEq

/-- What `calloc` puts into a slot. -/
def TraceEvent.zero : TraceEvent :=
  ⟨.traceBegin, ⟨[], CString.zero_notMem_nil⟩, 0, 0, 0⟩

/-- `trace_ring_buffer_t`, once it is initialised: there are as many slots as its capacity says, and at least
one. -/
structure TraceRingBuffer where
  events : List TraceEvent
  writeIndex : UInt64
  readIndex : UInt64
  capacity : UInt64
  droppedEvents : UInt64
  length_events : events.length = capacity.toNat
  capacity_pos : 0 < capacity.toNat

/-- `trace_system_t`, once it is initialised.  The hooks for other tools do nothing. -/
structure TraceSystem where
  enabled : Bool
  ringBuffer : TraceRingBuffer
  totalEvents : UInt64
  beginEvents : UInt64
  endEvents : UInt64
  instantEvents : UInt64

/-- `lgx_trace_stats_t`. -/
structure TraceStats where
  totalEvents : UInt64
  beginEvents : UInt64
  endEvents : UInt64
  instantEvents : UInt64
  droppedEvents : UInt64
  bufferCapacity : UInt64
  bufferUsed : UInt64

namespace TraceRingBuffer

/-- `init_ring_buffer`, when there is enough memory. -/
def init (capacity : UInt64) (hpos : 0 < capacity.toNat) : TraceRingBuffer where
  events := List.replicate capacity.toNat TraceEvent.zero
  writeIndex := 0
  readIndex := 0
  capacity := capacity
  droppedEvents := 0
  length_events := List.length_replicate
  capacity_pos := hpos

/-- `add_trace_event`. -/
def addTraceEvent (buffer : TraceRingBuffer) (event : TraceEvent) : TraceRingBuffer :=
  let writeIdx := buffer.writeIndex
  let readIdx := buffer.readIndex
  if buffer.capacity ≤ writeIdx - readIdx then
    { buffer with
      writeIndex := buffer.writeIndex + 1
      droppedEvents := buffer.droppedEvents + 1 }
  else
    { buffer with
      writeIndex := buffer.writeIndex + 1
      events := buffer.events.set (writeIdx % buffer.capacity).toNat event
      length_events := List.length_set.trans buffer.length_events }

/-- The number of events that are there, at most as many as there are slots. -/
def count (buffer : TraceRingBuffer) : UInt64 :=
  if buffer.writeIndex - buffer.readIndex < buffer.capacity then buffer.writeIndex - buffer.readIndex
  else buffer.capacity

/-- The events that are exported, in their order. -/
def exported (buffer : TraceRingBuffer) : List TraceEvent :=
  (List.range buffer.count.toNat).map fun i =>
    buffer.events.getD ((buffer.readIndex + UInt64.ofNat i) % buffer.capacity).toNat TraceEvent.zero

/-- The indices and the counter are set to zero; the slots stay as they are. -/
def clear (buffer : TraceRingBuffer) : TraceRingBuffer :=
  { buffer with writeIndex := 0, readIndex := 0, droppedEvents := 0 }

end TraceRingBuffer

namespace TraceSystem

/-- `lgx_trace_init`, when there is enough memory. -/
def init : TraceSystem where
  enabled := false
  ringBuffer := .init traceRingBufferSize (by decide)
  totalEvents := 0
  beginEvents := 0
  endEvents := 0
  instantEvents := 0

/-- An event is added to the buffer and counted. -/
def record (t : TraceSystem) (event : TraceEvent) : TraceSystem :=
  let t := { t with
    ringBuffer := t.ringBuffer.addTraceEvent event
    totalEvents := t.totalEvents + 1 }
  match event.type with
  | .traceBegin => { t with beginEvents := t.beginEvents + 1 }
  | .traceEnd => { t with endEvents := t.endEvents + 1 }
  | .traceInstant => { t with instantEvents := t.instantEvents + 1 }

/-- `lgx_trace_get_stats`. -/
def getStats (t : TraceSystem) : TraceStats where
  totalEvents := t.totalEvents
  beginEvents := t.beginEvents
  endEvents := t.endEvents
  instantEvents := t.instantEvents
  droppedEvents := t.ringBuffer.droppedEvents
  bufferCapacity := t.ringBuffer.capacity
  bufferUsed := t.ringBuffer.count

/-- The events that `lgx_trace_export` writes. -/
def exported (t : TraceSystem) : List TraceEvent :=
  t.ringBuffer.exported

end TraceSystem

/-! ## The calls

The trace system is `none` before `lgx_trace_init`, and after `lgx_trace_shutdown`. -/

/-- `lgx_trace_init`. -/
def traceInit : Option TraceSystem → LgxResult × Option TraceSystem
  | some t => (.success, some t)
  | none => (.success, some .init)

/-- `lgx_trace_shutdown`. -/
def traceShutdown : Option TraceSystem → LgxResult × Option TraceSystem
  | some _ => (.success, none)
  | none => (.success, none)

/-- `lgx_trace_enable`. -/
def traceEnable (enabled : Bool) : Option TraceSystem → LgxResult × Option TraceSystem
  | none => (.notInitialized, none)
  | some t => (.success, some { t with enabled := enabled })

/-- `lgx_trace_is_enabled`. -/
def traceIsEnabled : Option TraceSystem → Bool
  | none => false
  | some t => t.enabled

/-- An event is recorded if tracing is enabled and it has a name, of which as much is kept as there is room
for. -/
def traceRecord (type : TraceEventType) (name : Option CString) (data now : UInt64) (thread : UInt32)
    (system : Option TraceSystem) : Option TraceSystem :=
  if !traceIsEnabled system then system
  else
    match name with
    | none => system
    | some name => system.map fun t => t.record ⟨type, name.truncate (maxTraceNameLength - 1), now, thread, data⟩

/-- `lgx_trace_begin`. -/
def traceBegin (name : Option CString) (data now : UInt64) (thread : UInt32) :
    Option TraceSystem → Option TraceSystem :=
  traceRecord .traceBegin name data now thread

/-- `lgx_trace_end`. -/
def traceEnd (name : Option CString) (now : UInt64) (thread : UInt32) : Option TraceSystem → Option TraceSystem :=
  traceRecord .traceEnd name 0 now thread

/-- `lgx_trace_instant`. -/
def traceInstant (name : Option CString) (data now : UInt64) (thread : UInt32) :
    Option TraceSystem → Option TraceSystem :=
  traceRecord .traceInstant name data now thread

/-- `lgx_trace_get_stats`, for statistics that are there. -/
def traceGetStats : Option TraceSystem → LgxResult × Option TraceStats
  | none => (.invalidParam, none)
  | some t => (.success, some t.getStats)

/-- `lgx_trace_clear`. -/
def traceClear : Option TraceSystem → LgxResult × Option TraceSystem
  | none => (.notInitialized, none)
  | some t =>
      (.success, some { t with
        ringBuffer := t.ringBuffer.clear
        totalEvents := 0
        beginEvents := 0
        endEvents := 0
        instantEvents := 0 })

end LgxRuntime.Trace
