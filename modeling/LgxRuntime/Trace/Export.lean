import LgxRuntime.Lib.Snprintf
import LgxRuntime.Trace.TraceEvents

/-!
# The export

`lgx_trace_export` writes the events that are in the buffer in the Chrome Trace Event Format.  The names are
written as they are.
-/

namespace LgxRuntime.Trace

open LgxRuntime.Runtime (LgxResult)
open Snprintf (ascii decimal)

/-- The phase of an event. -/
def TraceEventType.phase : TraceEventType → String
  | .traceBegin => "B"
  | .traceEnd => "E"
  | .traceInstant => "i"

/-- The text of an event; its data is left out if it is 0. -/
def eventText (event : TraceEvent) : List UInt8 :=
  ascii "    \x7b\n" ++ ascii "      \"name\": \"" ++ event.name.bytes ++ ascii "\",\n" ++
    ascii "      \"ph\": \"" ++ ascii event.type.phase ++ ascii "\",\n" ++
    ascii "      \"ts\": " ++ decimal (event.timestampNs / 1000).toNat ++ ascii ",\n" ++
    ascii "      \"pid\": 1,\n" ++ ascii "      \"tid\": " ++ decimal event.threadId.toNat ++
    (if event.data ≠ 0 then ascii ",\n      \"args\": \x7b\"data\": " ++ decimal event.data.toNat ++ ascii "\x7d"
      else []) ++
    ascii "\n    \x7d"

/-- The texts of some events, with commas between them. -/
def eventsText : Bool → List TraceEvent → List UInt8
  | _, [] => []
  | first, event :: events => (if !first then ascii ",\n" else []) ++ eventText event ++ eventsText false events

/-- The text that is written to the file. -/
def TraceSystem.exportText (t : TraceSystem) : List UInt8 :=
  ascii "\x7b\n" ++ ascii "  \"traceEvents\": [\n" ++ eventsText true t.exported ++ ascii "\n  ],\n" ++
    ascii "  \"metadata\": \x7b\n" ++
    ascii "    \"total_events\": " ++ decimal t.totalEvents.toNat ++ ascii ",\n" ++
    ascii "    \"dropped_events\": " ++ decimal t.ringBuffer.droppedEvents.toNat ++ ascii ",\n" ++
    ascii "    \"buffer_capacity\": " ++ decimal t.ringBuffer.capacity.toNat ++ ascii "\n" ++
    ascii "  \x7d\n" ++ ascii "\x7d\n"

/-- `lgx_trace_export`, with what is written to the file, if it can be opened. -/
def traceExport (outputPath : Option CString) (opened : Bool) :
    Option TraceSystem → LgxResult × Option (List UInt8)
  | none => (.invalidParam, none)
  | some t =>
      if outputPath.isNone then (.invalidParam, none)
      else if !opened then (.ioError, none)
      else (.success, some t.exportText)

end LgxRuntime.Trace
