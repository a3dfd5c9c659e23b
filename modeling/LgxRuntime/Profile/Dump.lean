import LgxRuntime.Lib.Snprintf
import LgxRuntime.Profile.Profiler

/-!
# The dump of the last frame

`lgx_prof_dump_last_frame` prints a header, the zones of the last frame, indented by their depth, and the
counters.  The zones are printed as long as there is room; the counters are printed in any case.  How a
`double` is printed with a fixed precision is up to the C library.
-/

namespace LgxRuntime.Profile

open Snprintf (Output ascii padLeft padRight decimal toSize)

variable (formatFixed : ℕ → Float → List UInt8)

/-- `"Frame #%lu  %.3f ms  (%.0f FPS)\n"`. -/
def headerText (ctx : ProfContext) : List UInt8 :=
  ascii "Frame #" ++ decimal ctx.totalFrames.toNat ++ ascii "  " ++ formatFixed 3 ctx.lastFrameMs ++
    ascii " ms  (" ++ formatFixed 0 ctx.getFps ++ ascii " FPS)\n"

/-- The indentation by one level. -/
def indentText : List UInt8 :=
  ascii "  "

/-- `"%-30s %8.3f ms\n"`. -/
def zoneText (z : ZoneEntry) : List UInt8 :=
  padRight 30 z.name.bytes ++ ascii " " ++ padLeft 8 (formatFixed 3 (nsToMs z.durationNs)) ++ ascii " ms\n"

/-- The title of the counters. -/
def countersText : List UInt8 :=
  ascii "Counters:\n"

/-- `"  %-28s %10.2f\n"`. -/
def counterText (c : CounterEntry) : List UInt8 :=
  ascii "  " ++ padRight 28 c.name.bytes ++ ascii " " ++ padLeft 10 (formatFixed 2 c.value) ++ ascii "\n"

/-- The indentation of a zone. -/
def indent (size : ℕ) : ℕ → Output → Output
  | 0, o => o
  | depth + 1, o => if toSize o.written < size - 1 then indent size depth (o.print size indentText) else o

/-- A zone, indented by its depth. -/
def printZone (size : ℕ) (z : ZoneEntry) (o : Output) : Output :=
  (indent size z.depth o).print size (zoneText formatFixed z)

/-- The zones. -/
def printZones (size : ℕ) : List ZoneEntry → Output → Output
  | [], o => o
  | z :: zones, o =>
      if toSize o.written < size - 1 then printZones size zones (printZone formatFixed size z o)
      else o

/-- The counters; the title is printed with the first one. -/
def printCounters (size : ℕ) : List (Option CounterEntry) → Bool → Output → Output
  | [], _, o => o
  | none :: counters, hasCounters, o => printCounters size counters hasCounters o
  | some c :: counters, hasCounters, o =>
      let o := if hasCounters then o else o.print size countersText
      printCounters size counters true (o.print size (counterText formatFixed c))

/-- `lgx_prof_dump_last_frame`: what is written is returned, and the calls of `snprintf` are recorded. -/
def dumpLastFrame (ctx : ProfContext) (size : ℕ) : Output :=
  if size = 0 then .empty
  else
    printCounters formatFixed size ctx.counters false
      (printZones formatFixed size ctx.lastZones (Output.empty.print size (headerText formatFixed ctx)))

end LgxRuntime.Profile
