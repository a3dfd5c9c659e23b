import LgxRuntime.Lib.CString
import LgxRuntime.Runtime.Core

/-!
# The profiler

A frame is a tree of timed zones.  The zones of the frame are in a table; a stack holds the places of those
that are open, and the end of a zone closes the one on top.  Counters are named values that outlive the
frames.  The last frame is kept, and the times of the frames before it, in a ring.
-/

namespace LgxRuntime.Profile

open LgxRuntime.Runtime (LgxResult)

/-- `zone_entry_t` in `lgx_profile.c`. -/
structure ZoneEntry where
  name : CString
  startNs : UInt64
  durationNs : UInt64
  depth : ℕ
  closed : Bool

/-- The zone ends now. -/
def ZoneEntry.close (z : ZoneEntry) (now : UInt64) : ZoneEntry :=
  { z with durationNs := now - z.startNs, closed := true }

/-- `counter_entry_t`, in use; its name has room for 63 characters. -/
structure CounterEntry where
  name : CString
  value : Float

/-- `lgx_prof_config_t`. -/
structure ProfConfig where
  enabled : Bool
  maxZones : UInt32
  maxCounters : UInt32
  maxFrames : UInt32

/-- `lgx_prof_context`.  The zones in use are at the front of their table, the place of the zone opened last is
on top of `zoneStack`, and a counter that is not in use is `none`.  Of the frames in the ring, their times are
kept. -/
structure ProfContext where
  enabled : Bool
  frameStartNs : UInt64
  zones : List ZoneEntry
  maxZones : UInt32
  zoneStack : List ℕ
  counters : List (Option CounterEntry)
  frames : List Float
  frameHead : ℕ
  frameStored : ℕ
  totalFrames : UInt64
  lastFrameMs : Float
  lastZones : List ZoneEntry

/-- `ns_to_ms`. -/
def nsToMs (ns : UInt64) : Float :=
  ns.toFloat / 1000000.0

/-- `lgx_prof_create`, when there is enough memory. -/
def profCreate (config : Option ProfConfig) : ProfContext :=
  let size (field : ProfConfig → UInt32) (default : UInt32) : UInt32 :=
    match config with
    | some config => if 0 < field config then field config else default
    | none => default
  { enabled := match config with
      | some config => config.enabled
      | none => true
    frameStartNs := 0
    zones := []
    maxZones := size ProfConfig.maxZones 256
    zoneStack := []
    counters := List.replicate (size ProfConfig.maxCounters 64).toNat none
    frames := List.replicate (size ProfConfig.maxFrames 120).toNat 0
    frameHead := 0
    frameStored := 0
    totalFrames := 0
    lastFrameMs := 0
    lastZones := [] }

namespace ProfContext

/-- `lgx_prof_frame_begin`. -/
def frameBegin (ctx : ProfContext) (now : UInt64) : LgxResult × ProfContext :=
  if !ctx.enabled then (.success, ctx)
  else (.success, { ctx with frameStartNs := now, zones := [], zoneStack := [] })

/-- `lgx_prof_frame_end`. -/
def frameEnd (ctx : ProfContext) (now : UInt64) : LgxResult × ProfContext :=
  if !ctx.enabled then (.success, ctx)
  else
    let frameMs := nsToMs (now - ctx.frameStartNs)
    (.success, { ctx with
      lastFrameMs := frameMs
      lastZones := ctx.zones
      frames := ctx.frames.set ctx.frameHead frameMs
      frameHead := (ctx.frameHead + 1) % ctx.frames.length
      frameStored := if ctx.frameStored < ctx.frames.length then ctx.frameStored + 1 else ctx.frameStored
      totalFrames := ctx.totalFrames + 1 })

/-- `lgx_prof_zone_begin`. -/
def zoneBegin (ctx : ProfContext) (name : Option CString) (now : UInt64) : LgxResult × ProfContext :=
  match name with
  | none => (.invalidParam, ctx)
  | some name =>
      if !ctx.enabled then (.success, ctx)
      else if ctx.maxZones.toNat ≤ ctx.zones.length then (.invalidParam, ctx)
      else if 64 ≤ ctx.zoneStack.length then (.invalidParam, ctx)
      else
        (.success, { ctx with
          zones := ctx.zones ++ [⟨name, now, 0, ctx.zoneStack.length, false⟩]
          zoneStack := ctx.zones.length :: ctx.zoneStack })

/-- `lgx_prof_zone_end`. -/
def zoneEnd (ctx : ProfContext) (now : UInt64) : LgxResult × ProfContext :=
  if !ctx.enabled then (.success, ctx)
  else
    match ctx.zoneStack with
    | [] => (.invalidParam, ctx)
    | idx :: zoneStack =>
        (.success, { ctx with
          zones := ctx.zones.modify idx fun z => z.close now
          zoneStack := zoneStack })

/-! ## Counters -/

/-- `find_counter`: the place of the counter, which is created first if there is none and `create` is set. -/
def findCounter (ctx : ProfContext) (name : CString) (create : Bool) : Option ℕ × ProfContext :=
  match ctx.counters.findIdx? fun c => c.any fun c => c.name = name with
  | some i => (some i, ctx)
  | none =>
      if !create then (none, ctx)
      else
        match ctx.counters.findIdx? Option.isNone with
        | some i => (some i, { ctx with counters := ctx.counters.set i (some ⟨name.truncate 63, 0⟩) })
        | none => (none, ctx)

/-- Change the value of the counter with this name. -/
def changeCounter (ctx : ProfContext) (name : CString) (change : Float → Float) : LgxResult × ProfContext :=
  if !ctx.enabled then (.success, ctx)
  else
    match ctx.findCounter name true with
    | (some i, ctx) =>
        (.success, { ctx with
          counters := ctx.counters.modify i (Option.map fun c => { c with value := change c.value }) })
    | (none, ctx) => (.invalidParam, ctx)

/-- `lgx_prof_counter_set`. -/
def counterSet (ctx : ProfContext) (name : CString) (value : Float) : LgxResult × ProfContext :=
  ctx.changeCounter name fun _ => value

/-- `lgx_prof_counter_add`. -/
def counterAdd (ctx : ProfContext) (name : CString) (delta : Float) : LgxResult × ProfContext :=
  ctx.changeCounter name fun value => value + delta

/-- `lgx_prof_get_counter`. -/
def getCounter (ctx : ProfContext) (name : CString) : Float :=
  match ((ctx.findCounter name false).1.bind fun i => ctx.counters[i]?).join with
  | some c => c.value
  | none => 0

/-! ## Queries -/

/-- `lgx_prof_get_fps`. -/
def getFps (ctx : ProfContext) : Float :=
  if ctx.frameStored = 0 then 0
  else
    let start := (ctx.frameHead + ctx.frames.length - ctx.frameStored) % ctx.frames.length
    let totalMs := (List.range ctx.frameStored).foldl
      (fun total i => total + ctx.frames.getD ((start + i) % ctx.frames.length) 0) 0
    if totalMs < 0.001 then 0 else ctx.frameStored.toFloat / (totalMs / 1000.0)

end ProfContext

/-- A call that changes a counter. -/
inductive CounterCall
  | set (name : CString) (value : Float)
  | add (name : CString) (delta : Float)

/-- The name of the counter. -/
def CounterCall.name : CounterCall → CString
  | .set name _ => name
  | .add name _ => name

/-- What the call makes of a value. -/
def CounterCall.change : CounterCall → Float → Float
  | .set _ value, _ => value
  | .add _ delta, value => value + delta

/-- The profiler after a call that changes a counter. -/
def ProfContext.changed (ctx : ProfContext) : CounterCall → ProfContext
  | .set name value => (ctx.counterSet name value).2
  | .add name delta => (ctx.counterAdd name delta).2

end LgxRuntime.Profile
