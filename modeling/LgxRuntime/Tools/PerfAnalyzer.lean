import LgxRuntime.Lib.CString
import LgxRuntime.Lib.Qsort
import LgxRuntime.Machine
import LgxRuntime.Runtime.Core
import Mathlib.Order.Defs.LinearOrder

/-!
# The performance analyzer

The analyzer accumulates the times of named zones in a table of fixed size, and reports the zones with the
largest total times.  Times are `double` in the source; here they are the elements of an ordered type.
-/

namespace LgxRuntime.Tools

open LgxRuntime.Runtime (LgxResult)

/-- `zone_entry_t` in `lgx_tools.c`, whose name has room for 63 characters. -/
structure ZoneEntry (Time : Type) where
  name : CString
  totalMs : Time
  callCount : UInt32

/-- `lgx_hot_zone_t`. -/
structure HotZone (Time : Type) where
  name : CString
  totalMs : Time
  avgMs : Time
  callCount : UInt32

/-- The zones of an `lgx_perf_analyzer`: those in use are at the front of the table. -/
structure PerfAnalyzer (Time : Type) where
  maxZones : UInt32
  zones : List (ZoneEntry Time)
  zones_le : zones.length ≤ maxZones.toNat

variable {Time : Type}

namespace PerfAnalyzer

/-- `lgx_perf_create`, with at least one zone. -/
def create (maxZones : UInt32) : PerfAnalyzer Time where
  maxZones := if 0 < maxZones then maxZones else 256
  zones := []
  zones_le := Nat.zero_le _

/-- `zone_count`. -/
def zoneCount (a : PerfAnalyzer Time) : ℕ :=
  a.zones.length

/-- `lgx_perf_record_zone`. -/
def recordZone [Add Time] (a : PerfAnalyzer Time) (name : CString) (timeMs : Time) :
    LgxResult × PerfAnalyzer Time :=
  match a.zones.findIdx? fun z => z.name = name with
  | some i =>
      (.success, { a with
        zones := a.zones.modify i fun z =>
          { z with totalMs := z.totalMs + timeMs, callCount := z.callCount + 1 }
        zones_le := by
          rw [List.length_modify]
          exact a.zones_le })
  | none =>
      if hroom : a.maxZones.toNat ≤ a.zoneCount then (.invalidParam, a)
      else
        (.success, { a with
          zones := a.zones ++ [⟨name.truncate 63, timeMs, 1⟩]
          zones_le := by
            rw [List.length_append]
            exact not_le.mp hroom })

/-- Some recordings, one after the other. -/
def recordZones [Add Time] (a : PerfAnalyzer Time) (recordings : List (CString × Time)) : PerfAnalyzer Time :=
  recordings.foldl (fun a r => (a.recordZone r.1 r.2).2) a

end PerfAnalyzer

/-! ## Hot zones -/

variable [LinearOrder Time] [Zero Time] [Div Time] [NatCast Time]

/-- `cmp_zone_desc`. -/
def cmpZoneDesc (za zb : HotZone Time) : ℤ :=
  if zb.totalMs < za.totalMs then -1
  else if za.totalMs < zb.totalMs then 1
  else 0

/-- What is reported of a zone. -/
def ZoneEntry.hot (z : ZoneEntry Time) : HotZone Time where
  name := z.name.truncate 63
  totalMs := z.totalMs
  avgMs := if 0 < z.callCount then z.totalMs / (z.callCount.toNat : Time) else 0
  callCount := z.callCount

/-- `lgx_perf_get_hot_zones`, which returns the length of the list.  With a count that the cast to `int` makes
negative, `qsort` is told to sort more than there is: then the result is undefined. -/
def PerfAnalyzer.getHotZones (qsort : Qsort (HotZone Time)) (a : PerfAnalyzer Time) (maxCount : ℤ) :
    Option (List (HotZone Time)) :=
  if maxCount ≤ 0 then some []
  else
    let count := min (toInt a.zoneCount) maxCount
    if count < 0 then none
    else some (qsort.sort cmpZoneDesc ((a.zones.take count.toNat).map ZoneEntry.hot))

/-- The reported zones are the hottest: `n` of them or all, in the order of their total times, and no zone that
is left out has a larger total time than one that is reported. -/
structure Hottest (zones : List (ZoneEntry Time)) (n : ℕ) (out : List (HotZone Time)) : Prop where
  length : out.length = min n zones.length
  sorted : out.Pairwise fun za zb => zb.totalMs ≤ za.totalMs
  selected : ∃ chosen left : List (ZoneEntry Time), (chosen ++ left).Perm zones ∧ out.Perm (chosen.map ZoneEntry.hot) ∧
    ∀ z ∈ left, ∀ hot ∈ out, z.totalMs ≤ hot.totalMs

end LgxRuntime.Tools
