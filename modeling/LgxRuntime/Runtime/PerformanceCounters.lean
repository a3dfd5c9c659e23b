import LgxRuntime.Lib.CString

/-!
# Custom counters

The registry has a fixed number of slots.  A counter is registered under a name, and its slot is its number.
-/

namespace LgxRuntime.PerformanceCounters

/-- `MAX_CUSTOM_COUNTERS`. -/
def maxCustomCounters : ℕ := 256

/-- `custom_counter_entry_t`, in use; its name has room for 63 characters. -/
structure CustomCounter where
  name : CString
  value : UInt64

/-- `g_registry` and `g_registry_initialized`.  A slot that is not in use is `none`. -/
structure Registry where
  initialized : Bool
  counters : List (Option CustomCounter)

/-- `lgx_counters_init`, when the mutex can be initialised. -/
def countersInit (r : Registry) : Registry :=
  if r.initialized then r else ⟨true, List.replicate maxCustomCounters none⟩

/-- `(lgx_custom_counter_t)-1`. -/
def noCounter : ℕ := 4294967295

namespace Registry

/-- `lgx_register_counter`. -/
def registerCounter (r : Registry) (name : CString) : ℕ × Registry :=
  if !r.initialized then (noCounter, r)
  else
    match r.counters.findIdx? fun c => c.any fun c => c.name = name with
    | some i => (i, r)
    | none =>
        match r.counters.findIdx? Option.isNone with
        | some i => (i, { r with counters := r.counters.set i (some ⟨name.truncate 63, 0⟩) })
        | none => (noCounter, r)

/-- `lgx_add_to_counter`. -/
def addToCounter (r : Registry) (counter : ℕ) (value : UInt64) : Registry :=
  if maxCustomCounters ≤ counter || !r.initialized then r
  else
    { r with counters := r.counters.modify counter (Option.map fun c => { c with value := c.value + value }) }

/-- `lgx_get_custom_counter`. -/
def getCustomCounter (r : Registry) (counter : ℕ) : UInt64 :=
  if maxCustomCounters ≤ counter || !r.initialized then 0
  else
    match r.counters[counter]? with
    | some (some c) => c.value
    | _ => 0

/-- The numbers of the counters that are registered under these names, one after the other. -/
def registerCounters (r : Registry) : List CString → List ℕ
  | [] => []
  | name :: names => (r.registerCounter name).1 :: registerCounters (r.registerCounter name).2 names

end Registry

end LgxRuntime.PerformanceCounters
