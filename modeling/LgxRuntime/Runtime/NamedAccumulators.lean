import LgxRuntime.Lib.NamedEntries
import LgxRuntime.Profile.Profiler
import LgxRuntime.Runtime.PerformanceCounters
import LgxRuntime.Tools.PerfAnalyzer

/-!
# One entry per name

Three modules accumulate under names: the performance analyzer, the profiler, and the registry of custom
counters.  Each looks for the full name and keeps the first 63 characters of it.  As long as all names have
63 characters at most and fit the table, each of them is a map from names to what was accumulated.
-/

namespace LgxRuntime

open NamedEntries (Recording record after recorded Fits Tracks slots)

/-- All names have 63 characters at most, and there is room for as many different names. -/
def NamesFit (capacity : ℕ) (names : List CString) : Prop :=
  (∀ name ∈ names, name.length ≤ 63) ∧ names.toFinset.card ≤ capacity

theorem NamesFit.fits {α ε ν : Type} {R : Recording CString α ε ν} {capacity : ℕ}
    {recordings : List (CString × α)} (hstore : R.store = CString.truncate 63)
    (h : NamesFit capacity (recordings.map Prod.fst)) : Fits R capacity recordings := by
  refine ⟨fun r hr => ?_, h.2⟩
  rw [hstore]
  exact CString.truncate_eq_self_iff.mpr (h.1 r.1 (List.mem_map_of_mem hr))

/-! ## The zones of the performance analyzer -/

namespace Tools

variable {Time : Type} [Add Time]

/-- What a zone has accumulated after one more sample. -/
def addSample (timeMs : Time) : Option (Time × UInt32) → Time × UInt32
  | none => (timeMs, 1)
  | some (totalMs, callCount) => (totalMs + timeMs, callCount + 1)

/-- How the zones record samples. -/
def zoneRecording : Recording CString Time (ZoneEntry Time) (Time × UInt32) where
  key z := z.name
  value z := (z.totalMs, z.callCount)
  store := CString.truncate 63
  hit timeMs z := { z with totalMs := z.totalMs + timeMs, callCount := z.callCount + 1 }
  fresh name timeMs := ⟨name.truncate 63, timeMs, 1⟩
  apply := addSample
  key_hit _ _ := rfl
  value_hit _ _ := rfl
  key_fresh _ _ := rfl
  value_fresh _ _ := rfl

theorem recordZone_zones (a : PerfAnalyzer Time) (name : CString) (timeMs : Time) :
    (a.recordZone name timeMs).2.zones =
      ((record zoneRecording a.maxZones.toNat name timeMs a.zones).map Prod.snd).getD a.zones := by
  unfold PerfAnalyzer.recordZone record PerfAnalyzer.zoneCount zoneRecording
  cases a.zones.findIdx? fun z => z.name = name with
  | some i => rfl
  | none =>
      by_cases hroom : a.zones.length < a.maxZones.toNat
      · simp only [if_pos hroom, dif_neg (not_le.mpr hroom)]
        rfl
      · simp [hroom, not_lt.mp hroom]

theorem recordZone_maxZones (a : PerfAnalyzer Time) (name : CString) (timeMs : Time) :
    (a.recordZone name timeMs).2.maxZones = a.maxZones := by
  unfold PerfAnalyzer.recordZone
  split
  · rfl
  · split_ifs <;> rfl

theorem recordZones_eq (maxZones : UInt32) (recordings : List (CString × Time)) :
    ((PerfAnalyzer.create maxZones).recordZones recordings).maxZones =
        (PerfAnalyzer.create maxZones : PerfAnalyzer Time).maxZones ∧
      ((PerfAnalyzer.create maxZones).recordZones recordings).zones =
        after zoneRecording (PerfAnalyzer.create maxZones : PerfAnalyzer Time).maxZones.toNat recordings := by
  induction recordings using List.reverseRecOn with
  | nil => exact ⟨rfl, rfl⟩
  | append_singleton recordings r ih =>
      obtain ⟨hmax, hzones⟩ := ih
      rw [NamedEntries.after_concat, ← hzones, PerfAnalyzer.recordZones, List.foldl_append]
      refine ⟨(recordZone_maxZones _ _ _).trans hmax, ?_⟩
      rw [← hmax]
      exact recordZone_zones _ _ _

/-- All samples of one name, in the order in which they were recorded: their sum and their number. -/
def samples (recordings : List (CString × Time)) (name : CString) : Option (Time × UInt32) :=
  match (recordings.filter fun r => r.1 = name).map Prod.snd with
  | [] => none
  | first :: rest => some (rest.foldl (· + ·) first, .ofNat (rest.length + 1))

theorem recorded_eq_samples (recordings : List (CString × Time)) :
    recorded zoneRecording recordings = samples recordings := by
  induction recordings using List.reverseRecOn with
  | nil => rfl
  | append_singleton recordings r ih =>
      funext name
      rw [NamedEntries.recorded_concat, ih]
      by_cases hname : name = r.1
      · subst hname
        simp only [Function.update_self, samples, List.filter_append, List.map_append]
        cases (recordings.filter fun r' => r'.1 = r.1).map Prod.snd with
        | nil => simp [zoneRecording, addSample]
        | cons first rest => simp [zoneRecording, addSample, UInt32.ofNat_add]
      · simp [hname, samples, Ne.symm hname]

end Tools

/-! ## The registry -/

namespace PerformanceCounters

/-- How the registry records names. -/
def counterRecording : Recording CString Unit CustomCounter UInt64 where
  key c := c.name
  value c := c.value
  store := CString.truncate 63
  hit _ c := c
  fresh name _ := ⟨name.truncate 63, 0⟩
  apply _ value := value.getD 0
  key_hit _ _ := rfl
  value_hit _ _ := rfl
  key_fresh _ _ := rfl
  value_fresh _ _ := rfl

variable {table : List CustomCounter} {name : CString}

/-- The registry records the name in its slots. -/
theorem registerCounter_eq {i : ℕ} {table' : List CustomCounter}
    (hrecord : record counterRecording maxCustomCounters name () table = some (i, table')) :
    Registry.registerCounter ⟨true, slots maxCustomCounters table⟩ name =
      (i, ⟨true, slots maxCustomCounters table'⟩) := by
  unfold record counterRecording at hrecord
  unfold Registry.registerCounter
  rw [NamedEntries.findIdx?_slots, NamedEntries.findIdx?_isNone_slots]
  cases hfind : table.findIdx? fun c => c.name = name with
  | some i =>
      simp only [hfind, Option.some.injEq, Prod.mk.injEq] at hrecord
      obtain ⟨rfl, rfl⟩ := hrecord
      have hsame : (table.modify i fun c => c) = table := List.modify_id i table
      simp [hsame]
  | none =>
      simp only [hfind] at hrecord
      obtain ⟨hroom, hrecord⟩ := Option.ite_none_right_eq_some.mp hrecord
      simp only [Option.some.injEq, Prod.mk.injEq] at hrecord
      obtain ⟨rfl, rfl⟩ := hrecord
      simp [hroom, NamedEntries.set_slots hroom]

/-- The numbers are the places of the names. -/
theorem registerCounters_eq {before names : List (CString × Unit)}
    (hfits : Fits counterRecording maxCustomCounters (before ++ names)) :
    Registry.registerCounters
        ⟨true, slots maxCustomCounters (after counterRecording maxCustomCounters before)⟩
        (names.map Prod.fst) =
      names.map fun r =>
        ((after counterRecording maxCustomCounters (before ++ names)).map CustomCounter.name).idxOf r.1 := by
  induction names generalizing before with
  | nil => rfl
  | cons r names ih =>
      have hplace := NamedEntries.record_place_eq hfits
      have happend : before ++ r :: names = (before ++ [r]) ++ names := by simp
      obtain ⟨⟨i, table'⟩, hrecord, hi⟩ := Option.map_eq_some_iff.mp hplace
      have hafter : after counterRecording maxCustomCounters (before ++ [r]) = table' := by
        rw [NamedEntries.after_concat, hrecord]
        rfl
      rw [List.map_cons, Registry.registerCounters, registerCounter_eq hrecord, ← hafter,
        ih (happend ▸ hfits), ← happend, List.map_cons]
      exact congrArg₂ List.cons hi rfl

/-- Two numbers are the same exactly if the names are. -/
theorem registerCounters_inj {names : List CString} (hfit : NamesFit maxCustomCounters names) {i j : ℕ}
    {name name' : CString} (hi : names[i]? = some name) (hj : names[j]? = some name') :
    ((countersInit ⟨false, []⟩).registerCounters names)[i]? =
        ((countersInit ⟨false, []⟩).registerCounters names)[j]? ↔ name = name' := by
  have hnames : (names.map fun name => (name, ())).map Prod.fst = names := by simp [Function.comp_def]
  have hfits : Fits counterRecording maxCustomCounters ([] ++ names.map fun name => (name, ())) :=
    NamesFit.fits rfl (by rwa [List.nil_append, hnames])
  have hplaces := registerCounters_eq hfits
  have hmem : name ∈ (after counterRecording maxCustomCounters ([] ++ names.map fun name => (name, ()))).map
      CustomCounter.name :=
    ((NamedEntries.tracks_after hfits).mem_iff name).mpr (by simpa using List.mem_of_getElem? hi)
  have hinit : countersInit ⟨false, []⟩ =
      ⟨true, slots maxCustomCounters (after counterRecording maxCustomCounters [])⟩ := by
    rw [after, List.foldl_nil, NamedEntries.slots_nil]
    rfl
  rw [hnames, ← hinit] at hplaces
  rw [hplaces]
  simp only [List.getElem?_map, hi, hj, Option.map_some, Option.some.injEq]
  exact List.idxOf_inj hmem

end PerformanceCounters

/-! ## The counters of the profiler -/

namespace Profile

/-- How the profiler records changes. -/
def counterRecording : Recording CString (Float → Float) CounterEntry Float where
  key c := c.name
  value c := c.value
  store := CString.truncate 63
  hit change c := { c with value := change c.value }
  fresh name change := ⟨name.truncate 63, change 0⟩
  apply change value := change (value.getD 0)
  key_hit _ _ := rfl
  value_hit _ _ := rfl
  key_fresh _ _ := rfl
  value_fresh _ _ := rfl

variable {table table' : List CounterEntry} {name : CString} {change : Float → Float} {capacity i : ℕ}
  {ctx : ProfContext}

/-- The profiler records the change in its slots. -/
theorem changeCounter_counters (henabled : ctx.enabled = true) (hcounters : ctx.counters = slots capacity table)
    (hrecord : record counterRecording capacity name change table = some (i, table')) :
    (ctx.changeCounter name change).2 = { ctx with counters := slots capacity table' } := by
  unfold record counterRecording at hrecord
  unfold ProfContext.changeCounter ProfContext.findCounter
  rw [hcounters, NamedEntries.findIdx?_slots, NamedEntries.findIdx?_isNone_slots]
  cases hfind : table.findIdx? fun c => c.name = name with
  | some i =>
      have hi : i < table.length := (List.findIdx?_eq_some_iff_findIdx_eq.mp hfind).1
      simp only [hfind, Option.some.injEq, Prod.mk.injEq] at hrecord
      obtain ⟨rfl, rfl⟩ := hrecord
      simp [henabled, hcounters, NamedEntries.modify_slots hi]
  | none =>
      simp only [hfind] at hrecord
      obtain ⟨hroom, hrecord⟩ := Option.ite_none_right_eq_some.mp hrecord
      simp only [Option.some.injEq, Prod.mk.injEq] at hrecord
      obtain ⟨rfl, rfl⟩ := hrecord
      let fresh : CounterEntry := ⟨name.truncate 63, 0⟩
      have hi : table.length < (table ++ [fresh]).length := by simp
      have hmodify : (table ++ [fresh]).modify table.length (fun c => { c with value := change c.value }) =
          table ++ [⟨name.truncate 63, change 0⟩] := by
        rw [List.modify_eq_take_cons_drop hi]
        simp [fresh]
      have hset := NamedEntries.set_slots hroom fresh
      simp only [henabled, Bool.not_true, Bool.false_eq_true, if_false, if_pos hroom]
      rw [hset, NamedEntries.modify_slots hi, hmodify]

/-- The value of a name is that of its counter, if there is one. -/
theorem getCounter_eq {recordings : List (CString × (Float → Float))}
    (hcounters : ctx.counters = slots capacity table) (htracks : Tracks counterRecording table recordings)
    (name : CString) :
    ctx.getCounter name = (recorded counterRecording recordings name).getD 0 := by
  unfold ProfContext.getCounter ProfContext.findCounter
  rw [hcounters, NamedEntries.findIdx?_slots]
  cases hfind : table.findIdx? fun c => c.name = name with
  | some i =>
      obtain ⟨hi, hname, -⟩ := List.findIdx?_eq_some_iff_getElem.mp hfind
      have hvalue := htracks.holds.eq_some (List.getElem_mem hi)
      have hname : counterRecording.key table[i] = name := of_decide_eq_true hname
      rw [hname] at hvalue
      simp only [Option.bind_some, NamedEntries.getElem?_slots hi, Option.join_some, hvalue, Option.getD_some]
      rfl
  | none =>
      have hnone : recorded counterRecording recordings name = none := by
        rw [← Option.not_isSome_iff_eq_none, NamedEntries.isSome_recorded, ← htracks.mem_iff]
        simpa [counterRecording] using hfind
      simp [hnone]

theorem changed_eq (ctx : ProfContext) (call : CounterCall) :
    ctx.changed call = (ctx.changeCounter call.name call.change).2 := by
  cases call <;> rfl

theorem foldl_changed_of_disabled (hdisabled : ctx.enabled = false) (calls : List CounterCall) :
    calls.foldl ProfContext.changed ctx = ctx := by
  induction calls with
  | nil => rfl
  | cons call calls ih =>
      have hsame : ctx.changed call = ctx := by
        simp [changed_eq, ProfContext.changeCounter, hdisabled]
      rw [List.foldl_cons, hsame, ih]

/-- The slots of an enabled profiler after some calls. -/
theorem foldl_changed (henabled : ctx.enabled = true) (hcounters : ctx.counters = slots capacity [])
    (calls : List CounterCall)
    (hfits : Fits counterRecording capacity (calls.map fun call => (call.name, call.change))) :
    calls.foldl ProfContext.changed ctx =
      { ctx with
        counters := slots capacity
          (after counterRecording capacity (calls.map fun call => (call.name, call.change))) } := by
  induction calls using List.reverseRecOn with
  | nil =>
      rw [List.map_nil, after, List.foldl_nil, List.foldl_nil, ← hcounters]
  | append_singleton calls call ih =>
      rw [List.map_append] at hfits ⊢
      obtain ⟨table', hrecord, -⟩ :=
        (NamedEntries.tracks_after hfits.left).record (r := (call.name, call.change)) (hfits.1 _ (by simp)) hfits.2
      rw [List.foldl_append, ih hfits.left, List.foldl_cons, List.foldl_nil, changed_eq]
      refine (changeCounter_counters (by exact henabled) (by rfl) hrecord).trans ?_
      rw [List.map_singleton, NamedEntries.after_concat, hrecord]
      rfl

/-- The value that some calls have accumulated under a name. -/
def accumulated (calls : List CounterCall) (name : CString) : Float :=
  calls.foldl (fun value call => if call.name = name then call.change value else value) 0

theorem recorded_eq_accumulated (calls : List CounterCall) (name : CString) :
    (recorded counterRecording (calls.map fun call => (call.name, call.change)) name).getD 0 =
      accumulated calls name := by
  induction calls using List.reverseRecOn with
  | nil => rfl
  | append_singleton calls call ih =>
      rw [List.map_append, List.map_singleton, NamedEntries.recorded_concat, accumulated, List.foldl_append,
        ← accumulated, ← ih]
      by_cases hname : name = call.name
      · simp [hname, counterRecording]
      · simp [hname, Ne.symm hname]

/-- Every counter has the value that the calls have accumulated; a disabled profiler accumulates nothing. -/
theorem getCounter_foldl_changed (config : Option ProfConfig) {calls : List CounterCall}
    (hfit : NamesFit (profCreate config).counters.length (calls.map CounterCall.name)) (name : CString) :
    (calls.foldl ProfContext.changed (profCreate config)).getCounter name =
      if (profCreate config).enabled then accumulated calls name else 0 := by
  have hcounters : (profCreate config).counters = slots (profCreate config).counters.length [] := by
    rw [NamedEntries.slots_nil]
    simp [profCreate]
  by_cases henabled : (profCreate config).enabled = true
  · have hfits : Fits counterRecording (profCreate config).counters.length
        (calls.map fun call => (call.name, call.change)) :=
      NamesFit.fits rfl (by simpa [Function.comp_def] using hfit)
    rw [if_pos henabled, foldl_changed henabled hcounters calls hfits,
      getCounter_eq rfl (NamedEntries.tracks_after hfits), recorded_eq_accumulated]
  · rw [if_neg henabled, foldl_changed_of_disabled (by simpa using henabled),
      getCounter_eq hcounters (NamedEntries.tracks_nil _)]
    rfl

end Profile

/-! ## One entry per name -/

open Tools PerformanceCounters Profile in
/-- If all names have 63 characters at most and fit the table, the analyzer keeps one zone for each name, with
all of its samples, the registry has one number for each name, and a counter of the profiler has the value that
was accumulated under its name. -/
theorem one_entry_per_name {Time : Type} [Add Time] :
    (∀ (maxZones : UInt32) (recordings : List (CString × Time)),
      NamesFit (PerfAnalyzer.create maxZones : PerfAnalyzer Time).maxZones.toNat (recordings.map Prod.fst) →
        KeyTable.Holds Tools.ZoneEntry.name (fun z => (z.totalMs, z.callCount))
          ((PerfAnalyzer.create maxZones).recordZones recordings).zones (samples recordings)) ∧
    (∀ (names : List CString) (i j : ℕ) (name name' : CString), NamesFit maxCustomCounters names →
      names[i]? = some name → names[j]? = some name' →
        (((countersInit ⟨false, []⟩).registerCounters names)[i]? =
          ((countersInit ⟨false, []⟩).registerCounters names)[j]? ↔ name = name')) ∧
    ∀ (config : Option ProfConfig) (calls : List CounterCall) (name : CString),
      NamesFit (profCreate config).counters.length (calls.map CounterCall.name) →
        (calls.foldl ProfContext.changed (profCreate config)).getCounter name =
          if (profCreate config).enabled then accumulated calls name else 0 := by
  refine ⟨fun maxZones recordings hfit => ?_, fun names i j name name' hfit hi hj => ?_,
    fun config calls name hfit => ?_⟩
  · rw [(recordZones_eq maxZones recordings).2, ← recorded_eq_samples]
    exact (NamedEntries.tracks_after (NamesFit.fits (R := zoneRecording) rfl hfit)).holds
  · exact registerCounters_inj hfit hi hj
  · exact getCounter_foldl_changed config hfit name

/-- The name `a`. -/
def shortName : CString :=
  .replicate 1 97 CString.beq_zero_a

open Tools PerformanceCounters Profile in
/-- Two samples of one name are in one zone, one name has one number, and two changes make one value. -/
theorem one_entry_shortName :
    KeyTable.Holds Tools.ZoneEntry.name (fun z => (z.totalMs, z.callCount))
        ((PerfAnalyzer.create 1).recordZones [(shortName, 2), (shortName, 3)]).zones
        (samples [(shortName, 2), (shortName, 3)]) ∧
      (((countersInit ⟨false, []⟩).registerCounters [shortName, shortName])[0]? =
        ((countersInit ⟨false, []⟩).registerCounters [shortName, shortName])[1]? ↔ shortName = shortName) ∧
      ([CounterCall.set shortName 1, .add shortName 2].foldl ProfContext.changed (profCreate none)).getCounter
        shortName = accumulated [.set shortName 1, .add shortName 2] shortName :=
  ⟨(@one_entry_per_name ℕ _).1 1 _ ⟨by decide, by decide⟩,
    (@one_entry_per_name ℕ _).2.1 [shortName, shortName] 0 1 shortName shortName ⟨by decide, by decide⟩ rfl rfl,
    (@one_entry_per_name ℕ _).2.2 none _ shortName ⟨by decide, by decide⟩⟩

/-- A name of 64 characters. -/
def longName : CString :=
  .replicate 64 97 CString.beq_zero_a

open PerformanceCounters in
/-- A counter whose name has 64 characters is registered again under a second number. -/
theorem two_entries_longName :
    ¬ ∀ (names : List CString) (i j : ℕ) (name name' : CString), names.toFinset.card ≤ maxCustomCounters →
      names[i]? = some name → names[j]? = some name' →
        (((countersInit ⟨false, []⟩).registerCounters names)[i]? =
          ((countersInit ⟨false, []⟩).registerCounters names)[j]? ↔ name = name') := by
  intro h
  have hids : (countersInit ⟨false, []⟩).registerCounters [longName, longName] = [0, 1] := by
    have hlong : longName.truncate 63 ≠ longName := by
      rw [Ne, CString.truncate_eq_self_iff]
      decide
    have hfirst : record counterRecording maxCustomCounters longName () [] =
        some (0, [⟨longName.truncate 63, 0⟩]) :=
      NamedEntries.record_of_not_mem (List.not_mem_nil) (by decide)
    have hsecond : record counterRecording maxCustomCounters longName () [⟨longName.truncate 63, 0⟩] =
        some (1, [⟨longName.truncate 63, 0⟩] ++ [⟨longName.truncate 63, 0⟩]) :=
      NamedEntries.record_of_not_mem (by simpa [counterRecording] using hlong.symm) (by decide)
    have hinit : countersInit ⟨false, []⟩ = ⟨true, slots maxCustomCounters []⟩ := by
      rw [NamedEntries.slots_nil]
      rfl
    rw [hinit, Registry.registerCounters, registerCounter_eq hfirst, Registry.registerCounters,
      registerCounter_eq hsecond, Registry.registerCounters]
  have hsame := (h [longName, longName] 0 1 longName longName (by simp [maxCustomCounters]) rfl rfl).mpr rfl
  rw [hids] at hsame
  cases hsame

end LgxRuntime
