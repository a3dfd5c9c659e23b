import LgxRuntime.Tools.PerfAnalyzer

/-!
# The hottest zones

`lgx_perf_get_hot_zones` cuts the table to the number of zones that it is to report, and sorts what is left.
What it reports are the hottest zones only if these are in front of the table already.
-/

namespace LgxRuntime.Tools

open scoped List

variable {Time : Type} [LinearOrder Time] [Zero Time] [Div Time] [NatCast Time]
  {qsort : Qsort (HotZone Time)} {a : PerfAnalyzer Time} {maxCount : ℤ} {out : List (HotZone Time)}

/-! ## The comparison -/

omit [Zero Time] [Div Time] [NatCast Time] in
theorem cmpZoneDesc_le_iff (za zb : HotZone Time) : cmpZoneDesc za zb ≤ 0 ↔ zb.totalMs ≤ za.totalMs := by
  unfold cmpZoneDesc
  split_ifs with h h'
  · simp [h.le]
  · simp [h']
  · simpa using h'

omit [Zero Time] [Div Time] [NatCast Time] in
theorem consistent_cmpZoneDesc : Consistent (cmpZoneDesc : HotZone Time → HotZone Time → ℤ) where
  total za zb := by
    rw [cmpZoneDesc_le_iff, cmpZoneDesc_le_iff]
    exact le_total _ _
  trans za zb zc hab hbc := by
    rw [cmpZoneDesc_le_iff] at hab hbc ⊢
    exact hbc.trans hab

/-! ## The count -/

/-- The cast of a `uint32_t` from 2^31 on is negative. -/
theorem toInt_neg {n : ℕ} (hlow : intMax < n) (hhigh : n < 2 ^ 32) : toInt n < 0 := by
  unfold intMax at hlow
  rw [toInt, BitVec.toInt_ofNat', Int.bmod_def]
  omega

omit [Zero Time] [Div Time] [NatCast Time] [LinearOrder Time] in
theorem PerfAnalyzer.zoneCount_lt (a : PerfAnalyzer Time) : a.zoneCount < 2 ^ 32 :=
  lt_of_le_of_lt a.zones_le a.maxZones.toNat_lt

/-- What is reported is undefined if the count is negative, and otherwise the front of the table, sorted. -/
theorem getHotZones_eq (hmax : 1 ≤ maxCount) :
    a.getHotZones qsort maxCount =
      if a.zoneCount ≤ intMax then
        some (qsort.sort cmpZoneDesc ((a.zones.take maxCount.toNat).map ZoneEntry.hot))
      else none := by
  rw [PerfAnalyzer.getHotZones, if_neg (by omega)]
  by_cases hcount : a.zoneCount ≤ intMax
  · have htake : a.zones.take (min (toInt a.zoneCount) maxCount).toNat = a.zones.take maxCount.toNat := by
      rw [toInt_of_le hcount, List.take_eq_take_iff]
      change min _ a.zoneCount = min _ a.zoneCount
      omega
    rw [if_pos hcount, if_neg (by rw [toInt_of_le hcount]; omega), htake]
  · have hneg := toInt_neg (not_le.mp hcount) a.zoneCount_lt
    rw [if_neg hcount, if_pos (by omega)]

/-! ## The selection -/

/-- The front of the table, sorted, is what was to be reported exactly if no zone behind has a larger total. -/
theorem hottest_sort_iff {zones : List (ZoneEntry Time)} {n : ℕ} :
    Hottest zones n (qsort.sort cmpZoneDesc ((zones.take n).map ZoneEntry.hot)) ↔
      ∀ z ∈ zones.drop n, ∀ z' ∈ zones.take n, z.totalMs ≤ z'.totalMs := by
  have hperm := qsort.perm cmpZoneDesc ((zones.take n).map ZoneEntry.hot)
  constructor
  · rintro ⟨-, -, chosen, left, hzones, hout, hleft⟩ z hz z' hz'
    have hfront : (chosen.map ZoneEntry.totalMs).Perm ((zones.take n).map ZoneEntry.totalMs) := by
      simpa [ZoneEntry.hot, Function.comp_def] using (hout.symm.trans hperm).map HotZone.totalMs
    have hall : (chosen.map ZoneEntry.totalMs ++ left.map ZoneEntry.totalMs).Perm
        (chosen.map ZoneEntry.totalMs ++ (zones.drop n).map ZoneEntry.totalMs) :=
      calc chosen.map ZoneEntry.totalMs ++ left.map ZoneEntry.totalMs
        _ = (chosen ++ left).map ZoneEntry.totalMs := by rw [List.map_append]
        _ ~ (zones.take n ++ zones.drop n).map ZoneEntry.totalMs := by
          rw [List.take_append_drop]
          exact hzones.map _
        _ = (zones.take n).map ZoneEntry.totalMs ++ (zones.drop n).map ZoneEntry.totalMs := by
          rw [List.map_append]
        _ ~ _ := hfront.symm.append_right _
    have hmem : z.totalMs ∈ left.map ZoneEntry.totalMs :=
      ((List.perm_append_left_iff _).mp hall).mem_iff.mpr (List.mem_map_of_mem hz)
    obtain ⟨z₂, hz₂, htotal⟩ := List.mem_map.mp hmem
    rw [← htotal]
    exact hleft z₂ hz₂ z'.hot (hperm.mem_iff.mpr (List.mem_map_of_mem hz'))
  · intro h
    refine ⟨?_, ?_, zones.take n, zones.drop n, ?_, hperm, ?_⟩
    · rw [hperm.length_eq, List.length_map, List.length_take]
    · exact (qsort.sorted _ _ consistent_cmpZoneDesc).imp fun {za zb} h => (cmpZoneDesc_le_iff za zb).mp h
    · rw [List.take_append_drop]
    · intro z hz hot hhot
      obtain ⟨z', hz', rfl⟩ := List.mem_map.mp (hperm.mem_iff.mp hhot)
      exact h z hz z' hz'

/-- The reported zones are the hottest exactly if their number fits an `int` and no zone behind the requested
number of zones has a larger total time than one in front. -/
theorem getHotZones_hottest_iff (qsort : Qsort (HotZone Time)) (a : PerfAnalyzer Time) (hmax : 1 ≤ maxCount) :
    (∃ out, a.getHotZones qsort maxCount = some out ∧ Hottest a.zones maxCount.toNat out) ↔
      a.zoneCount ≤ intMax ∧
        ∀ z ∈ a.zones.drop maxCount.toNat, ∀ z' ∈ a.zones.take maxCount.toNat, z.totalMs ≤ z'.totalMs := by
  rw [getHotZones_eq hmax]
  by_cases hcount : a.zoneCount ≤ intMax
  · simp only [hcount, if_true, true_and, Option.some.injEq, exists_eq_left', hottest_sort_iff]
  · simp [hcount]

/-- A zone with a name of one letter. -/
def namedZone (c : UInt8) (hc : (c == 0) = false) (totalMs : ℕ) : ZoneEntry ℕ :=
  ⟨.replicate 1 c hc, totalMs, 1⟩

/-- The zone `a` took 5 ms, and the zone `b` took 1 ms. -/
def hotFirst : PerfAnalyzer ℕ :=
  ⟨2, [namedZone 97 CString.beq_zero_a 5, namedZone 98 CString.beq_zero_b 1], by decide⟩

/-- The zone `a` took 1 ms, and the zone `b` took 5 ms. -/
def hotLast : PerfAnalyzer ℕ :=
  ⟨2, [namedZone 97 CString.beq_zero_a 1, namedZone 98 CString.beq_zero_b 5], by decide⟩

theorem getHotZones_hotFirst :
    ∃ out, hotFirst.getHotZones .mergeSort 1 = some out ∧ Hottest hotFirst.zones 1 out :=
  (getHotZones_hottest_iff .mergeSort hotFirst (by decide)).mpr (by decide)

/-- Of two zones, the first is reported, although the second is hotter. -/
theorem getHotZones_hotLast :
    ¬ ∀ (qsort : Qsort (HotZone ℕ)) (a : PerfAnalyzer ℕ) (maxCount : ℤ), 1 ≤ maxCount →
      ∃ out, a.getHotZones qsort maxCount = some out ∧ Hottest a.zones maxCount.toNat out := by
  intro h
  obtain ⟨out, hout, hhottest⟩ := h .mergeSort hotLast 1 (by decide)
  rw [getHotZones_eq (by decide), if_pos (by decide)] at hout
  obtain rfl := Option.some.inj hout
  exact absurd (hottest_sort_iff.mp hhottest) (by decide)

end LgxRuntime.Tools
