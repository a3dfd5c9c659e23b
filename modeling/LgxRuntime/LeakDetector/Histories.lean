import LgxRuntime.LeakDetector.Detector
import LgxRuntime.Lib.Runs

/-!
# Leaks in a history

What the detector knows is said in terms of all samples so far: a leak is detected exactly if the last ten
transitions have grown, and it has been reported once for each run of ten transitions or more.
-/

namespace LgxRuntime.LeakDetection

variable {Rate Callback : Type} {rate : UInt64 → UInt64 → Rate} {suspicious : Rate → Bool}
  {d : LeakDetector Rate Callback} {history : List MemorySample} {prev sample : MemorySample}

theorem transitions_concat (history : List MemorySample) (prev sample : MemorySample) :
    transitions rate suspicious (history ++ [prev] ++ [sample]) =
      transitions rate suspicious (history ++ [prev]) ++ [grows rate suspicious prev sample] := by
  induction history with
  | nil => rfl
  | cons first history ih =>
      cases history with
      | nil => rfl
      | cons second history => exact congrArg (List.cons _) ih

theorem length_transitions (history : List MemorySample) :
    (transitions rate suspicious history).length = history.length - 1 := by
  induction history with
  | nil => rfl
  | cons first history ih =>
      cases history with
      | nil => rfl
      | cons second history =>
          rw [transitions, List.length_cons, ih]
          simp

/-- The detector has seen the history. -/
structure HasSeen (rate : UInt64 → UInt64 → Rate) (suspicious : Rate → Bool) (d : LeakDetector Rate Callback)
    (history : List MemorySample) : Prop where
  initialized : d.initialized = true
  length : d.samples.length = windowSize
  count : d.sampleCount = min history.length windowSize
  index : d.sampleIndex < windowSize
  latest : ∀ prev, history.getLast? = some prev →
    d.samples[(d.sampleIndex + windowSize - 1) % windowSize]? = some prev
  growth : d.consecutiveGrowthCount = wrapInt32 (Runs.trailing (transitions rate suspicious history))
  detected : d.leakDetected = true ↔ sustainedGrowthCount ≤ Runs.trailing (transitions rate suspicious history)
  alerts : d.leakAlerts = .ofNat (Runs.long sustainedGrowthCount (transitions rate suspicious history))

theorem hasSeen_init (zero : Rate) :
    HasSeen rate suspicious (leakDetectorInit zero : LeakDetector Rate Callback) [] where
  initialized := rfl
  length := List.length_replicate
  count := by simp [leakDetectorInit]
  index := by simp [leakDetectorInit, windowSize]
  latest := by simp
  growth := by simp [leakDetectorInit, transitions, wrapInt32]
  detected := by simp [leakDetectorInit, transitions, sustainedGrowthCount]
  alerts := by simp [leakDetectorInit, transitions, Runs.long, sustainedGrowthCount]

/-- The sample before is found in the ring. -/
theorem HasSeen.getD_push (h : HasSeen rate suspicious d (history ++ [prev])) (sample : MemorySample) :
    (d.push sample).samples.getD (((d.push sample).sampleIndex + windowSize - 2) % windowSize) noSample = prev := by
  have hindex := h.index
  have hlatest := h.latest prev List.getLast?_concat
  have hplace : ((d.sampleIndex + 1) % windowSize + windowSize - 2) % windowSize =
      (d.sampleIndex + windowSize - 1) % windowSize := by
    unfold windowSize at hindex ⊢
    omega
  have hne : d.sampleIndex ≠ (d.sampleIndex + windowSize - 1) % windowSize := by
    unfold windowSize at hindex ⊢
    omega
  simp only [LeakDetector.push, hplace, List.getD_eq_getElem?_getD, List.getElem?_set_ne hne, hlatest,
    Option.getD_some]

/-- The ring with one more sample. -/
theorem HasSeen.push_samples (h : HasSeen rate suspicious d history) (sample : MemorySample) :
    (d.push sample).samples.length = windowSize ∧
      (d.push sample).sampleCount = min (history ++ [sample]).length windowSize ∧
      (d.push sample).sampleIndex < windowSize ∧
      ∀ last, (history ++ [sample]).getLast? = some last →
        (d.push sample).samples[((d.push sample).sampleIndex + windowSize - 1) % windowSize]? = some last := by
  have hindex := h.index
  have hcount := h.count
  have hlength := h.length
  refine ⟨by simpa [LeakDetector.push] using hlength, ?_, Nat.mod_lt _ (by decide), ?_⟩
  · simp only [LeakDetector.push, List.length_append, List.length_singleton]
    split_ifs <;> omega
  · intro last hlast
    have hplace : ((d.sampleIndex + 1) % windowSize + windowSize - 1) % windowSize = d.sampleIndex := by
      unfold windowSize at hindex ⊢
      omega
    obtain rfl : sample = last := by simpa using hlast
    simp only [LeakDetector.push, hplace]
    exact List.getElem?_set_self (by omega)

/-! ## One transition -/

theorem wrapInt32_succ (r : ℕ) : wrapInt32 (wrapInt32 r + 1) = wrapInt32 ↑(r + 1) := by
  rw [wrapInt32, wrapInt32, wrapInt32, Int.bmod_add_bmod, Int.natCast_add, Int.natCast_one]

theorem wrapInt32_of_le {r : ℕ} (hr : r ≤ sustainedGrowthCount) : wrapInt32 r = r := by
  unfold sustainedGrowthCount at hr
  exact wrapInt32_of_lt (by omega) (by omega)

/-- The ring and the callback are left alone. -/
theorem grown_ring (d : LeakDetector Rate Callback) (rate : UInt64 → UInt64 → Rate) (prev sample : MemorySample) :
    (d.grown rate prev sample).1.initialized = d.initialized ∧
      (d.grown rate prev sample).1.samples = d.samples ∧
      (d.grown rate prev sample).1.sampleCount = d.sampleCount ∧
      (d.grown rate prev sample).1.sampleIndex = d.sampleIndex := by
  unfold LeakDetector.grown
  dsimp only
  split_ifs <;> exact ⟨rfl, rfl, rfl, rfl⟩

/-- The run has just become long, and the leak has not been detected before. -/
theorem report_iff {r : ℕ} (hdetected : d.leakDetected = true ↔ sustainedGrowthCount ≤ r) :
    (sustainedGrowthCount ≤ wrapInt32 ↑(r + 1) ∧ d.leakDetected = false) ↔ r + 1 = sustainedGrowthCount := by
  rw [← Bool.not_eq_true, hdetected]
  constructor
  · rintro ⟨hlarge, hlt⟩
    rw [wrapInt32_of_le (by omega)] at hlarge
    omega
  · intro heq
    rw [wrapInt32_of_le heq.le]
    omega

/-- One more growth that is reported. -/
theorem grown_of_report
    (h : sustainedGrowthCount ≤ wrapInt32 (d.consecutiveGrowthCount + 1) ∧ d.leakDetected = false)
    (rate : UInt64 → UInt64 → Rate) (prev sample : MemorySample) :
    (d.grown rate prev sample).1.leakDetected = true ∧
      (d.grown rate prev sample).1.leakAlerts = d.leakAlerts + 1 := by
  unfold LeakDetector.grown
  dsimp only
  rw [if_pos h]
  exact ⟨rfl, rfl⟩

/-- One more growth that is not reported. -/
theorem grown_of_not_report
    (h : ¬ (sustainedGrowthCount ≤ wrapInt32 (d.consecutiveGrowthCount + 1) ∧ d.leakDetected = false))
    (rate : UInt64 → UInt64 → Rate) (prev sample : MemorySample) :
    (d.grown rate prev sample).1.leakDetected = d.leakDetected ∧
      (d.grown rate prev sample).1.leakAlerts = d.leakAlerts := by
  unfold LeakDetector.grown
  dsimp only
  rw [if_neg h]
  exact ⟨rfl, rfl⟩

theorem grown_consecutiveGrowthCount (d : LeakDetector Rate Callback) (rate : UInt64 → UInt64 → Rate)
    (prev sample : MemorySample) :
    (d.grown rate prev sample).1.consecutiveGrowthCount = wrapInt32 (d.consecutiveGrowthCount + 1) := by
  unfold LeakDetector.grown
  dsimp only
  split_ifs <;> rfl

/-- One more growth: the leak is detected, and reported, when the run gets as long as it takes. -/
theorem grown_spec {r : ℕ} (hgrowth : d.consecutiveGrowthCount = wrapInt32 r)
    (hdetected : d.leakDetected = true ↔ sustainedGrowthCount ≤ r) (rate : UInt64 → UInt64 → Rate)
    (prev sample : MemorySample) :
    (d.grown rate prev sample).1.consecutiveGrowthCount = wrapInt32 ↑(r + 1) ∧
      ((d.grown rate prev sample).1.leakDetected = true ↔ sustainedGrowthCount ≤ r + 1) ∧
      (d.grown rate prev sample).1.leakAlerts =
        d.leakAlerts + .ofNat (if r + 1 = sustainedGrowthCount then 1 else 0) := by
  have hcount : wrapInt32 (d.consecutiveGrowthCount + 1) = wrapInt32 ↑(r + 1) := by
    rw [hgrowth, wrapInt32_succ]
  have hreport := report_iff hdetected
  rw [← hcount] at hreport ⊢
  refine ⟨grown_consecutiveGrowthCount d rate prev sample, ?_⟩
  by_cases heq : r + 1 = sustainedGrowthCount
  · obtain ⟨hnow, halerts⟩ := grown_of_report (hreport.mpr heq) rate prev sample
    rw [hnow, halerts, if_pos heq]
    exact ⟨iff_of_true rfl heq.ge, rfl⟩
  · obtain ⟨hnow, halerts⟩ := grown_of_not_report (mt hreport.mp heq) rate prev sample
    rw [hnow, halerts, if_neg heq, hdetected]
    exact ⟨by omega, (UInt64.add_zero _).symm⟩

/-- What becomes of the detector once the sample is in the ring. -/
theorem addSample_eq (h : d.initialized = true) (sample : MemorySample) :
    (d.addSample rate suspicious sample).2.1 =
      if 2 ≤ (d.push sample).sampleCount then
        if grows rate suspicious ((d.push sample).samples.getD
            (((d.push sample).sampleIndex + windowSize - 2) % windowSize) noSample) sample then
          ((d.push sample).grown rate ((d.push sample).samples.getD
            (((d.push sample).sampleIndex + windowSize - 2) % windowSize) noSample) sample).1
        else (d.push sample).reset
      else d.push sample := by
  simp only [LeakDetector.addSample, h, Bool.not_true, Bool.false_eq_true, if_false]
  split_ifs <;> rfl

/-- After a sample behind another one, the transition is looked at. -/
theorem HasSeen.addSample_eq (h : HasSeen rate suspicious d (history ++ [prev])) (sample : MemorySample) :
    (d.addSample rate suspicious sample).2.1 =
      if grows rate suspicious prev sample then ((d.push sample).grown rate prev sample).1
      else (d.push sample).reset := by
  have hmany : 2 ≤ (d.push sample).sampleCount := by
    rw [(h.push_samples sample).2.1]
    simp [windowSize]
  rw [LeakDetection.addSample_eq h.initialized, if_pos hmany, h.getD_push]

/-- One more sample. -/
theorem HasSeen.addSample (h : HasSeen rate suspicious d history) (sample : MemorySample) :
    HasSeen rate suspicious (d.addSample rate suspicious sample).2.1 (history ++ [sample]) := by
  obtain ⟨hlength, hcount, hindex, hlatest⟩ := h.push_samples sample
  obtain rfl | ⟨before, prev, hhistory⟩ := List.eq_nil_or_concat history
  · have hfirst : ¬ 2 ≤ (d.push sample).sampleCount := by
      rw [hcount]
      simp [windowSize]
    rw [LeakDetection.addSample_eq h.initialized, if_neg hfirst]
    exact ⟨h.initialized, hlength, hcount, hindex, hlatest, h.growth, h.detected, h.alerts⟩
  · rw [List.concat_eq_append] at hhistory
    subst hhistory
    rw [h.addSample_eq]
    cases hgrows : grows rate suspicious prev sample with
    | true =>
        rw [if_pos rfl]
        obtain ⟨hinit, hsamples, hcount', hindex'⟩ := grown_ring (d.push sample) rate prev sample
        obtain ⟨hgrowth, hdetected, halerts⟩ := grown_spec (d := d.push sample) h.growth h.detected rate prev sample
        rw [← hsamples] at hlength
        rw [← hcount'] at hcount
        rw [← hindex'] at hindex
        rw [← hsamples, ← hindex'] at hlatest
        refine ⟨hinit.trans h.initialized, hlength, hcount, hindex, hlatest, ?_, ?_, ?_⟩
        · rw [transitions_concat, hgrows, Runs.trailing_concat_true, hgrowth]
        · rw [transitions_concat, hgrows, Runs.trailing_concat_true, hdetected]
        · rw [transitions_concat, hgrows, Runs.long_concat_true, halerts, UInt64.ofNat_add]
          exact congrArg (· + _) h.alerts
    | false =>
        rw [if_neg Bool.false_ne_true]
        refine ⟨h.initialized, hlength, hcount, hindex, hlatest, ?_, ?_, ?_⟩
        · rw [transitions_concat, hgrows, Runs.trailing_concat_false]
          rfl
        · rw [transitions_concat, hgrows, Runs.trailing_concat_false]
          simp [LeakDetector.reset, sustainedGrowthCount]
        · rw [transitions_concat, hgrows, Runs.long_concat_false (by decide)]
          exact h.alerts

/-- The detector has seen the samples that were added. -/
theorem hasSeen_addSamples (zero : Rate) (history : List MemorySample) :
    HasSeen rate suspicious ((leakDetectorInit zero : LeakDetector Rate Callback).addSamples rate suspicious history)
      history := by
  induction history using List.reverseRecOn with
  | nil => exact hasSeen_init zero
  | append_singleton history sample ih =>
      rw [LeakDetector.addSamples, List.foldl_append]
      exact ih.addSample sample

/-- After any samples, a leak is detected exactly if the last ten transitions have grown, and the number of
alerts, which is kept in 64 bits, is the number of runs of ten transitions or more. -/
theorem leak_history (rate : UInt64 → UInt64 → Rate) (suspicious : Rate → Bool) (zero : Rate)
    (history : List MemorySample) :
    let d : LeakDetector Rate Callback := (leakDetectorInit zero).addSamples rate suspicious history
    (d.leakDetected = true ↔
        List.replicate sustainedGrowthCount true <:+ transitions rate suspicious history) ∧
      d.leakAlerts = .ofNat (Runs.long sustainedGrowthCount (transitions rate suspicious history)) ∧
      (history.length < 2 ^ 64 →
        d.leakAlerts.toNat = Runs.long sustainedGrowthCount (transitions rate suspicious history)) := by
  have h : HasSeen rate suspicious
      ((leakDetectorInit zero : LeakDetector Rate Callback).addSamples rate suspicious history) history :=
    hasSeen_addSamples zero history
  have hle : Runs.long sustainedGrowthCount (transitions rate suspicious history) ≤ history.length := by
    have hlong := Runs.long_le_length (n := sustainedGrowthCount) (by decide)
      (transitions rate suspicious history)
    rw [length_transitions] at hlong
    omega
  refine ⟨h.detected.trans Runs.replicate_suffix_iff.symm, h.alerts, fun hlt => ?_⟩
  rw [h.alerts, UInt64.toNat_ofNat_of_lt' (lt_of_le_of_lt hle hlt)]

/-- Two samples are too few for a leak. -/
theorem leak_history_two :
    let d : LeakDetector ℚ Unit :=
      (leakDetectorInit 0).addSamples quotient atLeastThreshold [⟨0, 1, 1, 0, 0⟩, ⟨1, 2, 2, 0, 0⟩]
    (d.leakDetected = true ↔ List.replicate sustainedGrowthCount true <:+
        transitions quotient atLeastThreshold [⟨0, 1, 1, 0, 0⟩, ⟨1, 2, 2, 0, 0⟩]) ∧
      d.leakAlerts.toNat = Runs.long sustainedGrowthCount
        (transitions quotient atLeastThreshold [⟨0, 1, 1, 0, 0⟩, ⟨1, 2, 2, 0, 0⟩]) :=
  have h := leak_history quotient atLeastThreshold 0 [⟨0, 1, 1, 0, 0⟩, ⟨1, 2, 2, 0, 0⟩]
  ⟨h.1, h.2.2 (by decide)⟩

end LgxRuntime.LeakDetection
