import LgxRuntime.Lib.FileMap
import LgxRuntime.ResourceLimits.Limits
import Mathlib.Data.List.Induction
import Mathlib.Data.List.Nodup
import Mathlib.Data.Set.Basic

/-!
# Rotated logs

`lgx_resource_limits_rotate_log` renames the log after the number of rotations so far, counts the rotation,
and from the sixth one on removes the file whose number is 5 less than the new count.  That is the fifth
last file, and no rotation removes the first one: after more than five rotations the files are the first
one and the last four.
-/

namespace LgxRuntime.ResourceLimits.LogRotation

open Function (update update_self update_of_ne)

variable {Content : Type*}

/-- `"%s.%d"`, which fits its buffer for every path that fits the one of the log. -/
def rotatedPath (path : String) (count : ℕ) : String :=
  path ++ ("." ++ toString count)

/-- `lgx_resource_limits_rotate_log`.  A count beyond `INT_MAX` overflows. -/
def rotateLog (limits : Limits) (files : String → Option Content) :
    Option (Result × Limits × (String → Option Content)) :=
  if !limits.initialized then some (.notInitialized, limits, files)
  else
    match FileMap.rename files limits.logFilePath
        (rotatedPath limits.logFilePath limits.logRotationCount) with
    | none => some (.ioError, limits, files)
    | some renamed =>
        if limits.logRotationCount = intMax then none
        else
          let count := limits.logRotationCount + 1
          some (.success,
            { limits with
              currentLogSizeBytes := 0
              logRotationCount := count
              logRotationCountTotal := wrap64 (limits.logRotationCountTotal + 1) },
            if count > 5 then FileMap.unlink renamed (rotatedPath limits.logFilePath (count - 5))
            else renamed)

/-- Rotations that start with no rotated files, with the contents that were rotated.  In between the log is
written, or removed, and rotations fail. -/
inductive Rotations : Limits → (String → Option Content) → List Content → Prop
  | start (config : Option Config) (now : ℕ) {files : String → Option Content}
      (hnone : ∀ count, files (rotatedPath (started config now).logFilePath count) = none) :
      Rotations (started config now) files []
  | write {limits : Limits} {files : String → Option Content} {contents : List Content}
      (h : Rotations limits files contents) (log : Option Content) :
      Rotations limits (update files limits.logFilePath log) contents
  | failure {limits limits' : Limits} {files files' : String → Option Content} {contents : List Content}
      {result : Result} (h : Rotations limits files contents)
      (hcall : rotateLog limits files = some (result, limits', files')) (hresult : result ≠ .success) :
      Rotations limits' files' contents
  | success {limits limits' : Limits} {files files' : String → Option Content} {contents : List Content}
      {content : Content} (h : Rotations limits files contents)
      (hlog : files limits.logFilePath = some content)
      (hcall : rotateLog limits files = some (.success, limits', files')) :
      Rotations limits' files' (contents ++ [content])

/-- The rotated files are those of the last five rotations, each under its number. -/
def KeepsLastFive (limits : Limits) (files : String → Option Content) (contents : List Content) : Prop :=
  ∀ count, files (rotatedPath limits.logFilePath count) =
    if contents.length ≤ count + 5 then contents[count]? else none

/-- The contents of the rotated files. -/
def rotatedContents (limits : Limits) (files : String → Option Content) : Set Content :=
  {content | ∃ count, files (rotatedPath limits.logFilePath count) = some content}

/-! ## Names -/

section

variable {path : String} {m n : ℕ}

theorem rotatedPath_inj : rotatedPath path m = rotatedPath path n ↔ m = n := by
  refine ⟨fun h => ?_, congrArg _⟩
  have hsuffix : toString m = toString n :=
    (String.append_right_inj ".").mp ((String.append_right_inj path).mp h)
  have hdigits : Nat.toDigits 10 m = Nat.toDigits 10 n := by
    simpa using congrArg String.toList hsuffix
  rw [← Nat.ofDigitChars_ten_toDigits (n := m), hdigits, Nat.ofDigitChars_ten_toDigits]

theorem rotatedPath_ne_path : rotatedPath path n ≠ path := by
  intro h
  have hlength := congrArg String.length h
  simp only [rotatedPath, String.length_append] at hlength
  have hdot : ".".length = 1 := rfl
  omega

end

/-! ## What is kept -/

section

variable {limits limits' : Limits} {files files' : String → Option Content} {contents : List Content}
  {content : Content} {count : ℕ}

/-- A rotation that succeeds. -/
theorem rotateLog_success (hcall : rotateLog limits files = some (.success, limits', files')) :
    ∃ renamed, FileMap.rename files limits.logFilePath
        (rotatedPath limits.logFilePath limits.logRotationCount) = some renamed ∧
      limits'.initialized = limits.initialized ∧ limits'.logFilePath = limits.logFilePath ∧
        limits'.logRotationCount = limits.logRotationCount + 1 ∧
          files' = if limits.logRotationCount + 1 > 5 then
            FileMap.unlink renamed (rotatedPath limits.logFilePath (limits.logRotationCount + 1 - 5))
          else renamed := by
  unfold rotateLog at hcall
  split at hcall
  · simp at hcall
  · cases hrename : FileMap.rename files limits.logFilePath
        (rotatedPath limits.logFilePath limits.logRotationCount) with
    | none => simp [hrename] at hcall
    | some renamed =>
        rw [hrename] at hcall
        simp only [Option.ite_none_left_eq_some, Option.some.injEq, Prod.mk.injEq, true_and] at hcall
        obtain ⟨-, rfl, rfl⟩ := hcall
        exact ⟨renamed, rfl, rfl, rfl, rfl, rfl⟩

theorem rotateLog_failure {result : Result} (hcall : rotateLog limits files = some (result, limits', files'))
    (hresult : result ≠ .success) : limits' = limits ∧ files' = files := by
  unfold rotateLog at hcall
  split at hcall
  · simp only [Option.some.injEq, Prod.mk.injEq] at hcall
    exact ⟨hcall.2.1.symm, hcall.2.2.symm⟩
  · cases hrename : FileMap.rename files limits.logFilePath
        (rotatedPath limits.logFilePath limits.logRotationCount) with
    | none =>
        simp only [hrename, Option.some.injEq, Prod.mk.injEq] at hcall
        exact ⟨hcall.2.1.symm, hcall.2.2.symm⟩
    | some renamed =>
        rw [hrename] at hcall
        simp only [Option.ite_none_left_eq_some, Option.some.injEq, Prod.mk.injEq] at hcall
        exact absurd hcall.2.1.symm hresult

/-- The first rotated file and the last four are there, and no others. -/
structure Kept (limits : Limits) (files : String → Option Content) (contents : List Content) : Prop where
  initialized : limits.initialized = true
  count : limits.logRotationCount = contents.length
  files : ∀ count, files (rotatedPath limits.logFilePath count) =
    if count = 0 ∨ contents.length < count + 5 then contents[count]? else none

theorem Kept.success (h : Kept limits files contents) (hlog : files limits.logFilePath = some content)
    (hcall : rotateLog limits files = some (.success, limits', files')) :
    Kept limits' files' (contents ++ [content]) := by
  obtain ⟨renamed, hrename, hinitialized, hpath, hcount, rfl⟩ := rotateLog_success hcall
  rw [h.count] at hrename hcount
  have hrenamed : ∀ count, renamed (rotatedPath limits.logFilePath count) =
      if count = contents.length then some content
      else files (rotatedPath limits.logFilePath count) := by
    intro count
    by_cases hlast : count = contents.length
    · rw [if_pos hlast, hlast, FileMap.rename_target hrename, hlog]
    · rw [if_neg hlast]
      exact FileMap.rename_of_ne hrename rotatedPath_ne_path fun heq => hlast (rotatedPath_inj.mp heq)
  have hkept : ∀ count, count ≠ contents.length + 1 - 5 ∨ contents.length + 1 ≤ 5 →
      renamed (rotatedPath limits.logFilePath count) =
        if count = 0 ∨ (contents ++ [content]).length < count + 5 then (contents ++ [content])[count]?
        else none := by
    intro count hstays
    rw [hrenamed, h.files, List.length_append, List.length_singleton]
    rcases lt_trichotomy count contents.length with hlt | heq | hgt
    · rw [if_neg hlt.ne, List.getElem?_append_left hlt]
      refine if_congr ?_ rfl rfl
      omega
    · rw [if_pos heq, if_pos (by omega), heq, List.getElem?_append_right (le_refl _), Nat.sub_self]
      rfl
    · rw [if_neg hgt.ne', List.getElem?_eq_none hgt.le, ite_self]
      rw [List.getElem?_eq_none (by rw [List.length_append, List.length_singleton]; omega), ite_self]
  refine ⟨hinitialized.trans h.initialized, ?_, fun count => ?_⟩
  · rw [hcount, List.length_append, List.length_singleton]
  · rw [hpath, h.count]
    by_cases hsixth : contents.length + 1 > 5
    · rw [if_pos hsixth]
      by_cases hold : count = contents.length + 1 - 5
      · -- the number that is removed is not 0
        rw [hold, FileMap.unlink_self, if_neg]
        rw [List.length_append, List.length_singleton]
        omega
      · rw [FileMap.unlink_of_ne fun heq => hold (rotatedPath_inj.mp heq)]
        exact hkept count (Or.inl hold)
    · rw [if_neg hsixth]
      exact hkept count (Or.inr (by omega))

theorem Rotations.kept (h : Rotations limits files contents) : Kept limits files contents := by
  induction h with
  | start config now hnone => exact ⟨rfl, rfl, fun count => by simp [hnone count]⟩
  | write h log ih =>
      exact ⟨ih.initialized, ih.count, fun count => (update_of_ne rotatedPath_ne_path ..).trans (ih.files count)⟩
  | failure h hcall hresult ih =>
      obtain ⟨rfl, rfl⟩ := rotateLog_failure hcall hresult
      exact ih
  | success h hlog hcall ih => exact ih.success hlog hcall

/-- Any contents can be rotated, as long as the count fits an `int`. -/
theorem exists_rotations (contents : List Content) (hlength : contents.length ≤ intMax) :
    ∃ limits files, Rotations limits files contents := by
  induction contents using List.reverseRecOn with
  | nil => exact ⟨_, fun _ => none, .start none 0 fun _ => rfl⟩
  | append_singleton contents content ih =>
      rw [List.length_append, List.length_singleton] at hlength
      obtain ⟨limits, files, h⟩ := ih (by omega)
      have hwritten := h.write (some content)
      have hlog : update files limits.logFilePath (some content) limits.logFilePath = some content :=
        update_self ..
      have hcount : limits.logRotationCount ≠ intMax := by
        rw [h.kept.count]
        omega
      have hcall : ∃ limits' files', rotateLog limits (update files limits.logFilePath (some content)) =
          some (.success, limits', files') := by
        rw [rotateLog, h.kept.initialized, FileMap.rename_of_some hlog]
        exact ⟨_, _, if_neg hcount⟩
      obtain ⟨limits', files', hcall⟩ := hcall
      exact ⟨limits', files', hwritten.success hlog hcall⟩

/-- The rotated files are those of the last five rotations as long as there are no more than five.  The same
is true of their contents, if these are different from each other. -/
theorem keepsLastFive_iff (h : Rotations limits files contents) :
    (KeepsLastFive limits files contents ↔ contents.length ≤ 5) ∧
      (contents.Nodup → (rotatedContents limits files =
        {content | content ∈ contents.drop (contents.length - 5)} ↔ contents.length ≤ 5)) := by
  have hkept := h.kept
  have hall : contents.length ≤ 5 → ∀ count,
      files (rotatedPath limits.logFilePath count) = contents[count]? := by
    intro hfive count
    rw [hkept.files count, if_pos (by omega)]
  refine ⟨⟨fun hkeeps => ?_, fun hfive count => ?_⟩, fun hnodup => ⟨fun hsame => ?_, fun hfive => ?_⟩⟩
  · by_contra hmore
    -- the first file is still there
    have hfirst := (hkeeps 0).symm.trans (hkept.files 0)
    rw [if_neg (by omega), if_pos (Or.inl rfl), List.getElem?_eq_getElem (by omega)] at hfirst
    cases hfirst
  · rw [hall hfive count, if_pos (by omega)]
  · by_contra hmore
    have hpos : 0 < contents.length := by omega
    have hfirst : contents[0] ∈ rotatedContents limits files :=
      ⟨0, by rw [hkept.files 0, if_pos (Or.inl rfl), List.getElem?_eq_getElem hpos]⟩
    rw [hsame] at hfirst
    obtain ⟨i, hi, hget⟩ := List.mem_iff_getElem.mp hfirst
    rw [List.getElem_drop] at hget
    have hzero := (List.Nodup.getElem_inj_iff hnodup).mp hget
    omega
  · rw [Nat.sub_eq_zero_of_le hfive, List.drop_zero]
    ext content
    simp only [rotatedContents, Set.mem_ofPred_eq, hall hfive]
    exact List.mem_iff_getElem?.symm

/-- Two rotations. -/
theorem keepsLastFive_iff_two : ∃ (limits : Limits) (files : String → Option ℕ),
    (KeepsLastFive limits files [3, 7] ↔ [3, 7].length ≤ 5) ∧
      ([3, 7].Nodup → (rotatedContents limits files = {content | content ∈ [3, 7].drop ([3, 7].length - 5)} ↔
        [3, 7].length ≤ 5)) := by
  obtain ⟨limits, files, h⟩ := exists_rotations [3, 7] (by decide)
  exact ⟨limits, files, keepsLastFive_iff h⟩

/-- The sixth rotation removes the second file, and keeps the first one. -/
theorem not_keepsLastFive_six :
    ¬ ∀ (limits : Limits) (files : String → Option ℕ) (contents : List ℕ),
      Rotations limits files contents → KeepsLastFive limits files contents := by
  intro hall
  obtain ⟨limits, files, h⟩ := exists_rotations [0, 1, 2, 3, 4, 5] (by decide)
  have hfirst := (hall limits files _ h 0).symm.trans (h.kept.files 0)
  exact absurd hfirst (by decide)

end

end LgxRuntime.ResourceLimits.LogRotation
