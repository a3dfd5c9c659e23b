import LgxRuntime.Platform.Services

/-!
# Rotated logs

`rotate_log_file` removes log 4, renames 3, 2 and 1 in this order to the next number, renames the log to 1
and opens a new one.  As no name is taken when a file is renamed to it, the files from 1 to 4 are the last
four logs that were closed, the last one first.

The names are put into buffers of 512 bytes, and what does not fit is cut off.  A path of 510 bytes leaves
no room for the number, so that all rotated files have the same name.
-/

namespace LgxRuntime.Platform.LogRotation

open Function (update update_self update_of_ne)

/-- The name of a rotated log. -/
def rotatedName (path : Path) (k : ℕ) : Path :=
  path ++ '.' :: Nat.toDigits 10 k

/-- A path to which a dot and a digit can be added in a buffer of 512 bytes. -/
def Fits (path : Path) : Prop :=
  path.length ≤ 509

/-- Runs of the log that start with no rotated files, with the contents of the logs that were closed.  The
callers of `rotate_log_file` have checked that rotation is enabled. -/
inductive Rotations (path : Path) : Services → (Path → Option Content) → List Content → Prop
  | start (now : ℕ) {files : Path → Option Content} (hnone : ∀ k, files (rotatedName path k) = none) :
      Rotations path (servicesInit path now files).1 (servicesInit path now files).2 []
  | write {services : Services} {files : Path → Option Content} {closed : List Content}
      (h : Rotations path services files closed) (entry : Content) :
      Rotations path (writeEntry services files entry).1 (writeEntry services files entry).2 closed
  | rotate {services : Services} {files : Path → Option Content} {closed : List Content} {content : Content}
      (h : Rotations path services files closed) (henabled : services.logRotationEnabled = true)
      (hcontent : files path = some content) :
      Rotations path (rotateLogFile services files).1 (rotateLogFile services files).2 (closed ++ [content])
  | check {services : Services} {files : Path → Option Content} {closed : List Content}
      (h : Rotations path services files closed) (now : ℕ) :
      Rotations path (checkRateLimit services now).2 files closed
  | setLogFilter {services : Services} {files : Path → Option Content} {closed : List Content}
      (h : Rotations path services files closed) (level : LogLevel) :
      Rotations path (setLogFilter services level) files closed
  | setLogMaxSize {services : Services} {files : Path → Option Content} {closed : List Content}
      (h : Rotations path services files closed) (size : ℕ) :
      Rotations path (setLogMaxSize services size) files closed
  | setLogRotationEnabled {services : Services} {files : Path → Option Content} {closed : List Content}
      (h : Rotations path services files closed) (enabled : Bool) :
      Rotations path (setLogRotationEnabled services enabled) files closed
  | setLogRateLimitingEnabled {services : Services} {files : Path → Option Content} {closed : List Content}
      (h : Rotations path services files closed) (enabled : Bool) :
      Rotations path (setLogRateLimitingEnabled services enabled) files closed
  | setLogRateLimit {services : Services} {files : Path → Option Content} {closed : List Content}
      (h : Rotations path services files closed) (logsPerSecond : ℕ) :
      Rotations path (setLogRateLimit services logsPerSecond) files closed

/-- The rotated files are those from 1 to 4, and file `k` is the log that was closed as the `k`-th last
one. -/
def KeepsLastLogs (path : Path) (files : Path → Option Content) (closed : List Content) : Prop :=
  ∀ k, files (rotatedName path k) =
    if 1 ≤ k ∧ k ≤ logMaxRotations - 1 then closed.reverse[k - 1]? else none

/-! ## Names -/

section

variable {path : Path} {i k : ℕ}

theorem rotatedName_inj : rotatedName path i = rotatedName path k ↔ i = k := by
  refine ⟨fun h => ?_, congrArg _⟩
  have hdigits : Nat.toDigits 10 i = Nat.toDigits 10 k :=
    List.tail_eq_of_cons_eq (List.append_cancel_left h)
  rw [← Nat.ofDigitChars_ten_toDigits (n := i), hdigits, Nat.ofDigitChars_ten_toDigits]

theorem length_rotatedName : path.length + 2 ≤ (rotatedName path k).length := by
  have hdigits : 0 < (Nat.toDigits 10 k).length := Nat.length_toDigits_pos
  rw [rotatedName, List.length_append, List.length_cons]
  omega

theorem rotatedName_ne_path : rotatedName path k ≠ path := by
  intro h
  have hlength := @length_rotatedName path k
  rw [h] at hlength
  omega

/-- A name that fits the buffer is not cut off. -/
theorem rotatedPath_eq (hfits : Fits path) (hi : i < 10) : rotatedPath path i = rotatedName path i := by
  refine List.take_of_length_le ?_
  have hdigits : (Nat.toDigits 10 i).length = 1 := by
    rw [Nat.toDigits_of_lt_base hi, List.length_singleton]
  rw [List.length_append, List.length_cons, hdigits]
  unfold Fits at hfits
  omega

theorem path_ne_rotatedPath (hfits : Fits path) : path ≠ rotatedPath path i := by
  intro h
  have hlength := @length_rotatedName path i
  have hpath : path.length = min 511 (rotatedName path i).length := by
    rw [← List.length_take]
    exact congrArg List.length h
  unfold Fits at hfits
  omega

/-- A name that does not fit is not the one of a rotated log. -/
theorem rotatedName_ne_rotatedPath (hlong : ¬ Fits path) : rotatedName path k ≠ rotatedPath path i := by
  intro h
  have hlength := @length_rotatedName path k
  have hshort : (rotatedPath path i).length ≤ 511 := List.length_take_le ..
  rw [h] at hlength
  unfold Fits at hlong
  omega

end

/-! ## One rotation -/

section

variable {path p : Path} {i k : ℕ} {services : Services} {files : Path → Option Content}

/-- Other files are left alone. -/
theorem shiftRotated_of_ne (hne : ∀ j, p ≠ rotatedPath path j) : shiftRotated path i files p = files p := by
  induction i generalizing files with
  | zero => rfl
  | succ i ih =>
      rw [shiftRotated, ih]
      exact FileMap.move_of_ne (hne _) (hne _)

/-- The renames shift the files by one, if the last name is free. -/
theorem shiftRotated_name (hfits : Fits path) (hi : i < 9) (hfree : files (rotatedName path (i + 1)) = none) :
    shiftRotated path i files (rotatedName path k) =
      if k = 1 then none
      else if 2 ≤ k ∧ k ≤ i + 1 then files (rotatedName path (k - 1))
      else files (rotatedName path k) := by
  induction i generalizing files with
  | zero =>
      by_cases hone : k = 1
      · rw [if_pos hone, hone]
        exact hfree
      · rw [if_neg hone, if_neg (by omega)]
        rfl
  | succ i ih =>
      have hother : ∀ j, j ≠ i + 1 → j ≠ i + 2 →
          FileMap.move files (rotatedName path (i + 1)) (rotatedName path (i + 2)) (rotatedName path j) =
            files (rotatedName path j) := by
        intro j hsource htarget
        exact FileMap.move_of_ne (rotatedName_inj.not.mpr hsource) (rotatedName_inj.not.mpr htarget)
      rw [shiftRotated, rotatedPath_eq hfits (by omega), rotatedPath_eq hfits (by omega),
        ih (by omega) (FileMap.move_source (rotatedName_inj.not.mpr (by omega)))]
      by_cases hone : k = 1
      · rw [if_pos hone, if_pos hone]
      · rw [if_neg hone, if_neg hone]
        by_cases hlast : k = i + 2
        · rw [if_neg (by omega), if_pos (by omega), hlast, FileMap.move_target hfree]
          rfl
        · by_cases hshift : 2 ≤ k ∧ k ≤ i + 1
          · rw [if_pos hshift, if_pos (by omega)]
            exact hother _ (by omega) (by omega)
          · rw [if_neg hshift, if_neg (by omega)]
            exact hother _ (by omega) hlast

/-- A rotation that takes place. -/
theorem rotateLogFile_eq (hpath : services.logPath = some path)
    (henabled : services.logRotationEnabled = true) :
    rotateLogFile services files =
      ({ services with logFile := true, logCurrentSize := 0 },
        FileMap.truncate (FileMap.move
          (shiftRotated path 3 (FileMap.unlink files (rotatedPath path 4))) path (rotatedPath path 1))
          path) := by
  rw [rotateLogFile, hpath, henabled]
  rfl

/-- File `k` becomes file `k + 1`, and the log becomes file 1. -/
theorem rotateLogFile_name (hfits : Fits path) (hpath : services.logPath = some path)
    (henabled : services.logRotationEnabled = true) :
    (rotateLogFile services files).2 (rotatedName path k) =
      if k = 1 then files path
      else if 2 ≤ k ∧ k ≤ 4 then files (rotatedName path (k - 1))
      else files (rotatedName path k) := by
  have hshifted : ∀ j, shiftRotated path 3 (FileMap.unlink files (rotatedName path 4)) (rotatedName path j) =
      if j = 1 then none
      else if 2 ≤ j ∧ j ≤ 4 then files (rotatedName path (j - 1))
      else files (rotatedName path j) := by
    intro j
    rw [shiftRotated_name hfits (by decide) FileMap.unlink_self]
    refine if_congr Iff.rfl rfl ?_
    by_cases hj : 2 ≤ j ∧ j ≤ 4
    · rw [if_pos hj, if_pos hj, FileMap.unlink_of_ne (rotatedName_inj.not.mpr (by omega))]
    · rw [if_neg hj, if_neg hj, FileMap.unlink_of_ne (rotatedName_inj.not.mpr (by omega))]
  rw [rotateLogFile_eq hpath henabled, rotatedPath_eq hfits (by decide), rotatedPath_eq hfits (by decide)]
  refine (update_of_ne rotatedName_ne_path ..).trans ?_
  by_cases hone : k = 1
  · rw [if_pos hone, hone, FileMap.move_target (by rw [hshifted, if_pos rfl]),
      shiftRotated_of_ne fun j => path_ne_rotatedPath hfits, FileMap.unlink_of_ne rotatedName_ne_path.symm]
  · rw [if_neg hone, FileMap.move_of_ne rotatedName_ne_path (rotatedName_inj.not.mpr hone), hshifted,
      if_neg hone]

/-- A rotation leaves no file under a name that does not fit. -/
theorem rotateLogFile_long (hlong : ¬ Fits path) (hpath : services.logPath = some path)
    (henabled : services.logRotationEnabled = true) :
    (rotateLogFile services files).2 (rotatedName path k) = files (rotatedName path k) := by
  have hne : ∀ j, rotatedName path k ≠ rotatedPath path j := fun j => rotatedName_ne_rotatedPath hlong
  rw [rotateLogFile_eq hpath henabled]
  refine (update_of_ne rotatedName_ne_path ..).trans ?_
  rw [FileMap.move_of_ne rotatedName_ne_path (hne 1), shiftRotated_of_ne hne, FileMap.unlink_of_ne (hne 4)]

/-- The log is there again. -/
theorem rotateLogFile_path (hpath : services.logPath = some path)
    (henabled : services.logRotationEnabled = true) : (rotateLogFile services files).2 path = some [] := by
  rw [rotateLogFile_eq hpath henabled]
  exact update_self ..

end

/-! ## Runs -/

section

variable {path : Path} {services services' : Services} {files files' : Path → Option Content}
  {closed : List Content} {content : Content}

/-- The rotated files, for a path that fits and for one that does not. -/
structure Kept (path : Path) (services : Services) (files : Path → Option Content) (closed : List Content) :
    Prop where
  logPath : services.logPath = some path
  short : Fits path → KeepsLastLogs path files closed
  long : ¬ Fits path → ∀ k, files (rotatedName path k) = none

/-- Steps that rename no file. -/
theorem Kept.of_same (h : Kept path services files closed) (hpath : services'.logPath = services.logPath)
    (hfiles : ∀ k, files' (rotatedName path k) = files (rotatedName path k)) :
    Kept path services' files' closed :=
  ⟨hpath.trans h.logPath, fun hfits k => (hfiles k).trans (h.short hfits k),
    fun hlong k => (hfiles k).trans (h.long hlong k)⟩

theorem checkRateLimit_logPath {now : ℕ} : (checkRateLimit services now).2.logPath = services.logPath := by
  have hrefill : (refill services now).logPath = services.logPath := by
    unfold refill
    split <;> rfl
  unfold checkRateLimit
  split
  · rfl
  · dsimp only
    split <;> exact hrefill

theorem Kept.write (h : Kept path services files closed) (entry : Content) :
    Kept path (writeEntry services files entry).1 (writeEntry services files entry).2 closed := by
  unfold writeEntry
  rw [h.logPath]
  cases services.logFile with
  | false => exact h
  | true => exact h.of_same h.logPath.symm fun k => update_of_ne rotatedName_ne_path ..

theorem Kept.rotate (h : Kept path services files closed) (henabled : services.logRotationEnabled = true)
    (hcontent : files path = some content) :
    Kept path (rotateLogFile services files).1 (rotateLogFile services files).2 (closed ++ [content]) := by
  refine ⟨?_, fun hfits k => ?_, fun hlong k => ?_⟩
  · rw [rotateLogFile_eq h.logPath henabled]
    exact h.logPath
  · rw [rotateLogFile_name hfits h.logPath henabled, List.reverse_append, List.reverse_singleton,
      List.singleton_append]
    by_cases hone : k = 1
    · rw [if_pos hone, if_pos (by unfold logMaxRotations; omega), hone]
      exact hcontent
    · rw [if_neg hone]
      by_cases hshift : 2 ≤ k ∧ k ≤ 4
      · obtain ⟨j, rfl⟩ := Nat.exists_eq_add_of_le' hshift.1
        rw [if_pos hshift, if_pos (by unfold logMaxRotations; omega), h.short hfits,
          if_pos (by unfold logMaxRotations; omega)]
        rfl
      · rw [if_neg hshift, if_neg (by unfold logMaxRotations; omega), h.short hfits,
          if_neg (by unfold logMaxRotations; omega)]
  · rw [rotateLogFile_long hlong h.logPath henabled]
    exact h.long hlong k

theorem Rotations.kept (h : Rotations path services files closed) : Kept path services files closed := by
  induction h with
  | start now hnone =>
      have hinit : ∀ k, (servicesInit path now _).2 (rotatedName path k) = none := fun k =>
        (update_of_ne rotatedName_ne_path ..).trans (hnone k)
      refine ⟨rfl, fun _ k => ?_, fun _ => hinit⟩
      rw [hinit, List.reverse_nil, List.getElem?_nil, ite_self]
  | write h entry ih => exact ih.write entry
  | rotate h henabled hcontent ih => exact ih.rotate henabled hcontent
  | check h now ih => exact ih.of_same checkRateLimit_logPath fun _ => rfl
  | setLogFilter h level ih => exact ih.of_same rfl fun _ => rfl
  | setLogMaxSize h size ih => exact ih.of_same rfl fun _ => rfl
  | setLogRotationEnabled h enabled ih => exact ih.of_same rfl fun _ => rfl
  | setLogRateLimitingEnabled h enabled ih => exact ih.of_same rfl fun _ => rfl
  | setLogRateLimit h logsPerSecond ih =>
      refine ih.of_same ?_ fun _ => rfl
      unfold Platform.setLogRateLimit
      split <;> rfl

/-- The log is there between the calls. -/
theorem Rotations.log_isSome (h : Rotations path services files closed) : ∃ content, files path = some content := by
  induction h with
  | start now hnone => exact ⟨_, update_self ..⟩
  | @write services files closed h entry ih =>
      unfold writeEntry
      rw [h.kept.logPath]
      cases services.logFile with
      | false => exact ih
      | true => exact ⟨_, update_self ..⟩
  | rotate h henabled hcontent ih => exact ⟨[], rotateLogFile_path h.kept.logPath henabled⟩
  | check h now ih => exact ih
  | setLogFilter h level ih => exact ih
  | setLogMaxSize h size ih => exact ih
  | setLogRotationEnabled h enabled ih => exact ih
  | setLogRateLimitingEnabled h enabled ih => exact ih
  | setLogRateLimit h logsPerSecond ih => exact ih

/-- A message closes at most one log. -/
theorem rotations_logImpl (h : Rotations path services files closed) (level : LogLevel) (now : ℕ)
    (entry : Content) :
    ∃ ended, Rotations path (logImpl services files level now entry).1
      (logImpl services files level now entry).2 (closed ++ ended) ∧ ended.length ≤ 1 := by
  have hsame : Rotations path services files (closed ++ []) := by rwa [List.append_nil]
  have hchecked := hsame.check now
  unfold logImpl
  split
  · exact ⟨[], hsame, Nat.zero_le _⟩
  · split <;> rename_i limited hcheck <;> rw [hcheck] at hchecked
    · exact ⟨[], hchecked, Nat.zero_le _⟩
    · by_cases hneeded : rotationNeeded limited = true
      · obtain ⟨content, hcontent⟩ := hchecked.log_isSome
        have henabled : limited.logRotationEnabled = true := by
          unfold rotationNeeded at hneeded
          simp only [Bool.and_eq_true] at hneeded
          exact hneeded.1.2
        rw [List.append_nil] at hchecked
        rw [if_pos hneeded]
        exact ⟨[content], (hchecked.rotate henabled hcontent).write entry, le_refl _⟩
      · rw [if_neg hneeded]
        exact ⟨[], hchecked.write entry, Nat.zero_le _⟩

/-- The rotated files are the last four logs that were closed if and only if no log was closed, or the names
fit the buffer. -/
theorem keepsLastLogs_iff (h : Rotations path services files closed) :
    KeepsLastLogs path files closed ↔ closed = [] ∨ Fits path := by
  refine ⟨fun hkeeps => ?_, ?_⟩
  · by_contra hnot
    rw [not_or] at hnot
    have hnone := h.kept.long hnot.2 1
    rw [hkeeps 1, if_pos (by decide), List.getElem?_eq_none_iff, List.length_reverse] at hnone
    exact hnot.1 (List.eq_nil_of_length_eq_zero (Nat.le_zero.mp hnone))
  · rintro (rfl | hfits)
    · by_cases hfits : Fits path
      · exact h.kept.short hfits
      · intro k
        rw [h.kept.long hfits k, List.reverse_nil, List.getElem?_nil, ite_self]
    · exact h.kept.short hfits

end

/-- A log that was written once, and then rotated. -/
theorem rotations_one (path : Path) (content : Content) :
    ∃ services files, Rotations path services files [content] := by
  have hwritten := (@Rotations.start path 0 (fun _ => none) fun _ => rfl).write content
  refine ⟨_, _, hwritten.rotate rfl ?_⟩
  simp [writeEntry, servicesInit, FileMap.append]

theorem keepsLastLogs_iff_one : ∃ services files, Rotations ['a'] services files [['x']] ∧
    (KeepsLastLogs ['a'] files [['x']] ↔ [['x']] = [] ∨ Fits ['a']) := by
  obtain ⟨services, files, h⟩ := rotations_one ['a'] ['x']
  exact ⟨services, files, h, keepsLastLogs_iff h⟩

/-- A name of 255 bytes in a directory of 254. -/
def longPath : Path :=
  List.replicate 254 'd' ++ '/' :: List.replicate 255 'f'

/-- After one rotation of a log with a path of 510 bytes, there is no file 1. -/
theorem not_keepsLastLogs_longPath :
    ¬ ∀ (path : Path) (services : Services) (files : Path → Option Content) (closed : List Content),
      Rotations path services files closed → KeepsLastLogs path files closed := by
  intro hall
  obtain ⟨services, files, h⟩ := rotations_one longPath ['x']
  have hlong : ¬ Fits longPath := by
    rw [Fits, longPath, List.length_append, List.length_cons, List.length_replicate, List.length_replicate]
    omega
  have hnone := h.kept.long hlong 1
  rw [hall _ _ _ _ h 1] at hnone
  exact absurd hnone (by decide)

end LgxRuntime.Platform.LogRotation
