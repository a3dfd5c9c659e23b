import LgxRuntime.Profile.Dump
import LgxRuntime.Runtime.LibraryManifest

/-!
# Where the dump is in bounds

The texts have places in the dump that do not depend on the buffer.  The zones are never printed beyond the
buffer, unless the places do not fit an `int`.  The counters are printed beyond it if the last one has its
place there.
-/

namespace LgxRuntime.Profile

open LibraryManifest (manifestGetRequirements manifestGetRequirements_inBounds_iff)
open Snprintf (Output ascii printed maxInt toSize)

variable {formatFixed : ℕ → Float → List UInt8} {size p depth : ℕ} {o : Output} {z : ZoneEntry}
  {zones : List ZoneEntry}

/-! ## The counters -/

/-- What is printed of the counters. -/
def counterTexts (formatFixed : ℕ → Float → List UInt8) (counters : List CounterEntry) : List (List UInt8) :=
  match counters with
  | [] => []
  | c :: counters => countersText :: counterText formatFixed c :: counters.map (counterText formatFixed)

theorem printCounters_true (counters : List (Option CounterEntry)) (o : Output) :
    printCounters formatFixed size counters true o =
      o.printAll size (counters.reduceOption.map (counterText formatFixed)) := by
  induction counters generalizing o with
  | nil => rfl
  | cons c counters ih =>
      cases c with
      | none => exact ih o
      | some c => exact ih _

theorem printCounters_false (counters : List (Option CounterEntry)) (o : Output) :
    printCounters formatFixed size counters false o =
      o.printAll size (counterTexts formatFixed counters.reduceOption) := by
  induction counters with
  | nil => rfl
  | cons c counters ih =>
      cases c with
      | none => exact ih
      | some c => exact printCounters_true counters _

/-! ## The indentation -/

theorem printed_indentText : printed indentText = 2 := by
  decide

theorem toSize_of_eq (hint : o.IsInt) (hp : o.written = p) : toSize o.written = p := by
  have hmax : (maxInt : ℤ) < 2 ^ 64 := by decide
  have hplace := Snprintf.toSize_of_nonneg (n := o.written) (by omega) (lt_of_le_of_lt hint.2 hmax)
  omega

/-- With a negative place, nothing looks as if it had room. -/
theorem not_room_of_neg (hsize : size < 2 ^ 63) (hint : o.IsInt) (hneg : o.written < 0) :
    ¬ toSize o.written < size - 1 := by
  have hlarge := Snprintf.toSize_of_neg hneg hint.1
  omega

theorem indent_of_not_room (hroom : ¬ toSize o.written < size - 1) : indent size depth o = o := by
  cases depth with
  | zero => rfl
  | succ depth => exact if_neg hroom

theorem isInt_indent (hint : o.IsInt) : (indent size depth o).IsInt := by
  induction depth generalizing o with
  | zero => exact hint
  | succ depth ih =>
      unfold indent
      split_ifs
      · exact ih hint.print
      · exact hint

theorem inBounds_of_indent (h : (indent size depth o).InBounds size) : o.InBounds size := by
  induction depth generalizing o with
  | zero => exact h
  | succ depth ih =>
      unfold indent at h
      split_ifs at h
      · exact (ih h).of_print
      · exact h

/-- The indentation is in bounds.  It stops where the buffer ends, or where the place does not fit an `int`. -/
theorem indent_spec (depth : ℕ) (hsize : size < 2 ^ 63) (hint : o.IsInt) (hp : o.written = p) (hle : p ≤ size)
    (hbounds : o.InBounds size) :
    (indent size depth o).InBounds size ∧
      ((indent size depth o).written = ↑(p + 2 * min depth ((size - p) / 2)) ∧
          p + 2 * min depth ((size - p) / 2) ≤ maxInt ∨
        (indent size depth o).written < 0 ∧ maxInt < p + 2 * min depth ((size - p) / 2)) := by
  induction depth generalizing o p with
  | zero =>
      have hmax := hint.2
      exact ⟨hbounds, Or.inl ⟨by simpa [indent] using hp, by omega⟩⟩
  | succ depth ih =>
      by_cases hroom : toSize o.written < size - 1
      · have hnext : indent size (depth + 1) o = indent size depth (o.print size indentText) := if_pos hroom
        rw [toSize_of_eq hint hp] at hroom
        have hmin : min (depth + 1) ((size - p) / 2) = min depth ((size - (p + 2)) / 2) + 1 := by omega
        have hbounds' : (o.print size indentText).InBounds size :=
          (Output.inBounds_print hsize).mpr ⟨hbounds, by omega, by omega⟩
        rw [hnext, hmin]
        obtain ⟨hwritten, -⟩ | ⟨hneg, hlarge⟩ := Output.written_print hint size indentText
        · obtain ⟨hbounds₁, hindent⟩ := ih (p := p + 2) hint.print
            (by rw [hwritten, hp, printed_indentText, Nat.cast_add]) (by omega) hbounds'
          have hsum : p + 2 + 2 * min depth ((size - (p + 2)) / 2) =
              p + 2 * (min depth ((size - (p + 2)) / 2) + 1) := by omega
          rw [hsum] at hindent
          exact ⟨hbounds₁, hindent⟩
        · rw [printed_indentText, hp] at hlarge
          rw [indent_of_not_room (not_room_of_neg hsize hint.print hneg)]
          exact ⟨hbounds', Or.inr ⟨hneg, by omega⟩⟩
      · have hnext : indent size (depth + 1) o = o := if_neg hroom
        have hmax := hint.2
        rw [toSize_of_eq hint hp] at hroom
        have hmin : min (depth + 1) ((size - p) / 2) = 0 := by omega
        rw [hnext, hmin]
        exact ⟨hbounds, Or.inl ⟨by simpa using hp, by omega⟩⟩

/-! ## The zones -/

/-- The length of a zone in the dump. -/
def zoneLength (formatFixed : ℕ → Float → List UInt8) (z : ZoneEntry) : ℕ :=
  2 * z.depth + printed (zoneText formatFixed z)

/-- Wherever a zone begins that is printed, its indentation, up to the end of the buffer, fits an `int`. -/
def IndentsFit (formatFixed : ℕ → Float → List UInt8) (size : ℕ) : ℕ → List ZoneEntry → Prop
  | _, [] => True
  | p, z :: zones =>
      (p < size - 1 → p ≤ maxInt → p + 2 * min z.depth ((size - p) / 2) ≤ maxInt) ∧
        IndentsFit formatFixed size (p + zoneLength formatFixed z) zones

/-- Behind the end of the buffer, and where places do not fit an `int`, no zone is printed. -/
theorem indentsFit_of_not_room (h : p < size - 1 → ¬ p ≤ maxInt) : IndentsFit formatFixed size p zones := by
  induction zones generalizing p with
  | nil => trivial
  | cons z zones ih => exact ⟨fun hlt hle => absurd hle (h hlt), ih (by omega)⟩

theorem printZones_of_not_room (hroom : ¬ toSize o.written < size - 1) :
    printZones formatFixed size zones o = o := by
  cases zones with
  | nil => rfl
  | cons z zones => exact if_neg hroom

theorem isInt_printZones (hint : o.IsInt) : (printZones formatFixed size zones o).IsInt := by
  induction zones generalizing o with
  | nil => exact hint
  | cons z zones ih =>
      unfold printZones
      split_ifs
      · exact ih (isInt_indent hint).print
      · exact hint

theorem inBounds_of_printZones (h : (printZones formatFixed size zones o).InBounds size) : o.InBounds size := by
  induction zones generalizing o with
  | nil => exact h
  | cons z zones ih =>
      unfold printZones at h
      split_ifs at h
      · exact inBounds_of_indent (ih h).of_print
      · exact h

/-- The place is `p`, or printing has stopped in front of it: at the end of the buffer, or because the place
did not fit an `int`. -/
def Reaches (o : Output) (size p : ℕ) : Prop :=
  o.written = p ∨ (size ≤ o.written + 1 ∧ size ≤ p + 1) ∨ (o.written < 0 ∧ maxInt < p)

/-- A zone is in bounds exactly if its indentation fits.  Then the place behind it is reached, or nothing more
is printed. -/
theorem printZone_spec (formatFixed : ℕ → Float → List UInt8) (z : ZoneEntry) (hsize : size < 2 ^ 63)
    (hint : o.IsInt) (hp : o.written = p) (hbounds : o.InBounds size) (hroom : p < size - 1) :
    ((printZone formatFixed size z o).InBounds size ↔ p + 2 * min z.depth ((size - p) / 2) ≤ maxInt) ∧
      (p + 2 * min z.depth ((size - p) / 2) ≤ maxInt →
        (printZone formatFixed size z o).written = ↑(p + zoneLength formatFixed z) ∨
          ¬ toSize (printZone formatFixed size z o).written < size - 1 ∧
            (p + zoneLength formatFixed z < size - 1 → ¬ p + zoneLength formatFixed z ≤ maxInt) ∧
            ∀ q, p + zoneLength formatFixed z ≤ q → Reaches (printZone formatFixed size z o) size q) := by
  have hint₁ : (indent size z.depth o).IsInt := isInt_indent hint
  obtain ⟨hbounds₁, hindent⟩ := indent_spec z.depth hsize hint hp (by omega) hbounds
  have hint₂ : (printZone formatFixed size z o).IsInt := hint₁.print
  refine ⟨?_, fun hfits => ?_⟩
  · rw [printZone, Output.inBounds_print hsize]
    obtain ⟨hwritten, hfits⟩ | ⟨hneg, hlarge⟩ := hindent
    · exact iff_of_true ⟨hbounds₁, by omega, by omega⟩ hfits
    · exact iff_of_false (fun h => absurd h.2.1 (by omega)) (by omega)
  · obtain ⟨hwritten, -⟩ | ⟨-, hlarge⟩ := hindent
    · have hprint := Output.written_print hint₁ size (zoneText formatFixed z)
      rw [← printZone, hwritten] at hprint
      unfold zoneLength Reaches
      obtain ⟨hnext, hmax⟩ | ⟨hneg, hlarge⟩ := hprint
      · by_cases hdepth : z.depth ≤ (size - p) / 2
        · rw [min_eq_left hdepth] at hnext
          exact Or.inl (by rw [hnext]; push_cast; omega)
        · -- the indentation has been cut off at the end of the buffer
          rw [min_eq_right (by omega)] at hnext
          have hplace := toSize_of_eq (p := p + 2 * ((size - p) / 2) + printed (zoneText formatFixed z)) hint₂
            (by rw [hnext]; push_cast; omega)
          rw [hplace]
          refine Or.inr ⟨by omega, by omega, fun q hq => Or.inr (Or.inl ?_)⟩
          omega
      · exact Or.inr ⟨not_room_of_neg hsize hint₂ hneg, by omega, fun q hq => Or.inr (Or.inr ⟨hneg, by omega⟩)⟩
    · omega

/-- The zones are in bounds exactly if the indentations fit. -/
theorem printZones_spec (formatFixed : ℕ → Float → List UInt8) (zones : List ZoneEntry)
    (hsize : size < 2 ^ 63) (hint : o.IsInt) (hp : o.written = p) (hbounds : o.InBounds size) :
    ((printZones formatFixed size zones o).InBounds size ↔ IndentsFit formatFixed size p zones) ∧
      (IndentsFit formatFixed size p zones →
        Reaches (printZones formatFixed size zones o) size
          (p + (zones.map (zoneLength formatFixed)).sum)) := by
  induction zones generalizing o p with
  | nil => exact ⟨iff_of_true hbounds trivial, fun _ => Or.inl (by simpa [printZones] using hp)⟩
  | cons z zones ih =>
      have hmax := hint.2
      by_cases hroom : toSize o.written < size - 1
      · have hnext : printZones formatFixed size (z :: zones) o =
            printZones formatFixed size zones (printZone formatFixed size z o) := if_pos hroom
        rw [toSize_of_eq hint hp] at hroom
        obtain ⟨hbounds₂, hreaches⟩ :=
          printZone_spec formatFixed z hsize hint hp hbounds hroom
        rw [hnext, IndentsFit, List.map_cons, List.sum_cons, ← add_assoc]
        by_cases hfits : p + 2 * min z.depth ((size - p) / 2) ≤ maxInt
        · obtain hwritten | ⟨hstop, hfit, hreach⟩ := hreaches hfits
          · obtain ⟨hiff, hreach⟩ := ih (isInt_indent hint).print hwritten (hbounds₂.mpr hfits)
            exact ⟨hiff.trans ⟨fun h => ⟨fun _ _ => hfits, h⟩, fun h => h.2⟩, fun h => hreach h.2⟩
          · rw [printZones_of_not_room hstop]
            exact ⟨iff_of_true (hbounds₂.mpr hfits) ⟨fun _ _ => hfits, indentsFit_of_not_room hfit⟩,
              fun _ => hreach _ (Nat.le_add_right _ _)⟩
        · have hnot : ¬ IndentsFit formatFixed size p (z :: zones) := fun h => hfits (h.1 hroom (by omega))
          exact ⟨iff_of_false (fun h => hfits (hbounds₂.mp (inBounds_of_printZones h))) hnot,
            fun h => absurd h hnot⟩
      · have hend : printZones formatFixed size (z :: zones) o = o := if_neg hroom
        rw [toSize_of_eq hint hp] at hroom
        have hfit : IndentsFit formatFixed size p (z :: zones) :=
          indentsFit_of_not_room fun hlt => absurd hlt hroom
        rw [hend]
        exact ⟨iff_of_true hbounds hfit, fun _ => Or.inr (Or.inl ⟨by omega, by omega⟩)⟩

/-! ## The dump -/

/-- The length of the dump up to the text that is printed last of the counters. -/
def lastCounterPlace (formatFixed : ℕ → Float → List UInt8) (ctx : ProfContext) : ℕ :=
  printed (headerText formatFixed ctx) + (ctx.lastZones.map (zoneLength formatFixed)).sum +
    ((counterTexts formatFixed ctx.counters.reduceOption).dropLast.map printed).sum

/-- The title is printed before the first counter. -/
theorem counterTexts_sum (formatFixed : ℕ → Float → List UInt8) {counters : List CounterEntry} (hne : counters ≠ []) :
    10 ≤ ((counterTexts formatFixed counters).dropLast.map printed).sum := by
  have htitle : printed countersText = 10 := by
    decide
  cases counters with
  | nil => exact absurd rfl hne
  | cons c counters =>
      rw [counterTexts, List.dropLast_cons_cons, List.map_cons, List.sum_cons, htitle]
      exact Nat.le_add_right _ _

/-- The dump is in bounds exactly if the indentations fit, and no counter is in use or the last one has its
place in the buffer. -/
theorem dumpLastFrame_inBounds_iff (hpos : 1 ≤ size) (hsize : size < 2 ^ 63) (ctx : ProfContext) :
    (dumpLastFrame formatFixed ctx size).InBounds size ↔
      IndentsFit formatFixed size (printed (headerText formatFixed ctx)) ctx.lastZones ∧
        (ctx.counters.reduceOption = [] ∨
          lastCounterPlace formatFixed ctx ≤ size ∧ lastCounterPlace formatFixed ctx ≤ maxInt) := by
  have hempty : Output.empty.IsInt := ⟨by decide, by decide⟩
  have hheader := Snprintf.printed_le (headerText formatFixed ctx)
  have hbounds : (Output.empty.print size (headerText formatFixed ctx)).InBounds size :=
    (Output.inBounds_print hsize).mpr ⟨by simp [Output.InBounds, Output.empty], le_rfl, by simp [Output.empty]⟩
  have hwritten : (Output.empty.print size (headerText formatFixed ctx)).written =
      printed (headerText formatFixed ctx) := by
    obtain ⟨hplace, -⟩ | ⟨-, hlarge⟩ := Output.written_print hempty size (headerText formatFixed ctx)
    · simpa [Output.empty] using hplace
    · simp only [Output.empty] at hlarge
      omega
  obtain ⟨hiff, hreaches⟩ := printZones_spec formatFixed ctx.lastZones hsize hempty.print hwritten hbounds
  rw [dumpLastFrame, if_neg (by omega), printCounters_false,
    Output.inBounds_printAll hsize (isInt_printZones hempty.print), hiff]
  refine and_congr_right fun hfit => ?_
  by_cases hnone : ctx.counters.reduceOption = []
  · simp [hnone, counterTexts]
  · have hsum := counterTexts_sum formatFixed hnone
    have htexts : counterTexts formatFixed ctx.counters.reduceOption ≠ [] := by
      intro htexts
      rw [htexts] at hsum
      simp at hsum
    have hreach := hreaches hfit
    unfold Reaches at hreach
    simp only [hnone, htexts, false_or]
    unfold lastCounterPlace
    omega

/-- The dump of a frame is in bounds exactly if the indentations of the zones that are printed fit an `int`, and
no counter is in use or the last one has its place in the buffer.  The requirements are in bounds exactly if the
buffer has room for their title, or no byte at all.  No buffer for a dump has 2^63 bytes. -/
theorem formatters_inBounds_iff (formatFixed : ℕ → Float → List UInt8) (ctx : ProfContext) {size bufferSize : ℕ}
    (hpos : 1 ≤ size) (hsize : size < 2 ^ 63) (hbuffer : bufferSize < 2 ^ 64) :
    ((dumpLastFrame formatFixed ctx size).InBounds size ↔
      IndentsFit formatFixed size (printed (headerText formatFixed ctx)) ctx.lastZones ∧
        (ctx.counters.reduceOption = [] ∨
          lastCounterPlace formatFixed ctx ≤ size ∧ lastCounterPlace formatFixed ctx ≤ maxInt)) ∧
    ((∀ c ∈ manifestGetRequirements bufferSize, c.InBounds bufferSize) ↔ bufferSize = 0 ∨ 30 ≤ bufferSize) :=
  ⟨dumpLastFrame_inBounds_iff hpos hsize ctx, manifestGetRequirements_inBounds_iff hbuffer⟩

/-- How the C library prints zero. -/
def formatZero (precision : ℕ) (_ : Float) : List UInt8 :=
  if precision = 0 then ascii "0" else ascii "0." ++ List.replicate precision 48

/-- A profiler without frames and counters. -/
def noCounters : ProfContext :=
  profCreate (some ⟨true, 1, 1, 1⟩)

/-- A profiler without frames, and with a counter whose value is zero. -/
def oneCounter : ProfContext :=
  (noCounters.counterSet (.replicate 1 97 CString.beq_zero_a) 0).2

theorem formatters_inBounds_noCounters :
    (dumpLastFrame formatZero noCounters 1).InBounds 1 ∧ ∀ c ∈ manifestGetRequirements 30, c.InBounds 30 :=
  have hiff := formatters_inBounds_iff formatZero noCounters (by decide : 1 ≤ 1) (by decide)
    (by decide)
  ⟨hiff.1.mpr ⟨trivial, Or.inl rfl⟩, hiff.2.mpr (Or.inr (by decide))⟩

/-- A counter is printed behind a buffer of one byte. -/
theorem not_inBounds_oneCounter :
    ¬ ∀ (formatFixed : ℕ → Float → List UInt8) (ctx : ProfContext) (size : ℕ), 1 ≤ size → size < 2 ^ 63 →
      (dumpLastFrame formatFixed ctx size).InBounds size := by
  intro h
  have hcounters : oneCounter.counters.reduceOption ≠ [] :=
    fun hnone => absurd (congrArg List.length hnone) (by decide)
  have hbounds := (dumpLastFrame_inBounds_iff (by decide) (by decide) oneCounter).mp
    (h formatZero oneCounter 1 (by decide) (by decide))
  have hsum := counterTexts_sum formatZero hcounters
  have hplace := (hbounds.2.resolve_left hcounters).1
  unfold lastCounterPlace at hplace
  omega

end LgxRuntime.Profile
