import LgxRuntime.Lib.Snprintf

/-!
# The library manifest

The manifest lists the libraries that the runtime needs.  `lgx_manifest_get_requirements` prints it for
diagnostics, line by line, until the buffer is full.
-/

namespace LgxRuntime.LibraryManifest

open Snprintf (Call ascii decimal printed toSize)

/-- `library_requirement_t`. -/
structure LibraryRequirement where
  name : String
  majorMin : ℕ
  minorMin : ℕ
  patchMin : ℕ
  required : Bool

/-- `g_library_manifest`. -/
def libraryManifest : List LibraryRequirement :=
  [⟨"glibc", 2, 35, 0, true⟩, ⟨"libstdc++", 0, 0, 0, false⟩, ⟨"vulkan", 1, 3, 0, false⟩]

/-- The title of the requirements. -/
def titleText : List UInt8 :=
  ascii "Library Version Requirements:\n"

/-- `"  %s: %d.%d.%d (%s)\n"`. -/
def requirementText (req : LibraryRequirement) : List UInt8 :=
  ascii "  " ++ ascii req.name ++ ascii ": " ++ decimal req.majorMin ++ ascii "." ++ decimal req.minorMin ++
    ascii "." ++ decimal req.patchMin ++ ascii " (" ++ ascii (if req.required then "required" else "optional") ++
    ascii ")\n"

/-- The loop over the manifest: the calls of `snprintf`, from an offset on. -/
def printRequirements (size : ℕ) : List LibraryRequirement → ℕ → List Call
  | [], _ => []
  | req :: reqs, offset =>
      let next := offset + printed (requirementText req)
      ⟨offset, toSize (size - offset)⟩ ::
        if size - 1 ≤ next then [] else printRequirements size reqs next

/-- `lgx_manifest_get_requirements`: its calls of `snprintf`. -/
def manifestGetRequirements (size : ℕ) : List Call :=
  if size = 0 then []
  else ⟨0, toSize size⟩ :: printRequirements size libraryManifest (printed titleText)

variable {size offset : ℕ} {reqs : List LibraryRequirement}

theorem inBounds_of_le (hsize : size < 2 ^ 64) (hle : offset ≤ size) :
    Call.InBounds size ⟨offset, toSize (size - offset)⟩ := by
  have hrest := Snprintf.toSize_of_nonneg (n := size - offset) (by omega) (by omega)
  refine ⟨Int.natCast_nonneg offset, Int.ofNat_le.mpr hle, ?_⟩
  change (offset : ℤ) + (toSize (size - offset) : ℤ) ≤ size
  omega

/-- The loop stops before its offset is behind the buffer. -/
theorem printRequirements_inBounds (hsize : size < 2 ^ 64) (hle : offset ≤ size) :
    ∀ c ∈ printRequirements size reqs offset, c.InBounds size := by
  induction reqs generalizing offset with
  | nil => simp [printRequirements]
  | cons req reqs ih =>
      unfold printRequirements
      rw [List.forall_mem_cons]
      refine ⟨inBounds_of_le hsize hle, ?_⟩
      split_ifs with hfull
      · simp
      · exact ih (by omega)

theorem printed_titleText : printed titleText = 30 := by
  decide

/-- The requirements are in bounds exactly if the title is, which is printed first and not looked at. -/
theorem manifestGetRequirements_inBounds_iff (hsize : size < 2 ^ 64) :
    (∀ c ∈ manifestGetRequirements size, c.InBounds size) ↔ size = 0 ∨ 30 ≤ size := by
  unfold manifestGetRequirements
  by_cases hzero : size = 0
  · simp [hzero]
  · rw [if_neg hzero, List.forall_mem_cons, printed_titleText]
    simp only [hzero, false_or]
    constructor
    · rintro ⟨-, h⟩
      have hfirst := (h _ List.mem_cons_self).2.1
      exact Int.ofNat_le.mp hfirst
    · intro hle
      have hfirst := inBounds_of_le hsize (Nat.zero_le size)
      exact ⟨by simpa using hfirst, printRequirements_inBounds hsize hle⟩

end LgxRuntime.LibraryManifest
