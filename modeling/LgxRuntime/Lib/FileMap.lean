import Mathlib.Logic.Function.Basic

/-!
# File maps

A directory as `rename` and `unlink` see it: a map from paths to contents.  A file that is renamed takes the
place of the one that has the new name, and there is nothing to rename under a path without a file.
-/

namespace FileMap

open Function (update update_self update_of_ne)

variable {Path Content : Type*} [DecidableEq Path]

/-- `rename`, which fails if there is no file. -/
def rename (files : Path → Option Content) (source target : Path) : Option (Path → Option Content) :=
  (files source).map fun content => update (update files source none) target (some content)

/-- `rename`, whose failure is ignored. -/
def move (files : Path → Option Content) (source target : Path) : Path → Option Content :=
  (rename files source target).getD files

/-- `unlink`, whose failure is ignored. -/
def unlink (files : Path → Option Content) (path : Path) : Path → Option Content :=
  update files path none

/-- A file that is opened to be written: it is empty afterwards. -/
def truncate {α : Type*} (files : Path → Option (List α)) (path : Path) : Path → Option (List α) :=
  update files path (some [])

/-- A file that is appended to: it is created if there is none. -/
def append {α : Type*} (files : Path → Option (List α)) (path : Path) (entry : List α) :
    Path → Option (List α) :=
  update files path (some ((files path).getD [] ++ entry))

variable {files files' : Path → Option Content} {source target path : Path} {content : Content}

theorem rename_target (h : rename files source target = some files') : files' target = files source := by
  obtain ⟨content, hsource, rfl⟩ := Option.map_eq_some_iff.mp h
  rw [update_self, hsource]

theorem rename_of_ne (h : rename files source target = some files') (hsource : path ≠ source)
    (htarget : path ≠ target) : files' path = files path := by
  obtain ⟨content, -, rfl⟩ := Option.map_eq_some_iff.mp h
  rw [update_of_ne htarget, update_of_ne hsource]

theorem rename_of_some (h : files source = some content) :
    rename files source target = some (update (update files source none) target (some content)) := by
  rw [rename, h, Option.map_some]

theorem move_of_ne (hsource : path ≠ source) (htarget : path ≠ target) :
    move files source target path = files path := by
  cases h : rename files source target with
  | none => rw [move, h, Option.getD_none]
  | some files' => rw [move, h, Option.getD_some, rename_of_ne h hsource htarget]

theorem rename_eq_none (h : files source = none) : rename files source target = none := by
  rw [rename, h, Option.map_none]

/-- A file is moved to a free name, if there is one. -/
theorem move_target (hfree : files target = none) : move files source target target = files source := by
  cases hsource : files source with
  | none => rw [move, rename_eq_none hsource, Option.getD_none, hfree]
  | some content => rw [move, rename_of_some hsource, Option.getD_some, update_self]

theorem move_source (hne : source ≠ target) : move files source target source = none := by
  cases hsource : files source with
  | none => rw [move, rename_eq_none hsource, Option.getD_none, hsource]
  | some content => rw [move, rename_of_some hsource, Option.getD_some, update_of_ne hne, update_self]

theorem unlink_self : unlink files path path = none :=
  update_self ..

theorem unlink_of_ne {other : Path} (h : other ≠ path) : unlink files path other = files other :=
  update_of_ne h ..

end FileMap
