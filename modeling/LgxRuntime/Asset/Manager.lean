import LgxRuntime.Lib.CString
import Mathlib.Algebra.Order.Ring.Nat
import Mathlib.Data.List.Basic
import Mathlib.Tactic.Common

/-!
# The asset manager

The manager registers every asset that it loads in a table of fixed size, also those that are not found or
cannot be read.  An asset that is unloaded loses its data.
-/

namespace LgxRuntime.Asset

/-- `lgx_asset_type_t`. -/
inductive AssetType
  | binary
  | text
  | image
  | audio
  | shader
  | mesh
  deriving DecidableEq

/-- `lgx_asset_state_t`. -/
inductive AssetState
  | unloaded
  | loading
  | ready
  | error
  deriving DecidableEq

/-- `lgx_asset`; `data` is `none` if it is `NULL`. -/
structure LgxAsset where
  path : CString
  resolved : CString
  type : AssetType
  state : AssetState
  data : Option (List UInt8)
  size : ℕ

/-- The files: which of them can be accessed, and what `read_file` reads from them. -/
structure FileSystem where
  access : CString → Bool
  readFile : CString → Option (List UInt8)

/-- `MAX_PATH_LEN`. -/
def maxPathLen : ℕ := 512

theorem noZero_join (directory path : CString) : (0 : UInt8) ∉ directory.bytes ++ 47 :: path.bytes := by
  simp [directory.noZero, path.noZero]

/-- What `snprintf` leaves of a directory and a path with a slash between them. -/
def joinPath (directory path : CString) : CString :=
  CString.truncate (maxPathLen - 1) ⟨directory.bytes ++ 47 :: path.bytes, noZero_join directory path⟩

/-- The loop over the search paths in `resolve_path`: whether a file is found, and what is in the buffer. -/
def searchPaths (files : FileSystem) (path : CString) : List CString → CString → Bool × CString
  | [], out => (false, out)
  | directory :: directories, _ =>
      if files.access (joinPath directory path) then (true, joinPath directory path)
      else searchPaths files path directories (joinPath directory path)

/-- `resolve_path`, with an empty buffer. -/
def resolvePath (files : FileSystem) (directories : List CString) (path : CString) : Bool × CString :=
  if files.access path then (true, path.truncate (maxPathLen - 1))
  else searchPaths files path directories ⟨[], CString.zero_notMem_nil⟩

/-- `lgx_asset_manager`, without what hot reload needs. -/
structure AssetManager where
  searchPaths : List CString
  assets : List LgxAsset
  maxAssets : UInt32
  assets_le : assets.length ≤ maxAssets.toNat

/-- Why `lgx_asset_load` returns `NULL`. -/
inductive LoadFailure
  | invalidParam
  | capacity
  | memory
  deriving DecidableEq

namespace AssetManager

/-- `lgx_asset_manager_create`, when there is enough memory. -/
def create (maxAssets : UInt32) (directories : List CString) : AssetManager where
  searchPaths := directories
  assets := []
  maxAssets := if 0 < maxAssets then maxAssets else 1024
  assets_le := Nat.zero_le _

/-- `asset_count`. -/
def assetCount (m : AssetManager) : ℕ :=
  m.assets.length

/-- The asset that `lgx_asset_load` makes. -/
def newAsset (m : AssetManager) (files : FileSystem) (path : CString) (type : AssetType) : LgxAsset :=
  let resolved := resolvePath files m.searchPaths path
  let content := if resolved.1 then files.readFile resolved.2 else none
  { path := path.truncate (maxPathLen - 1)
    resolved := resolved.2
    type := type
    state := if content.isSome then .ready else .error
    data := content
    size := (content.map List.length).getD 0 }

/-- `lgx_asset_load`; an asset is returned as its place in the table.  `enough` says whether `calloc` finds
enough memory. -/
def load (m : AssetManager) (files : FileSystem) (path : Option CString) (type : AssetType) (enough : Bool) :
    Except LoadFailure ℕ × AssetManager :=
  match path with
  | none => (.error .invalidParam, m)
  | some path =>
      if hfull : m.maxAssets.toNat ≤ m.assetCount then (.error .capacity, m)
      else if enough then
        (.ok m.assetCount, { m with
          assets := m.assets ++ [m.newAsset files path type]
          assets_le := by
            rw [List.length_append]
            exact not_le.mp hfull })
      else (.error .memory, m)

/-- What `lgx_asset_unload` makes of an asset. -/
def unloaded (a : LgxAsset) : LgxAsset :=
  { a with state := .unloaded, data := none, size := 0 }

/-- `lgx_asset_unload`. -/
def unload (m : AssetManager) (asset : Option ℕ) : AssetManager :=
  match asset with
  | none => m
  | some i => { m with
      assets := m.assets.modify i unloaded
      assets_le := by
        rw [List.length_modify]
        exact m.assets_le }

/-- The number of assets that are registered and not unloaded. -/
def loadedCount (m : AssetManager) : ℕ :=
  m.assets.countP fun a => a.state ≠ .unloaded

end AssetManager

end LgxRuntime.Asset
