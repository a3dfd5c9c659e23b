import LgxRuntime.Asset.Manager
import Mathlib.Data.List.Induction

/-!
# The slots for assets

No slot is ever given back: `lgx_asset_unload` leaves the asset where it is.  A load is refused only if all
slots hold loaded assets, exactly if nothing has been unloaded when the slots are used up.
-/

namespace LgxRuntime.Asset

/-- The calls that load and unload assets. -/
inductive AssetCall
  | load (files : FileSystem) (path : Option CString) (type : AssetType) (enough : Bool)
  | unload (asset : Option ℕ)

/-- The manager after a call. -/
def AssetCall.run : AssetCall → AssetManager → AssetManager
  | .load files path type enough, m => (m.load files path type enough).2
  | .unload asset, m => m.unload asset

/-- The manager after some calls. -/
def AssetManager.runAll (m : AssetManager) (calls : List AssetCall) : AssetManager :=
  calls.foldl (fun m call => call.run m) m

/-- An asset is registered if there is a slot for it: there is a path, and enough memory. -/
def AssetCall.registers : AssetCall → Bool
  | .load _ path _ enough => path.isSome && enough
  | .unload _ => false

/-- The number of slots of a manager for the `max_assets` of a configuration. -/
def assetSlots (maxAssets : UInt32) : ℕ :=
  (AssetManager.create maxAssets []).maxAssets.toNat

/-- Every asset that is unloaded was returned by a load before. -/
def HandlesReturned (m : AssetManager) (calls : List AssetCall) : Prop :=
  ∀ before i, before ++ [.unload (some i)] <+: calls → i < (m.runAll before).assetCount

/-- A load is refused for lack of capacity only if all slots hold assets that are loaded and not unloaded. -/
def RefusedWhenLoaded (m : AssetManager) (calls : List AssetCall) : Prop :=
  ∀ before files path type enough, before ++ [.load files path type enough] <+: calls →
    ((m.runAll before).load files path type enough).1 = .error .capacity →
    (m.runAll before).loadedCount = m.maxAssets.toNat

/-- When a load comes after as many as there are slots, no asset has been unloaded. -/
def NothingUnloadedWhenFull (slots : ℕ) (calls : List AssetCall) : Prop :=
  ∀ before files path type enough, before ++ [.load files (some path) type enough] <+: calls →
    slots ≤ before.countP AssetCall.registers → ∀ i, AssetCall.unload (some i) ∉ before

variable {m : AssetManager} {calls : List AssetCall}

theorem runAll_concat (m : AssetManager) (calls : List AssetCall) (call : AssetCall) :
    m.runAll (calls ++ [call]) = call.run (m.runAll calls) := by
  rw [AssetManager.runAll, List.foldl_append]
  rfl

theorem HandlesReturned.init {call : AssetCall} (h : HandlesReturned m (calls ++ [call])) :
    HandlesReturned m calls :=
  fun before i hbefore => h before i (hbefore.trans (List.prefix_append _ _))

/-! ## One call -/

theorem load_capacity_iff (m : AssetManager) (files : FileSystem) (path : Option CString) (type : AssetType)
    (enough : Bool) :
    (m.load files path type enough).1 = .error .capacity ↔ path.isSome ∧ m.assetCount = m.maxAssets.toNat := by
  have hle : m.assetCount ≤ m.maxAssets.toNat := m.assets_le
  cases path with
  | none => simp [AssetManager.load]
  | some path =>
      rw [AssetManager.load]
      split_ifs with hfull henough
      · simp [le_antisymm hle hfull]
      · simp only [Option.isSome_some, true_and, false_iff]
        omega
      · simp only [Except.error.injEq, reduceCtorEq, Option.isSome_some, true_and, false_iff]
        omega

theorem newAsset_state (m : AssetManager) (files : FileSystem) (path : CString) (type : AssetType) :
    (m.newAsset files path type).state ≠ .unloaded := by
  unfold AssetManager.newAsset
  dsimp only
  split_ifs <;> simp

/-- A load leaves the assets alone, and registers a new one if it is to be registered and if there is a slot. -/
theorem load_assets (m : AssetManager) (files : FileSystem) (path : Option CString) (type : AssetType)
    (enough : Bool) :
    (AssetCall.load files path type enough).registers = true ∧ m.assetCount < m.maxAssets.toNat ∧
        (∃ a : LgxAsset, a.state ≠ .unloaded ∧ (m.load files path type enough).2.assets = m.assets ++ [a]) ∨
      ((AssetCall.load files path type enough).registers = false ∨ m.assetCount = m.maxAssets.toNat) ∧
        (m.load files path type enough).2.assets = m.assets := by
  have hle : m.assetCount ≤ m.maxAssets.toNat := m.assets_le
  cases path with
  | none => exact Or.inr ⟨Or.inl rfl, rfl⟩
  | some path =>
      unfold AssetManager.load
      split_ifs with hfull henough
      · exact Or.inr ⟨Or.inr (le_antisymm hle hfull), rfl⟩
      · exact Or.inl ⟨henough, not_le.mp hfull, _, newAsset_state m files path type, rfl⟩
      · refine Or.inr ⟨Or.inl ?_, rfl⟩
        simpa [AssetCall.registers] using henough

theorem maxAssets_run (m : AssetManager) (call : AssetCall) : (call.run m).maxAssets = m.maxAssets := by
  cases call with
  | load files path type enough =>
      cases path with
      | none => rfl
      | some path =>
          rw [AssetCall.run, AssetManager.load]
          split_ifs <;> rfl
  | unload asset => cases asset <;> rfl

/-! ## All calls -/

/-- The slots that are used are those of the loads, and an asset is unloaded if some call has unloaded it. -/
structure Registered (slots : ℕ) (m : AssetManager) (calls : List AssetCall) : Prop where
  maxAssets : m.maxAssets.toNat = slots
  assetCount : m.assetCount = min slots (calls.countP AssetCall.registers)
  unloaded : (∃ a ∈ m.assets, a.state = .unloaded) ↔ ∃ i, AssetCall.unload (some i) ∈ calls

theorem registered_create (maxAssets : UInt32) (directories : List CString) :
    Registered (assetSlots maxAssets) (.create maxAssets directories) [] := by
  refine ⟨rfl, (Nat.min_zero _).symm, ?_⟩
  simp [AssetManager.create]

theorem Registered.load {slots : ℕ} (h : Registered slots m calls) (files : FileSystem) (path : Option CString)
    (type : AssetType) (enough : Bool) :
    Registered slots (m.load files path type enough).2 (calls ++ [.load files path type enough]) := by
  have hcount := h.assetCount
  have hmax : (m.load files path type enough).2.maxAssets.toNat = slots := by
    rw [← h.maxAssets]
    exact congrArg UInt32.toNat (maxAssets_run m (.load files path type enough))
  have hunload : (∃ i, AssetCall.unload (some i) ∈ calls ++ [.load files path type enough]) ↔
      ∃ i, AssetCall.unload (some i) ∈ calls := by simp
  obtain ⟨hregisters, hroom, a, ha, hassets⟩ | ⟨hnone, hassets⟩ := load_assets m files path type enough
  · refine ⟨hmax, ?_, ?_⟩
    · rw [h.maxAssets] at hroom
      rw [AssetManager.assetCount, hassets, List.length_append, List.length_singleton, List.countP_append,
        List.countP_singleton, if_pos hregisters]
      unfold AssetManager.assetCount at hcount hroom
      omega
    · rw [hunload, ← h.unloaded, hassets]
      simp [ha]
  · refine ⟨hmax, ?_, ?_⟩
    · rw [AssetManager.assetCount, hassets, List.countP_append, List.countP_singleton]
      rw [h.maxAssets] at hnone
      unfold AssetManager.assetCount at hcount hnone
      obtain hfalse | hfull := hnone
      · rw [hfalse]
        exact hcount
      · split_ifs <;> omega
    · rw [hunload, ← h.unloaded, hassets]

theorem exists_unloaded_modify {assets : List LgxAsset} {i : ℕ} (hi : i < assets.length) :
    ∃ a ∈ assets.modify i AssetManager.unloaded, a.state = .unloaded := by
  refine ⟨AssetManager.unloaded assets[i], ?_, rfl⟩
  rw [List.modify_eq_take_cons_drop hi]
  simp

theorem Registered.unload {slots : ℕ} (h : Registered slots m calls) (asset : Option ℕ)
    (hasset : ∀ i, asset = some i → i < m.assetCount) :
    Registered slots (m.unload asset) (calls ++ [.unload asset]) := by
  have hcount : (calls ++ [AssetCall.unload asset]).countP AssetCall.registers =
      calls.countP AssetCall.registers := by
    rw [List.countP_append, List.countP_singleton]
    rfl
  cases asset with
  | none =>
      refine ⟨h.maxAssets, by rw [hcount]; exact h.assetCount, ?_⟩
      rw [AssetManager.unload, h.unloaded]
      simp
  | some i =>
      refine ⟨h.maxAssets, ?_, ?_⟩
      · rw [hcount, ← h.assetCount]
        exact List.length_modify ..
      · exact iff_of_true (exists_unloaded_modify (hasset i rfl)) ⟨i, by simp⟩

theorem registered_runAll (maxAssets : UInt32) (directories : List CString)
    (h : HandlesReturned (.create maxAssets directories) calls) :
    Registered (assetSlots maxAssets) ((AssetManager.create maxAssets directories).runAll calls) calls := by
  induction calls using List.reverseRecOn with
  | nil => exact registered_create maxAssets directories
  | append_singleton calls call ih =>
      have hregistered := ih h.init
      rw [runAll_concat]
      cases call with
      | load files path type enough => exact hregistered.load files path type enough
      | unload asset =>
          refine hregistered.unload asset fun i hi => ?_
          rw [hi] at h
          exact h calls i (List.prefix_refl _)

/-- When the slots are used up, all of them hold loaded assets exactly if nothing has been unloaded. -/
theorem Registered.loadedCount_eq_iff {slots : ℕ} (h : Registered slots m calls) (hfull : m.assetCount = slots) :
    m.loadedCount = slots ↔ ∀ i, AssetCall.unload (some i) ∉ calls := by
  rw [AssetManager.loadedCount, ← hfull, AssetManager.assetCount, List.countP_eq_length, ← not_exists,
    ← h.unloaded]
  simp

/-- A load is refused only if all slots hold loaded assets, exactly if nothing has been unloaded whenever a
load comes after as many as there are slots. -/
theorem refusedWhenLoaded_iff (maxAssets : UInt32) (directories : List CString)
    (h : HandlesReturned (.create maxAssets directories) calls) :
    RefusedWhenLoaded (.create maxAssets directories) calls ↔
      NothingUnloadedWhenFull (assetSlots maxAssets) calls := by
  have hregistered (before : List AssetCall) (call : AssetCall) (hbefore : before ++ [call] <+: calls) :
      Registered (assetSlots maxAssets) ((AssetManager.create maxAssets directories).runAll before) before :=
    registered_runAll maxAssets directories fun front i hfront =>
      h front i (hfront.trans ((List.prefix_append _ _).trans hbefore))
  constructor
  · intro hloaded before files path type enough hbefore hfull
    have hbefore' := hregistered before _ hbefore
    have hcount := hbefore'.assetCount
    rw [min_eq_left hfull] at hcount
    refine (hbefore'.loadedCount_eq_iff hcount).mp ?_
    refine hloaded before files (some path) type enough hbefore ?_
    rw [load_capacity_iff, hbefore'.maxAssets]
    exact ⟨rfl, hcount⟩
  · intro hnone before files path type enough hbefore hrefused
    have hbefore' := hregistered before _ hbefore
    rw [load_capacity_iff, hbefore'.maxAssets] at hrefused
    obtain ⟨hpath, hcount⟩ := hrefused
    obtain ⟨path, rfl⟩ := Option.isSome_iff_exists.mp hpath
    refine (hbefore'.loadedCount_eq_iff hcount).mpr (hnone before files path type enough hbefore ?_)
    rw [hbefore'.assetCount] at hcount
    exact min_eq_left_iff.mp hcount

/-- A disk without files. -/
def noFiles : FileSystem :=
  ⟨fun _ => false, fun _ => none⟩

/-- A load from a disk without files. -/
def loadMissing : AssetCall :=
  .load noFiles (some ⟨[], CString.zero_notMem_nil⟩) .binary true

/-- With one slot, the second load is refused while the first asset is loaded. -/
theorem refusedWhenLoaded_twoLoads : RefusedWhenLoaded (.create 1 []) [loadMissing, loadMissing] := by
  refine (refusedWhenLoaded_iff 1 [] fun before i hbefore => ?_).mpr ?_
  · have hmem : AssetCall.unload (some i) ∈ [loadMissing, loadMissing] := hbefore.subset (by simp)
    simp [loadMissing] at hmem
  · intro before files path type enough hbefore hfull i hmem
    have hmem' : AssetCall.unload (some i) ∈ [loadMissing, loadMissing] :=
      hbefore.subset (List.mem_append_left _ hmem)
    simp [loadMissing] at hmem'

/-- With one slot, a load is refused after the only asset has been unloaded. -/
theorem not_refusedWhenLoaded_unloaded :
    ¬ RefusedWhenLoaded (.create 1 []) [loadMissing, .unload (some 0), loadMissing] := by
  intro h
  have hcount := h [loadMissing, .unload (some 0)] noFiles (some ⟨[], CString.zero_notMem_nil⟩) .binary true
    (List.prefix_refl _) rfl
  exact absurd hcount (by decide)

end LgxRuntime.Asset
