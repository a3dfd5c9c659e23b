import LgxRuntime.MemorySafety.Safety

/-!
# The size of a block

`lgx_memory_safety_alloc` adds up four machine words and asks `malloc` for the sum.  The block holds what
is laid out in it exactly when the sum does not wrap.
-/

namespace LgxRuntime.MemorySafety

variable {pageSize size raw : ℕ} {s : State} {answer : Option ℕ}

/-- The bytes that the metadata, the client, the canary and the guard area take. -/
def neededSize (pageSize : ℕ) (config : Config) (size : ℕ) : ℕ :=
  metadataSize + size + canarySize config + guardPageSize pageSize config

theorem totalSize_eq (pageSize : ℕ) (config : Config) (size : ℕ) :
    totalSize pageSize config size = wrap64 (neededSize pageSize config size) := rfl

/-- A block of the size that is needed holds everything that is written. -/
theorem le_neededSize_of_mem (config : Config) (hsize : neededSize pageSize config size ≤ sizeMax)
    {write : ℕ × ℕ} (hwrite : write ∈ allocWrites config size) :
    write.1 + write.2 ≤ neededSize pageSize config size := by
  have hmetadata : metadataSize ≤ neededSize pageSize config size := by
    unfold neededSize
    omega
  have hfields : ∀ field ∈ metadataFields, field.1 + field.2 ≤ metadataSize := by decide
  rcases List.mem_append.mp hwrite with hmem | hlink
  · rcases List.mem_append.mp hmem with hfield | hcanary
    · exact (hfields write hfield).trans hmetadata
    · -- the canary is the one write whose offset is computed
      obtain ⟨hcanaries, hmem⟩ := List.mem_ite_nil_right.mp hcanary
      obtain rfl := List.mem_singleton.mp hmem
      have hneeded : metadataSize + size + 8 ≤ neededSize pageSize config size := by
        rw [neededSize, canarySize, if_pos hcanaries]
        exact Nat.le_add_right ..
      have hlt : metadataSize + size < 2 ^ 64 := by
        unfold sizeMax at hsize
        omega
      rw [wrap64_of_lt hlt]
      exact hneeded
  · obtain ⟨-, hmem⟩ := List.mem_ite_nil_right.mp hlink
    obtain rfl := List.mem_singleton.mp hmem
    exact (hfields (32, 8) (by decide)).trans hmetadata

/-- Without a wrap `lgx_memory_safety_alloc` lays out the block that `malloc` returns. -/
theorem alloc_of_fits (hsize : size ≠ 0) (hfits : neededSize pageSize s.config size ≤ sizeMax) :
    ∃ s', s.alloc pageSize size (some raw) = some (some (raw + metadataSize), s') := by
  have htotal : totalSize pageSize s.config size = neededSize pageSize s.config size := by
    rw [totalSize_eq, wrap64_of_lt (by unfold sizeMax at hfits; omega)]
  have hwrites : ∀ write ∈ allocWrites s.config size,
      write.1 + write.2 ≤ totalSize pageSize s.config size := by
    intro write hwrite
    rw [htotal]
    exact le_neededSize_of_mem s.config hfits hwrite
  exact ⟨_, by rw [State.alloc, if_neg hsize]; exact if_pos hwrites⟩

/-- The call makes no write outside its block, and a pointer that it returns comes with a block that has
room for the metadata, the client, the canary and the guard area. -/
def AllocHolds (pageSize : ℕ) (s : State) (size : ℕ) (answer : Option ℕ) : Prop :=
  s.alloc pageSize size answer ≠ none ∧
    ∀ ptr s', s.alloc pageSize size answer = some (some ptr, s') →
      neededSize pageSize s.config size ≤ totalSize pageSize s.config size

/-- The block holds everything exactly when there is no block, or the sum of the four sizes fits a machine
word. -/
theorem allocHolds_iff (pageSize : ℕ) (s : State) (size : ℕ) (answer : Option ℕ) :
    AllocHolds pageSize s size answer ↔
      size = 0 ∨ answer = none ∨ neededSize pageSize s.config size ≤ sizeMax := by
  by_cases hsize : size = 0
  · refine iff_of_true ⟨by simp [State.alloc, hsize], fun ptr s' hcall => ?_⟩ (Or.inl hsize)
    simp [State.alloc, hsize] at hcall
  cases answer with
  | none =>
      refine iff_of_true ⟨by simp [State.alloc, hsize], fun ptr s' hcall => ?_⟩ (Or.inr (Or.inl rfl))
      simp [State.alloc, hsize] at hcall
  | some raw =>
      constructor
      · rintro ⟨hdefined, hroom⟩
        have hcall : ∃ s', s.alloc pageSize size (some raw) = some (some (raw + metadataSize), s') := by
          rw [State.alloc, if_neg hsize] at hdefined ⊢
          simp only at hdefined ⊢
          split at hdefined
          · rename_i hwrites
            exact ⟨_, if_pos hwrites⟩
          · exact absurd rfl hdefined
        obtain ⟨s', hcall⟩ := hcall
        have hle := hroom _ s' hcall
        rw [totalSize_eq] at hle
        have hlt : wrap64 (neededSize pageSize s.config size) < 2 ^ 64 := Nat.mod_lt _ (by decide)
        refine Or.inr (Or.inr ?_)
        unfold sizeMax
        omega
      · rintro (hzero | hnone | hfits)
        · exact absurd hzero hsize
        · cases hnone
        · obtain ⟨s', hcall⟩ := @alloc_of_fits pageSize size raw s hsize hfits
          refine ⟨by simp [hcall], fun ptr s' _ => ?_⟩
          rw [totalSize_eq, wrap64_of_lt (by unfold sizeMax at hfits; omega)]

/-- The state of a release build before the first call. -/
def start : State where
  activeAllocations := none
  activeCount := 0
  delayedQueue := none
  delayedCount := 0
  currentFrame := 0
  totalAllocations := 0
  totalFrees := 0
  canaryViolations := 0
  doubleFreeAttempts := 0
  config := ⟨false, false, false, false, false⟩
  block := fun _ => none
  node := fun _ => none
  log := []

/-- A request of 40 bytes less than the range of `size_t` asks `malloc` for 8 bytes. -/
theorem not_allocHolds_near_sizeMax :
    ¬ ∀ (s : State) (size : ℕ) (answer : Option ℕ), AllocHolds 4096 s size answer := by
  intro hall
  have hfault : start.alloc 4096 (2 ^ 64 - 40) (some 65536) = none := by decide
  exact (hall start (2 ^ 64 - 40) (some 65536)).1 hfault

end LgxRuntime.MemorySafety
