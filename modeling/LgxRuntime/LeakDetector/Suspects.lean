import LgxRuntime.LeakDetector.Histories

/-!
# The suspected allocator

The growths of the allocators are compared in `size_t`, where an allocator that has shrunk seems to have grown
by almost 2^64 bytes.  The right one is suspected only if no such growth comes out on top, or if there are no
others.
-/

namespace LgxRuntime.LeakDetection

variable {Rate Callback : Type} {rate : UInt64 → UInt64 → Rate} {suspicious : Rate → Bool}
  {history : List MemorySample} {prev sample : MemorySample} {a b : Allocator}

/-- The place of an allocator in the comparison. -/
def Allocator.place : Allocator → ℕ
  | .frameArena => 0
  | .gpuPool => 1
  | .persistentHeap => 2

/-- The bytes by which an allocator has grown. -/
def signedGrowth (prev sample : MemorySample) (a : Allocator) : ℤ :=
  (sample.bytes a).toNat - (prev.bytes a).toNat

/-- The allocator has fewer bytes than before. -/
def Shrank (prev sample : MemorySample) (a : Allocator) : Prop :=
  signedGrowth prev sample a < 0

theorem growth_of_not_shrank (h : ¬ Shrank prev sample a) :
    ((growth prev sample a).toNat : ℤ) = signedGrowth prev sample a := by
  have hprev := (prev.bytes a).toNat_lt
  have hsample := (sample.bytes a).toNat_lt
  unfold Shrank signedGrowth at h
  unfold growth signedGrowth
  rw [UInt64.toNat_sub]
  omega

theorem growth_of_shrank (h : Shrank prev sample a) :
    ((growth prev sample a).toNat : ℤ) = 2 ^ 64 + signedGrowth prev sample a := by
  have hprev := (prev.bytes a).toNat_lt
  have hsample := (sample.bytes a).toNat_lt
  unfold Shrank signedGrowth at h
  unfold growth signedGrowth
  rw [UInt64.toNat_sub]
  omega

/-- The growth of `b` in `size_t` is larger than the one of `a`, or it is equal and `b` comes later. -/
def Below (prev sample : MemorySample) (a b : Allocator) : Prop :=
  (growth prev sample a).toNat < (growth prev sample b).toNat ∨
    (growth prev sample a).toNat = (growth prev sample b).toNat ∧ a.place < b.place

/-- The suspected allocator comes out on top. -/
theorem below_suspect (h : a ≠ suspect prev sample) : Below prev sample a (suspect prev sample) := by
  unfold Below suspect at *
  simp only [UInt64.lt_iff_toNat_lt] at *
  split_ifs at h ⊢ <;> cases a <;> simp_all [Allocator.place] <;> omega

theorem growth_le_suspect (prev sample : MemorySample) (a : Allocator) :
    (growth prev sample a).toNat ≤ (growth prev sample (suspect prev sample)).toNat := by
  by_cases ha : a = suspect prev sample
  · rw [← ha]
  · exact (below_suspect ha).elim le_of_lt fun h => h.1.le

theorem not_below_suspect : ¬ Below prev sample (suspect prev sample) b := by
  intro h
  by_cases hb : b = suspect prev sample
  · subst hb
    rcases h with h | ⟨-, h⟩ <;> exact lt_irrefl _ h
  · rcases h with h | ⟨heq, h⟩ <;> rcases below_suspect hb with h' | ⟨heq', h'⟩ <;> omega

/-- The suspected allocator has grown most if all have shrunk, or if it has not. -/
theorem suspect_maximal_iff_shrank :
    (∀ a, signedGrowth prev sample a ≤ signedGrowth prev sample (suspect prev sample)) ↔
      (∀ a, Shrank prev sample a) ∨ ¬ Shrank prev sample (suspect prev sample) := by
  constructor
  · intro hmax
    by_cases hsuspect : Shrank prev sample (suspect prev sample)
    · exact Or.inl fun a => lt_of_le_of_lt (hmax a) hsuspect
    · exact Or.inr hsuspect
  · intro h a
    have hle := growth_le_suspect prev sample a
    rcases h with hall | hsuspect
    · have ha := growth_of_shrank (hall a)
      have hs := growth_of_shrank (hall (suspect prev sample))
      omega
    · have hs := growth_of_not_shrank hsuspect
      by_cases hshrank : Shrank prev sample a
      · unfold Shrank at hshrank hsuspect
        omega
      · have ha := growth_of_not_shrank hshrank
        omega

/-- Each allocator that has shrunk is beaten, in `size_t`, by one that has not. -/
def ShrunkAreBeaten (prev sample : MemorySample) : Prop :=
  ∀ a, Shrank prev sample a → ∃ b, ¬ Shrank prev sample b ∧
    (2 ^ 64 + signedGrowth prev sample a < signedGrowth prev sample b ∨
      2 ^ 64 + signedGrowth prev sample a = signedGrowth prev sample b ∧ a.place < b.place)

theorem below_iff (ha : Shrank prev sample a) (hb : ¬ Shrank prev sample b) :
    Below prev sample a b ↔ 2 ^ 64 + signedGrowth prev sample a < signedGrowth prev sample b ∨
      2 ^ 64 + signedGrowth prev sample a = signedGrowth prev sample b ∧ a.place < b.place := by
  have hga := growth_of_shrank ha
  have hgb := growth_of_not_shrank hb
  unfold Below
  omega

theorem not_shrank_suspect_iff :
    ¬ Shrank prev sample (suspect prev sample) ↔ ShrunkAreBeaten prev sample := by
  constructor
  · intro hsuspect a ha
    have hne : a ≠ suspect prev sample := by
      rintro rfl
      exact hsuspect ha
    exact ⟨_, hsuspect, (below_iff ha hsuspect).mp (below_suspect hne)⟩
  · intro h hsuspect
    obtain ⟨b, hb, hbeaten⟩ := h _ hsuspect
    exact not_below_suspect ((below_iff hsuspect hb).mpr hbeaten)

theorem grown_suspectedAllocator (d : LeakDetector Rate Callback) (rate : UInt64 → UInt64 → Rate)
    (prev sample : MemorySample) :
    (d.grown rate prev sample).1.suspectedAllocator = some (suspect prev sample) := by
  unfold LeakDetector.grown
  dsimp only
  split_ifs <;> rfl

/-- After a growth, whatever came before, the suspected allocator has grown most exactly if all three have
shrunk or each that has shrunk is beaten. -/
theorem suspect_maximal_iff (rate : UInt64 → UInt64 → Rate) (suspicious : Rate → Bool) (zero : Rate)
    (history : List MemorySample) (prev sample : MemorySample) (hgrows : grows rate suspicious prev sample = true) :
    (∃ c, ((leakDetectorInit zero : LeakDetector Rate Callback).addSamples rate suspicious
        (history ++ [prev] ++ [sample])).suspectedAllocator = some c ∧
      ∀ a, signedGrowth prev sample a ≤ signedGrowth prev sample c) ↔
      (∀ a, Shrank prev sample a) ∨ ShrunkAreBeaten prev sample := by
  have hseen : HasSeen rate suspicious ((leakDetectorInit zero : LeakDetector Rate Callback).addSamples rate
      suspicious (history ++ [prev])) (history ++ [prev]) := hasSeen_addSamples zero _
  have hsuspect : ((leakDetectorInit zero : LeakDetector Rate Callback).addSamples rate suspicious
      (history ++ [prev] ++ [sample])).suspectedAllocator = some (suspect prev sample) := by
    rw [LeakDetector.addSamples, List.foldl_append]
    change (LeakDetector.addSample _ rate suspicious sample).2.1.suspectedAllocator = _
    rw [← LeakDetector.addSamples, hseen.addSample_eq, if_pos hgrows, grown_suspectedAllocator]
  rw [hsuspect, ← not_shrank_suspect_iff, ← suspect_maximal_iff_shrank]
  constructor
  · rintro ⟨c, hc, hmax⟩
    rw [Option.some_inj] at hc
    rwa [← hc] at hmax
  · exact fun hmax => ⟨_, rfl, hmax⟩

/-- The frame arena has grown, and the others have stayed. -/
theorem suspect_maximal_frameArena :
    (∃ c, ((leakDetectorInit 0 : LeakDetector ℚ Unit).addSamples quotient atLeastThreshold
        ([] ++ [⟨0, 1000, 500, 300, 200⟩] ++ [⟨1, 2000, 1500, 300, 200⟩])).suspectedAllocator = some c ∧
      ∀ a, signedGrowth ⟨0, 1000, 500, 300, 200⟩ ⟨1, 2000, 1500, 300, 200⟩ a ≤
        signedGrowth ⟨0, 1000, 500, 300, 200⟩ ⟨1, 2000, 1500, 300, 200⟩ c) ↔
      (∀ a, Shrank ⟨0, 1000, 500, 300, 200⟩ ⟨1, 2000, 1500, 300, 200⟩ a) ∨
        ShrunkAreBeaten ⟨0, 1000, 500, 300, 200⟩ ⟨1, 2000, 1500, 300, 200⟩ :=
  suspect_maximal_iff quotient atLeastThreshold 0 [] _ _ (by decide +kernel)

/-- The frame arena has given back one byte, the GPU pool has grown by 1000, and the frame arena is
suspected. -/
theorem not_suspect_maximal_gpuPool :
    grows quotient atLeastThreshold ⟨0, 1000, 500, 300, 200⟩ ⟨1, 1999, 499, 1300, 200⟩ = true ∧
      ¬ ∃ c, ((leakDetectorInit 0 : LeakDetector ℚ Unit).addSamples quotient atLeastThreshold
          ([] ++ [⟨0, 1000, 500, 300, 200⟩] ++ [⟨1, 1999, 499, 1300, 200⟩])).suspectedAllocator = some c ∧
        ∀ a, signedGrowth ⟨0, 1000, 500, 300, 200⟩ ⟨1, 1999, 499, 1300, 200⟩ a ≤
          signedGrowth ⟨0, 1000, 500, 300, 200⟩ ⟨1, 1999, 499, 1300, 200⟩ c := by
  refine ⟨by decide +kernel, ?_⟩
  rintro ⟨c, hc, hmax⟩
  have hframe : some Allocator.frameArena = some c := hc ▸ (by decide +kernel)
  cases hframe
  exact absurd (hmax .gpuPool) (by decide)

end LgxRuntime.LeakDetection
