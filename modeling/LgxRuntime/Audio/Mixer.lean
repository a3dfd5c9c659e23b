import LgxRuntime.Audio.Buffer

/-!
# The mixer

The loop of `lgx_aud_update` that adds a source to the mix.  It reads a mono buffer at the frame, and every other
buffer at twice the frame, whatever the number of its channels.
-/

namespace LgxRuntime.Audio

/-- What the mixer does with a position in a source, which is a `double`: it starts at zero, goes on by the pitch
and is truncated.  Every number of 32 bits is a `double`. -/
structure Positions (Position : Type*) where
  zero : Position
  advance : Position → Position
  truncate : Position → UInt32
  exists_truncate : ∀ n, ∃ position, truncate position = n

/-- `lgx_aud_state_t`. -/
inductive LgxAudState
  | stopped
  | playing
  | paused
  deriving DecidableEq

/-- `lgx_aud_source`.  Volume, pitch and place are in the gains and in what advances a position. -/
structure AudSource (Position Sample : Type*) where
  buffer : Option (AudBuffer Sample)
  state : LgxAudState
  position : Position
  looping : Bool

/-- `final_vol`, `left_gain` and `right_gain`. -/
structure Gains (Sample : Type*) where
  finalVol : Sample
  left : Sample
  right : Sample

/-- A sample that is read for a frame. -/
structure Read where
  frame : UInt32
  index : UInt32
  deriving DecidableEq

/-- A source while it is mixed: the source, the mix, and what has been read, the latest first. -/
structure Mixing (Position Sample : Type*) where
  source : AudSource Position Sample
  mix : List Sample
  reads : List Read

variable {Position Sample : Type*} {positions : Positions Position} {buf : AudBuffer Sample}
  {source : AudSource Position Sample} {position : Position} {ch f srcFrame frames channels : UInt32}

/-! ## Addressing -/

/-- The sample belongs to the frame that it is read for, and is in the buffer. -/
def Read.Within (read : Read) (buf : AudBuffer Sample) : Prop :=
  read.frame.toNat * buf.channels.toNat ≤ read.index.toNat ∧
    read.index.toNat < (read.frame.toNat + 1) * buf.channels.toNat ∧ read.index.toNat < buf.samples.length

/-- The samples of a frame are read at the right places if the buffer is mono. -/
theorem within_mono (hcreated : Created frames 1 buf) {k : UInt32} (hk : k < frames) :
    Read.Within ⟨k, k⟩ buf := by
  have hlt := UInt32.lt_iff_toNat_lt.mp hk
  have hframes := frames.toNat_lt
  have hone : (1 : UInt32).toNat = 1 := rfl
  rw [Read.Within, hcreated.channels_eq, hcreated.length_samples, hone]
  dsimp only
  omega

/-- They are if they are the first two of the frame and there is no overflow. -/
theorem within_other (hcreated : Created frames channels buf) (hchannels : 2 ≤ channels.toNat) {k : UInt32}
    (hk : k < frames) (hstride : k.toNat * 2 = k.toNat * channels.toNat)
    (hlength : frames.toNat * channels.toNat < 2 ^ 32) :
    Read.Within ⟨k, k * 2 + 0⟩ buf ∧ Read.Within ⟨k, k * 2 + 1⟩ buf := by
  have hroom : (k.toNat + 1) * channels.toNat ≤ frames.toNat * channels.toNat :=
    Nat.mul_le_mul_right _ (UInt32.lt_iff_toNat_lt.mp hk)
  have hnext : (k.toNat + 1) * channels.toNat = k.toNat * channels.toNat + channels.toNat :=
    Nat.succ_mul ..
  have hdouble : (k * 2).toNat = k.toNat * channels.toNat := by
    rw [← hstride, UInt32.toNat_mul]
    exact Nat.mod_eq_of_lt (show k.toNat * 2 < 2 ^ 32 by omega)
  have hleft : (k * 2 + 0).toNat = k.toNat * channels.toNat := by
    rw [UInt32.add_zero, hdouble]
  have hright : (k * 2 + 1).toNat = k.toNat * channels.toNat + 1 := by
    rw [UInt32.toNat_add, hdouble]
    exact Nat.mod_eq_of_lt (show k.toNat * channels.toNat + 1 < 2 ^ 32 by omega)
  have hsamples : buf.samples.length = frames.toNat * channels.toNat :=
    hcreated.length_samples.trans (Nat.mod_eq_of_lt hlength)
  unfold Read.Within
  rw [hcreated.channels_eq, hsamples]
  dsimp only
  rw [hleft, hright]
  omega

/-! ## Mixing -/

/-- The frame that is read at a position, and the position that it is read at; there is none if the source comes
to its end. -/
def sourceFrame (positions : Positions Position) (buf : AudBuffer Sample)
    (source : AudSource Position Sample) : Option (UInt32 × Position) :=
  if buf.totalFrames ≤ positions.truncate source.position then
    if source.looping then some (0, positions.zero) else none
  else some (positions.truncate source.position, source.position)

/-- Only frames of the buffer are read. -/
theorem sourceFrame_lt (h : sourceFrame positions buf source = some (srcFrame, position))
    (hframes : buf.totalFrames ≠ 0) : srcFrame < buf.totalFrames := by
  unfold sourceFrame at h
  split_ifs at h with hend hlooping
  · obtain ⟨rfl, -⟩ := Prod.mk.inj (Option.some.inj h)
    exact UInt32.pos_iff_ne_zero.mpr hframes
  · obtain ⟨rfl, -⟩ := Prod.mk.inj (Option.some.inj h)
    exact UInt32.not_le.mp hend

variable [Inhabited Sample] [Add Sample] [Mul Sample]

/-- A sample is added to an entry of the mix. -/
def addTo (mix : List Sample) (i : UInt32) (sample : Sample) : List Sample :=
  mix.modify i.toNat fun before => before + sample

/-- A frame of the buffer is added to frame `f` of the mix, which has `ch` channels. -/
def mixFrame (buf : AudBuffer Sample) (gains : Gains Sample) (ch f srcFrame : UInt32)
    (m : Mixing Position Sample) : Mixing Position Sample :=
  if buf.channels = 1 then
    let sample := buf.samples.getD srcFrame.toNat default * gains.finalVol
    { m with
      mix :=
        if 2 ≤ ch then addTo (addTo m.mix (f * ch + 0) (sample * gains.left)) (f * ch + 1) (sample * gains.right)
        else addTo m.mix (f * ch + 0) sample
      reads := ⟨srcFrame, srcFrame⟩ :: m.reads }
  else
    let sL := buf.samples.getD (srcFrame * 2 + 0).toNat default * gains.finalVol
    let sR := buf.samples.getD (srcFrame * 2 + 1).toNat default * gains.finalVol
    { m with
      mix :=
        if 2 ≤ ch then addTo (addTo m.mix (f * ch + 0) (sL * gains.left)) (f * ch + 1) (sR * gains.right)
        else m.mix
      reads := ⟨srcFrame, srcFrame * 2 + 1⟩ :: ⟨srcFrame, srcFrame * 2 + 0⟩ :: m.reads }

/-- The loop over the frames of the mix, from `f` on. -/
def mixFrom (positions : Positions Position) (buf : AudBuffer Sample) (gains : Gains Sample) (ch : UInt32) :
    ℕ → UInt32 → Mixing Position Sample → Mixing Position Sample
  | 0, _, m => m
  | n + 1, f, m =>
      match sourceFrame positions buf m.source with
      | none => { m with source := { m.source with state := .stopped, position := positions.zero } }
      | some (srcFrame, position) =>
          let mixed := mixFrame buf gains ch f srcFrame m
          mixFrom positions buf gains ch n (f + 1)
            { mixed with source := { m.source with position := positions.advance position } }

/-- What `lgx_aud_update` does with one source; `frames` and `ch` are `buffer_frames` and `channels` of the
system. -/
def mixSource (positions : Positions Position) (gains : Gains Sample) (frames ch : UInt32)
    (source : AudSource Position Sample) (mix : List Sample) : Mixing Position Sample :=
  match source.buffer with
  | none => ⟨source, mix, []⟩
  | some buf =>
      if source.state ≠ .playing then ⟨source, mix, []⟩
      else mixFrom positions buf gains ch frames.toNat 0 ⟨source, mix, []⟩

/-- The buffer holds all samples of its frames, and the mixer reads, at whatever position a source is, only
samples of the frame that it is at. -/
def Addressed (positions : Positions Position) (buf : AudBuffer Sample) : Prop :=
  buf.samples.length = buf.totalFrames.toNat * buf.channels.toNat ∧
    ∀ (gains : Gains Sample) (frames ch : UInt32) (source : AudSource Position Sample) (mix : List Sample),
      source.buffer = some buf → ∀ read ∈ (mixSource positions gains frames ch source mix).reads, read.Within buf

variable {gains : Gains Sample} {m : Mixing Position Sample}

/-- What is read for one frame. -/
theorem reads_mixFrame (buf : AudBuffer Sample) (gains : Gains Sample) (ch f srcFrame : UInt32)
    (m : Mixing Position Sample) :
    (mixFrame buf gains ch f srcFrame m).reads =
      (if buf.channels = 1 then [⟨srcFrame, srcFrame⟩]
        else [⟨srcFrame, srcFrame * 2 + 1⟩, ⟨srcFrame, srcFrame * 2 + 0⟩]) ++ m.reads := by
  unfold mixFrame
  split_ifs <;> rfl

/-- What holds of the reads for every frame of the buffer holds of all reads of the loop. -/
theorem forall_reads_mixFrom {P : Read → Prop} (hframes : buf.totalFrames ≠ 0)
    (hmono : buf.channels = 1 → ∀ k < buf.totalFrames, P ⟨k, k⟩)
    (hother : buf.channels ≠ 1 → ∀ k < buf.totalFrames, P ⟨k, k * 2 + 0⟩ ∧ P ⟨k, k * 2 + 1⟩) (n : ℕ) (f : UInt32)
    (hbefore : ∀ read ∈ m.reads, P read) : ∀ read ∈ (mixFrom positions buf gains ch n f m).reads, P read := by
  induction n generalizing f m with
  | zero => exact hbefore
  | succ n ih =>
      rw [mixFrom]
      cases hframe : sourceFrame positions buf m.source with
      | none => exact hbefore
      | some next =>
          obtain ⟨srcFrame, position⟩ := next
          have hlt := sourceFrame_lt hframe hframes
          apply ih
          intro read hread
          rw [reads_mixFrame] at hread
          obtain hnew | hold := List.mem_append.mp hread
          · split_ifs at hnew with hchannels
            · obtain rfl := List.mem_singleton.mp hnew
              exact hmono hchannels srcFrame hlt
            · obtain ⟨hleft, hright⟩ := hother hchannels srcFrame hlt
              obtain rfl | hnew := List.mem_cons.mp hnew
              · exact hright
              · obtain rfl := List.mem_singleton.mp hnew
                exact hleft
          · exact hbefore read hold

/-- A read that can happen. -/
theorem mem_reads (gains : Gains Sample) (ch : UInt32) (mix : List Sample) (hchannels : buf.channels ≠ 1)
    (hlt : srcFrame < buf.totalFrames) (htruncate : positions.truncate position = srcFrame) :
    ⟨srcFrame, srcFrame * 2 + 0⟩ ∈
      (mixSource positions gains 1 ch ⟨some buf, .playing, position, false⟩ mix).reads := by
  have hframe : sourceFrame positions buf (⟨some buf, .playing, position, false⟩ : AudSource Position Sample) =
      some (srcFrame, position) := by
    rw [sourceFrame, htruncate, if_neg (UInt32.not_le.mpr hlt)]
  change _ ∈ (mixFrom positions buf gains ch 1 0 ⟨⟨some buf, .playing, position, false⟩, mix, []⟩).reads
  rw [mixFrom]
  dsimp only
  rw [hframe]
  dsimp only [mixFrom]
  rw [reads_mixFrame, if_neg hchannels]
  simp

variable {convert : LgxAudFormat → List UInt8 → Sample} {memory : BufferMemory} {data : Option (List UInt8)}
  {rate : UInt32} {format : LgxAudFormat}

/-- If every frame of the buffer is read rightly, all of them are. -/
theorem addressed_of_frames (hcreated : Created frames channels buf)
    (hlength : frames.toNat * channels.toNat < 2 ^ 32)
    (hmono : channels = 1 → ∀ k < frames, Read.Within ⟨k, k⟩ buf)
    (hother : channels ≠ 1 → ∀ k < frames, Read.Within ⟨k, k * 2 + 0⟩ buf ∧ Read.Within ⟨k, k * 2 + 1⟩ buf) :
    Addressed positions buf := by
  obtain ⟨hframes, -, rfl, rfl, hsamples⟩ := hcreated
  refine ⟨by rw [hsamples, Nat.mod_eq_of_lt hlength], ?_⟩
  intro gains frames ch source mix hbuffer
  unfold mixSource
  rw [hbuffer]
  dsimp only
  split_ifs with hplaying
  · simp
  · exact forall_reads_mixFrom hframes hmono hother _ _ (by simp)

theorem addressed_mono (hcreated : Created frames 1 buf) : Addressed positions buf := by
  have hframes := frames.toNat_lt
  have hlength : frames.toNat * (1 : UInt32).toNat < 2 ^ 32 := show frames.toNat * 1 < 2 ^ 32 by omega
  apply addressed_of_frames hcreated hlength
  · intro _ k hk
    exact within_mono hcreated hk
  · intro hother
    exact absurd rfl hother

theorem addressed_of_half (hcreated : Created frames 2 buf) (hhalf : frames < 0x80000000) :
    Addressed positions buf := by
  have hframes : frames.toNat < 2 ^ 31 := UInt32.lt_iff_toNat_lt.mp hhalf
  have hlength : frames.toNat * (2 : UInt32).toNat < 2 ^ 32 := show frames.toNat * 2 < 2 ^ 32 by omega
  apply addressed_of_frames hcreated hlength
  · intro hmono
    exact absurd hmono (by decide)
  · intro _ k hk
    exact within_other hcreated (le_refl 2) hk rfl hlength

theorem addressed_oneFrame (hcreated : Created 1 channels buf) : Addressed positions buf := by
  have hchannels := channels.toNat_lt
  have hlength : (1 : UInt32).toNat * channels.toNat < 2 ^ 32 := show 1 * channels.toNat < 2 ^ 32 by omega
  have hnone : channels.toNat ≠ 0 := fun heq => hcreated.channels_ne_zero (UInt32.toNat_inj.mp heq)
  apply addressed_of_frames hcreated hlength
  · intro hmono k hk
    rw [hmono] at hcreated
    exact within_mono hcreated hk
  · intro hother k hk
    have hone : channels.toNat ≠ 1 := fun heq => hother (UInt32.toNat_inj.mp heq)
    have hfirst : k.toNat < 1 := UInt32.lt_iff_toNat_lt.mp hk
    have hzero : k.toNat = 0 := by omega
    apply within_other hcreated (by omega) hk _ hlength
    rw [hzero, Nat.zero_mul, Nat.zero_mul]

/-- If a stereo buffer holds all samples, their number does not wrap around. -/
theorem half_of_addressed (hcreated : Created frames 2 buf) (h : Addressed positions buf) : frames < 0x80000000 := by
  have hlength := h.1
  have htwo : (2 : UInt32).toNat = 2 := rfl
  have hhalf : (0x80000000 : UInt32).toNat = 2 ^ 31 := rfl
  rw [hcreated.length_samples, hcreated.totalFrames_eq, hcreated.channels_eq, htwo] at hlength
  apply UInt32.lt_iff_toNat_lt.mpr
  omega

/-- With more than two channels, what is read for frame one belongs to frame zero. -/
theorem oneFrame_of_addressed (hcreated : Created frames channels buf) (hmono : channels ≠ 1)
    (hstereo : channels ≠ 2) (h : Addressed positions buf) : frames = 1 := by
  by_contra hone
  have hone' : frames.toNat ≠ 1 := fun heq => hone (UInt32.toNat_inj.mp heq)
  have hzero' : frames.toNat ≠ 0 := fun heq => hcreated.frames_ne_zero (UInt32.toNat_inj.mp heq)
  have hlt : 1 < buf.totalFrames := by
    rw [hcreated.totalFrames_eq]
    apply UInt32.lt_iff_toNat_lt.mpr
    change 1 < frames.toNat
    omega
  obtain ⟨position, htruncate⟩ := positions.exists_truncate 1
  have hbuf : buf.channels ≠ 1 := by rwa [hcreated.channels_eq]
  have hmem := mem_reads ⟨default, default, default⟩ 1 [] hbuf hlt htruncate
  obtain ⟨hwithin, -⟩ := h.2 _ _ _ _ _ rfl _ hmem
  rw [hcreated.channels_eq] at hwithin
  change 1 * channels.toNat ≤ 2 at hwithin
  have hmono' : channels.toNat ≠ 1 := fun heq => hmono (UInt32.toNat_inj.mp heq)
  have hstereo' : channels.toNat ≠ 2 := fun heq => hstereo (UInt32.toNat_inj.mp heq)
  have hnone' : channels.toNat ≠ 0 := fun heq => hcreated.channels_ne_zero (UInt32.toNat_inj.mp heq)
  omega

/-- Of a buffer that is made, the mixer reads the right samples if and only if it is mono, or stereo with less
than 2^31 frames, or has one frame. -/
theorem addressed_iff (positions : Positions Position)
    (h : audBufferCreate convert memory data frames format rate channels = some buf) :
    Addressed positions buf ↔ channels = 1 ∨ (channels = 2 ∧ frames < 0x80000000) ∨ frames = 1 := by
  have hcreated := created h
  constructor
  · intro haddressed
    by_cases hmono : channels = 1
    · exact Or.inl hmono
    by_cases hstereo : channels = 2
    · rw [hstereo] at hcreated
      exact Or.inr (Or.inl ⟨hstereo, half_of_addressed hcreated haddressed⟩)
    · exact Or.inr (Or.inr (oneFrame_of_addressed hcreated hmono hstereo haddressed))
  · rintro (rfl | ⟨rfl, hhalf⟩ | rfl)
    · exact addressed_mono hcreated
    · exact addressed_of_half hcreated hhalf
    · exact addressed_oneFrame hcreated

/-- Positions that advance by whole frames. -/
def wholePositions : Positions UInt32 where
  zero := 0
  advance := fun position => position + 1
  truncate := fun position => position
  exists_truncate := fun n => ⟨n, rfl⟩

/-- How silence is converted. -/
def silence (_ : LgxAudFormat) (_ : List UInt8) : ℤ := 0

theorem addressed_stereo :
    ∃ buf, audBufferCreate silence ⟨true, true⟩ (some (List.replicate 12 0)) 3 .s16 48000 2 = some buf ∧
      Addressed wholePositions buf := by
  have hcreate : audBufferCreate silence ⟨true, true⟩ (some (List.replicate 12 0)) 3 .s16 48000 2 =
      some ⟨List.replicate 6 0, 3, 2, 48000⟩ := by decide
  exact ⟨_, hcreate, (addressed_iff wholePositions hcreate).mpr (Or.inr (Or.inl ⟨rfl, by decide⟩))⟩

/-- Two frames of three channels, and a number of samples that wraps around to zero. -/
theorem not_addressed_threeChannels :
    (∃ buf, audBufferCreate silence ⟨true, true⟩ (some (List.replicate 12 0)) 2 .s16 48000 3 = some buf ∧
        ¬ Addressed wholePositions buf) ∧
      ∃ buf, audBufferCreate silence ⟨true, true⟩ (some []) 0x80000000 .s16 48000 2 = some buf ∧
        ¬ Addressed wholePositions buf := by
  refine ⟨⟨⟨List.replicate 6 0, 2, 3, 48000⟩, by decide, ?_⟩, ⟨⟨[], 0x80000000, 2, 48000⟩, by decide, ?_⟩⟩
  · rintro ⟨-, hreads⟩
    have hwithin := hreads ⟨0, 0, 0⟩ 1 1 ⟨some ⟨List.replicate 6 0, 2, 3, 48000⟩, .playing, 1, false⟩ [] rfl
      ⟨1, 2⟩ (by decide)
    exact absurd hwithin.1 (by decide)
  · rintro ⟨hlength, -⟩
    exact absurd hlength (by decide)

end LgxRuntime.Audio
