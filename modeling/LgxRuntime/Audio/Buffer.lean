import Mathlib.Algebra.Order.Ring.Nat
import Mathlib.Data.List.Basic
import Mathlib.Tactic.Common

/-!
# Audio buffers

A buffer keeps its samples as interleaved floats: the samples of frame `k` stand from `k * channels` on.  Their
number is a product of 32 bits.  What a float is is left open, and so is how the bytes of a sample become one.
-/

namespace LgxRuntime.Audio

/-- `lgx_aud_format_t`. -/
inductive LgxAudFormat
  | s16
  | f32
  deriving DecidableEq

/-- The bytes of a sample. -/
def LgxAudFormat.size : LgxAudFormat → ℕ
  | .s16 => 2
  | .f32 => 4

/-- `lgx_aud_buffer`. -/
structure AudBuffer (Sample : Type*) where
  samples : List Sample
  totalFrames : UInt32
  channels : UInt32
  sampleRate : UInt32
  deriving DecidableEq

/-- Whether `calloc` finds memory for a buffer, and `malloc` for its samples. -/
structure BufferMemory where
  buffer : Bool
  samples : Bool

variable {Sample : Type*}

/-- Sample `i` of the data. -/
def readSample (convert : LgxAudFormat → List UInt8 → Sample) (format : LgxAudFormat) (data : List UInt8)
    (i : ℕ) : Sample :=
  convert format ((data.drop (i * format.size)).take format.size)

/-- `lgx_aud_buffer_create`, of a system.  The data are `none` if the pointer is `NULL`. -/
def audBufferCreate (convert : LgxAudFormat → List UInt8 → Sample) (memory : BufferMemory)
    (data : Option (List UInt8)) (frames : UInt32) (format : LgxAudFormat) (rate channels : UInt32) :
    Option (AudBuffer Sample) :=
  match data with
  | none => none
  | some data =>
      if frames = 0 || channels = 0 then none
      else if !memory.buffer then none
      else
        let totalSamples := frames * channels
        if !memory.samples then none
        else
          some
            { samples := (List.range totalSamples.toNat).map (readSample convert format data)
              totalFrames := frames
              channels := channels
              sampleRate := rate }

variable {convert : LgxAudFormat → List UInt8 → Sample} {memory : BufferMemory} {data : Option (List UInt8)}
  {frames rate channels : UInt32} {format : LgxAudFormat} {buf : AudBuffer Sample}

/-- What a new buffer is like. -/
structure Created (frames channels : UInt32) (buf : AudBuffer Sample) : Prop where
  frames_ne_zero : frames ≠ 0
  channels_ne_zero : channels ≠ 0
  totalFrames_eq : buf.totalFrames = frames
  channels_eq : buf.channels = channels
  length_samples : buf.samples.length = frames.toNat * channels.toNat % 2 ^ 32

theorem created (h : audBufferCreate convert memory data frames format rate channels = some buf) :
    Created frames channels buf := by
  unfold audBufferCreate at h
  cases data with
  | none => exact absurd h (by simp)
  | some data =>
      dsimp only at h
      split_ifs at h with hzero hbuffer hsamples
      obtain rfl := Option.some.inj h
      rw [Bool.or_eq_true, not_or, decide_eq_true_eq, decide_eq_true_eq] at hzero
      refine ⟨hzero.1, hzero.2, rfl, rfl, ?_⟩
      rw [List.length_map, List.length_range, UInt32.toNat_mul]

/-- With memory, and with frames and channels, a buffer is made. -/
theorem exists_audBufferCreate (convert : LgxAudFormat → List UInt8 → Sample) (data : List UInt8) (rate : UInt32)
    (format : LgxAudFormat) (hframes : frames ≠ 0) (hchannels : channels ≠ 0) :
    ∃ buf, audBufferCreate convert ⟨true, true⟩ (some data) frames format rate channels = some buf ∧
      buf.totalFrames = frames := by
  unfold audBufferCreate
  simp [hframes, hchannels]

end LgxRuntime.Audio
