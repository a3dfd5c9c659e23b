import LgxRuntime.Audio.Buffer
import LgxRuntime.Lib.LittleEndian

/-!
# WAV files

`lgx_aud_buffer_create_from_wav` walks over the chunks of a file until it finds its data.  What is left to read is
a list of bytes; a seek beyond the end leaves nothing.  The loop skips as many bytes as a chunk says that it has,
and not the pad byte behind a chunk of odd size.
-/

namespace LgxRuntime.Audio

open LittleEndian (u16 u32 u32Bytes)

/-- `"RIFF"`. -/
def riffId : List UInt8 := [0x52, 0x49, 0x46, 0x46]

/-- `"WAVE"`. -/
def waveId : List UInt8 := [0x57, 0x41, 0x56, 0x45]

/-- `"fmt "`. -/
def fmtId : List UInt8 := [0x66, 0x6D, 0x74, 0x20]

/-- `"data"`. -/
def dataId : List UInt8 := [0x64, 0x61, 0x74, 0x61]

/-- `fread` of one object of some size: its bytes and what is left.  An object of no bytes is never read. -/
def fread (size : ℕ) (rest : List UInt8) : Option (List UInt8 × List UInt8) :=
  if size = 0 || rest.length < size then none else some (rest.take size, rest.drop size)

/-- `fread` of a `wav_chunk_t`: its id, its size, and what is left. -/
def readChunk : List UInt8 → Option (List UInt8 × ℕ × List UInt8)
  | i0 :: i1 :: i2 :: i3 :: s0 :: s1 :: s2 :: s3 :: rest => some ([i0, i1, i2, i3], u32 s0 s1 s2 s3, rest)
  | _ => none

/-- `fread` of a `wav_header_t`: whether it is the header of a WAV file, and what is left. -/
def readHeader : List UInt8 → Option (Bool × List UInt8)
  | r0 :: r1 :: r2 :: r3 :: _ :: _ :: _ :: _ :: w0 :: w1 :: w2 :: w3 :: rest =>
      some ([r0, r1, r2, r3] = riffId && [w0, w1, w2, w3] = waveId, rest)
  | _ => none

/-! ## Formats -/

/-- `sizeof(wav_fmt_t)`. -/
def fmtSize : ℕ := 16

/-- The bytes of a `wav_fmt_t` that is zero. -/
def fmtZero : List UInt8 :=
  List.replicate fmtSize 0

/-- The field of two bytes at an offset. -/
def fmtU16 (fmt : List UInt8) (i : ℕ) : ℕ :=
  u16 (fmt.getD i 0) (fmt.getD (i + 1) 0)

/-- `fmt.format`. -/
def fmtFormat (fmt : List UInt8) : ℕ :=
  fmtU16 fmt 0

/-- `fmt.channels`. -/
def fmtChannels (fmt : List UInt8) : ℕ :=
  fmtU16 fmt 2

/-- `fmt.sample_rate`. -/
def fmtSampleRate (fmt : List UInt8) : ℕ :=
  u32 (fmt.getD 4 0) (fmt.getD 5 0) (fmt.getD 6 0) (fmt.getD 7 0)

/-- `fmt.bits_per_sample`. -/
def fmtBitsPerSample (fmt : List UInt8) : ℕ :=
  fmtU16 fmt 14

/-- The format of the samples, if it is one that is supported. -/
def audFmt (fmt : List UInt8) : Option LgxAudFormat :=
  if fmtFormat fmt = 1 && fmtBitsPerSample fmt = 16 then some .s16
  else if fmtFormat fmt = 3 && fmtBitsPerSample fmt = 32 then some .f32
  else none

/-! ## The walk -/

/-- How the loop over the chunks ends: without data, or with the data, what is in `fmt` then, and whether a
`fmt ` chunk has been found.  The loop may also need more rounds. -/
inductive Walk
  | outOfFuel
  | noData
  | data (foundFmt : Bool) (fmt bytes : List UInt8)
  deriving DecidableEq

/-- The bytes of a `fmt ` chunk that are read. -/
def readSize (size : ℕ) : ℕ :=
  if size < fmtSize then size else fmtSize

/-- The loop over the chunks.  A read that fails ends it, so that `feof` never does.  `malloc` says whether there
is memory for the data. -/
def walk (malloc : Bool) : ℕ → Bool → List UInt8 → List UInt8 → Walk
  | 0, _, _, _ => .outOfFuel
  | n + 1, foundFmt, fmt, rest =>
      match readChunk rest with
      | none => .noData
      | some (id, size, rest) =>
          if id = fmtId then
            match fread (readSize size) rest with
            | none => .noData
            | some (bytes, rest) =>
                walk malloc n true (bytes ++ fmt.drop (readSize size)) (rest.drop (size - readSize size))
          else if id = dataId then
            if !malloc then .noData
            else
              match fread size rest with
              | none => .noData
              | some (bytes, _) => .data foundFmt fmt bytes
          else walk malloc n foundFmt fmt (rest.drop size)

/-- What comes of a file: a buffer, no buffer, or a division by zero.  The loop may need more rounds. -/
inductive Loaded (Sample : Type*)
  | outOfFuel
  | dividesByZero
  | returned (buf : Option (AudBuffer Sample))
  deriving DecidableEq

/-- Whether `malloc` finds memory for the data, and what is there for the buffer. -/
structure WavMemory where
  data : Bool
  buffer : BufferMemory

variable {Sample : Type*}

/-- The buffer is made of the data. -/
def createFromData (convert : LgxAudFormat → List UInt8 → Sample) (memory : BufferMemory) (foundFmt : Bool)
    (fmt data : List UInt8) : Loaded Sample :=
  if !foundFmt then .returned none
  else
    match audFmt fmt with
    | none => .returned none
    | some format =>
        let bytesPerSample := fmtBitsPerSample fmt / 8
        let totalSamples := data.length / bytesPerSample
        if fmtChannels fmt = 0 then .dividesByZero
        else
          let frames := totalSamples / fmtChannels fmt
          .returned (audBufferCreate convert memory (some data) (UInt32.ofNat frames) format
            (UInt32.ofNat (fmtSampleRate fmt)) (UInt32.ofNat (fmtChannels fmt)))

/-- `lgx_aud_buffer_create_from_wav`.  The content is `none` if the file cannot be opened. -/
def audBufferCreateFromWav (convert : LgxAudFormat → List UInt8 → Sample) (memory : WavMemory) (fuel : ℕ)
    (content : Option (List UInt8)) : Loaded Sample :=
  match content with
  | none => .returned none
  | some content =>
      match readHeader content with
      | none => .returned none
      | some (wav, rest) =>
          if !wav then .returned none
          else
            match walk memory.data fuel false fmtZero rest with
            | .outOfFuel => .outOfFuel
            | .noData => .returned none
            | .data foundFmt fmt data => createFromData convert memory.buffer foundFmt fmt data

end LgxRuntime.Audio
