import LgxRuntime.Audio.WavChunks

/-!
# Loading WAV files

Which files make `lgx_aud_buffer_create_from_wav` divide by zero, and how many frames it loads.  A well-formed
file has a pad byte behind every chunk of odd size.  The loop does not skip it, so that the frames that are loaded
are those of the file read without pad bytes.
-/

namespace LgxRuntime.Audio

open LittleEndian (u32Bytes)

/-! ## Well-formed files -/

/-- The chunk with a pad byte, if its size is odd. -/
def RiffChunk.padded (c : RiffChunk) : List UInt8 :=
  c.bytes ++ if c.body.length % 2 = 1 then [0] else []

/-- A well-formed WAV file whose `fmt ` chunk precedes a data chunk that is not empty. -/
structure WavFile where
  before : List RiffChunk
  fmt : RiffChunk
  between : List RiffChunk
  data : RiffChunk
  after : List RiffChunk
  before_ids : ∀ c ∈ before, c.id ≠ fmtId ∧ c.id ≠ dataId
  fmt_id : fmt.id = fmtId
  fmt_size : fmtSize ≤ fmt.body.length
  between_ids : ∀ c ∈ between, c.id ≠ fmtId ∧ c.id ≠ dataId
  data_id : data.id = dataId
  data_body : data.body ≠ []
  size_lt : 4 + ((before ++ fmt :: between ++ data :: after).flatMap RiffChunk.padded).length < 2 ^ 32

namespace WavFile

/-- The chunks in front of the data. -/
def front (file : WavFile) : List RiffChunk :=
  file.before ++ file.fmt :: file.between

/-- The bytes of all chunks. -/
def chunkBytes (file : WavFile) : List UInt8 :=
  (file.front ++ file.data :: file.after).flatMap RiffChunk.padded

/-- The bytes of the file. -/
def bytes (file : WavFile) : List UInt8 :=
  riffId ++ (u32Bytes (4 + file.chunkBytes.length) ++ (waveId ++ file.chunkBytes))

/-- The bytes of its `wav_fmt_t`. -/
def wavFmt (file : WavFile) : List UInt8 :=
  file.fmt.body.take fmtSize

/-- The file declares PCM of 16 bits or floats of 32, and some channels. -/
def Declared (file : WavFile) : Prop :=
  ((fmtFormat file.wavFmt = 1 ∧ fmtBitsPerSample file.wavFmt = 16) ∨
    (fmtFormat file.wavFmt = 3 ∧ fmtBitsPerSample file.wavFmt = 32)) ∧ 1 ≤ fmtChannels file.wavFmt

/-- The frames of the data. -/
def frames (file : WavFile) : ℕ :=
  file.data.body.length / (fmtChannels file.wavFmt * (fmtBitsPerSample file.wavFmt / 8))

end WavFile

/-! ## What is loaded -/

variable {Sample : Type*}

/-- All memory that is asked for is there. -/
def enoughMemory : WavMemory :=
  ⟨true, ⟨true, true⟩⟩

/-- A buffer with so many frames is returned; of no frames there is none. -/
def Loaded.LoadsFrames (n : ℕ) : Loaded Sample → Prop
  | .outOfFuel => False
  | .dividesByZero => False
  | .returned none => n = 0
  | .returned (some buf) => buf.totalFrames.toNat = n

/-- The loop ends, nothing is divided by zero, and if the content is that of a well-formed file that declares a
format that is supported, all of its frames are loaded. -/
structure LoadsWav (convert : LgxAudFormat → List UInt8 → Sample) (content : List UInt8) : Prop where
  terminates : ∀ memory fuel, content.length < fuel →
    audBufferCreateFromWav convert memory fuel (some content) ≠ .outOfFuel
  noDivision : ∀ memory fuel, audBufferCreateFromWav convert memory fuel (some content) ≠ .dividesByZero
  loads : ∀ file : WavFile, file.bytes = content → file.Declared → ∀ fuel, content.length < fuel →
    (audBufferCreateFromWav convert enoughMemory fuel (some content)).LoadsFrames file.frames

/-! ## Reading without pad bytes -/

/-- The content has the header of a WAV file and consists of chunks without pad bytes, up to its data. -/
def Unpadded (content : List UInt8) (front : List RiffChunk) (data : RiffChunk) : Prop :=
  ∃ size rest, content = riffId ++ (size ++ (waveId ++ rest)) ∧ size.length = 4 ∧ Reads rest front data

/-- The content, read without pad bytes, has a `fmt ` chunk in front of its data that declares a format that is
supported and no channels. -/
def DeclaresNoChannels (content : List UInt8) : Prop :=
  ∃ front data, Unpadded content front data ∧ hasFmt front = true ∧
    (audFmt (fmtAfter fmtZero front)).isSome = true ∧ fmtChannels (fmtAfter fmtZero front) = 0

/-- The content, read without pad bytes, has some number of frames. -/
def HasFrames (content : List UInt8) (k : ℕ) : Prop :=
  ∃ front data, Unpadded content front data ∧ hasFmt front = true ∧
    (audFmt (fmtAfter fmtZero front)).isSome = true ∧
      data.body.length / (fmtChannels (fmtAfter fmtZero front) *
        (fmtBitsPerSample (fmtAfter fmtZero front) / 8)) = k

/-- The content has so many frames if it is read without pad bytes. -/
def UnpaddedFrames (content : List UInt8) (n : ℕ) : Prop :=
  ∀ k, k ≠ 0 → (HasFrames content k ↔ k = n)

variable {convert : LgxAudFormat → List UInt8 → Sample} {content rest fmt data : List UInt8} {memory : WavMemory}
  {fuel n k : ℕ} {foundFmt : Bool} {front front' : List RiffChunk} {chunk chunk' : RiffChunk}

theorem readHeader_eq_true_iff : readHeader content = some (true, rest) ↔
    ∃ size, content = riffId ++ (size ++ (waveId ++ rest)) ∧ size.length = 4 := by
  constructor
  · intro h
    unfold readHeader at h
    split at h
    · rename_i r0 r1 r2 r3 z0 z1 z2 z3 w0 w1 w2 w3 rest'
      obtain ⟨hids, rfl⟩ := Prod.mk.inj (Option.some.inj h)
      rw [Bool.and_eq_true, decide_eq_true_eq, decide_eq_true_eq] at hids
      refine ⟨[z0, z1, z2, z3], ?_, rfl⟩
      rw [← hids.1, ← hids.2]
      rfl
    · exact absurd h (by simp)
  · rintro ⟨size, rfl, hsize⟩
    obtain ⟨z0, z1, z2, z3, rfl⟩ := List.length_eq_four.mp hsize
    rfl

theorem length_of_readHeader {wav : Bool} (h : readHeader content = some (wav, rest)) :
    rest.length < content.length := by
  unfold readHeader at h
  split at h
  · obtain ⟨-, rfl⟩ := Prod.mk.inj (Option.some.inj h)
    simp only [List.length_cons]
    omega
  · exact absurd h (by simp)

theorem unpadded_iff : Unpadded content front chunk ↔
    ∃ rest, readHeader content = some (true, rest) ∧ Reads rest front chunk := by
  constructor
  · rintro ⟨size, rest, hcontent, hsize, hreads⟩
    exact ⟨rest, readHeader_eq_true_iff.mpr ⟨size, hcontent, hsize⟩, hreads⟩
  · rintro ⟨rest, hheader, hreads⟩
    obtain ⟨size, hcontent, hsize⟩ := readHeader_eq_true_iff.mp hheader
    exact ⟨size, rest, hcontent, hsize, hreads⟩

/-- A content is read without pad bytes in one way, as the walk is. -/
theorem Unpadded.unique (h : Unpadded content front chunk) (h' : Unpadded content front' chunk') :
    hasFmt front = hasFmt front' ∧ fmtAfter fmtZero front = fmtAfter fmtZero front' ∧ chunk.body = chunk'.body := by
  obtain ⟨rest, hheader, hreads⟩ := unpadded_iff.mp h
  obtain ⟨rest', hheader', hreads'⟩ := unpadded_iff.mp h'
  rw [hheader] at hheader'
  obtain ⟨-, rfl⟩ := Prod.mk.inj (Option.some.inj hheader')
  have hwalk := hreads.walk_eq false fmtZero (Nat.lt_succ_self rest.length)
  rw [hreads'.walk_eq false fmtZero (Nat.lt_succ_self rest.length)] at hwalk
  obtain ⟨hfound, hfmt, hbody⟩ := Walk.data.inj hwalk
  rw [Bool.false_or, Bool.false_or] at hfound
  exact ⟨hfound.symm, hfmt.symm, hbody.symm⟩

/-- What a file with the right header is walked over for. -/
theorem load_of_header (hheader : readHeader content = some (true, rest)) :
    audBufferCreateFromWav convert memory fuel (some content) =
      match walk memory.data fuel false fmtZero rest with
      | .outOfFuel => .outOfFuel
      | .noData => .returned none
      | .data foundFmt fmt data => createFromData convert memory.buffer foundFmt fmt data := by
  rw [audBufferCreateFromWav, hheader]
  rfl

/-- The buffer is made of the data that are there. -/
theorem load_of_unpadded (h : Unpadded content front chunk) (hmemory : memory.data = true)
    (hfuel : content.length < fuel) :
    audBufferCreateFromWav convert memory fuel (some content) =
      createFromData convert memory.buffer (hasFmt front) (fmtAfter fmtZero front) chunk.body := by
  obtain ⟨rest, hheader, hreads⟩ := unpadded_iff.mp h
  have hrest := length_of_readHeader hheader
  rw [load_of_header hheader, hmemory, hreads.walk_eq false fmtZero (hrest.trans hfuel)]
  rfl

/-- The buffer is made of data that are there, or there is none, or the loop needs more rounds. -/
theorem load_cases (convert : LgxAudFormat → List UInt8 → Sample) (memory : WavMemory) (fuel : ℕ)
    (content : List UInt8) :
    audBufferCreateFromWav convert memory fuel (some content) = .returned none ∨
      (audBufferCreateFromWav convert memory fuel (some content) = .outOfFuel ∧ fuel ≤ content.length) ∨
      ∃ front chunk, Unpadded content front chunk ∧
        audBufferCreateFromWav convert memory fuel (some content) =
          createFromData convert memory.buffer (hasFmt front) (fmtAfter fmtZero front) chunk.body := by
  cases hheader : readHeader content with
  | none =>
      refine Or.inl ?_
      rw [audBufferCreateFromWav, hheader]
  | some header =>
      obtain ⟨wav, rest⟩ := header
      cases wav with
      | false =>
          refine Or.inl ?_
          rw [audBufferCreateFromWav, hheader]
          rfl
      | true =>
          have hrest := length_of_readHeader hheader
          rw [load_of_header hheader]
          cases hwalk : walk memory.data fuel false fmtZero rest with
          | outOfFuel =>
              refine Or.inr (Or.inl ⟨rfl, ?_⟩)
              by_contra hfuel
              exact walk_ne_outOfFuel memory.data false fmtZero (by omega) hwalk
          | noData => exact Or.inl rfl
          | data foundFmt fmt data =>
              obtain ⟨front, chunk, hreads, rfl, rfl, rfl⟩ := reads_of_walk hwalk
              exact Or.inr (Or.inr ⟨front, chunk, unpadded_iff.mpr ⟨rest, hheader, hreads⟩, rfl⟩)

/-! ## Making a buffer of the data -/

theorem createFromData_eq_dividesByZero_iff (memory : BufferMemory) :
    createFromData convert memory foundFmt fmt data = .dividesByZero ↔
      foundFmt = true ∧ (audFmt fmt).isSome = true ∧ fmtChannels fmt = 0 := by
  unfold createFromData
  cases foundFmt with
  | false => simp
  | true =>
      cases audFmt fmt with
      | none => simp
      | some format =>
          dsimp only
          split_ifs <;> simp_all

theorem createFromData_ne_outOfFuel (memory : BufferMemory) :
    createFromData convert memory foundFmt fmt data ≠ .outOfFuel := by
  unfold createFromData
  cases foundFmt with
  | false => simp
  | true =>
      cases audFmt fmt with
      | none => simp
      | some format =>
          dsimp only
          split_ifs <;> simp

/-- With memory and channels, so many frames are loaded as are asked for. -/
theorem create_loadsFrames_iff {frames : ℕ} {channels rate : UInt32} {format : LgxAudFormat}
    (hframes : frames < 2 ^ 32) (hchannels : channels ≠ 0) (n : ℕ) :
    (Loaded.returned (audBufferCreate convert ⟨true, true⟩ (some data) (UInt32.ofNat frames) format rate
      channels)).LoadsFrames n ↔ frames = n := by
  have htoNat : (UInt32.ofNat frames).toNat = frames := UInt32.toNat_ofNat_of_lt' hframes
  by_cases hzero : frames = 0
  · rw [hzero, audBufferCreate]
    exact eq_comm
  · have hne : UInt32.ofNat frames ≠ 0 := by
      intro heq
      rw [heq] at htoNat
      exact hzero htoNat.symm
    obtain ⟨buf, hbuf, htotal⟩ := exists_audBufferCreate convert data rate format hne hchannels
    rw [hbuf, Loaded.LoadsFrames, htotal, htoNat]

/-- A number of frames is told by what it is if it is not zero. -/
theorem eq_iff_forall_ne_zero {P : Prop} (m n : ℕ) (hP : P) : m = n ↔ ∀ k, k ≠ 0 → ((P ∧ m = k) ↔ k = n) := by
  constructor
  · intro hmn k _
    rw [hmn]
    exact ⟨fun h => h.2.symm, fun h => ⟨hP, h.symm⟩⟩
  · intro h
    by_cases hm : m = 0
    · by_contra hn
      have hne : n ≠ 0 := fun hzero => hn (hm.trans hzero.symm)
      exact hn ((h n hne).mpr rfl).2
    · exact (h m hm).mp ⟨hP, rfl⟩

/-- If there are none, no other number is it. -/
theorem eq_zero_iff_forall_ne_zero {P : ℕ → Prop} (hP : ∀ k, ¬ P k) (n : ℕ) :
    n = 0 ↔ ∀ k, k ≠ 0 → (P k ↔ k = n) := by
  constructor
  · intro hn k hk
    rw [hn]
    exact iff_of_false (hP k) hk
  · intro h
    by_contra hn
    exact hP n ((h n hn).mpr rfl)

theorem ofNat_fmtChannels_ne_zero (h : fmtChannels fmt ≠ 0) : UInt32.ofNat (fmtChannels fmt) ≠ 0 := by
  have hlt : fmtChannels fmt < 2 ^ 32 :=
    (LittleEndian.u16_lt _ _).trans (Nat.pow_lt_pow_right (by decide) (by decide))
  intro heq
  have htoNat := congrArg UInt32.toNat heq
  rw [UInt32.toNat_ofNat_of_lt' hlt] at htoNat
  exact h htoNat

/-- With a format that is supported and some channels, a buffer of all frames is asked for. -/
theorem createFromData_eq {format : LgxAudFormat} (memory : BufferMemory) (hfmt : audFmt fmt = some format)
    (hchannels : fmtChannels fmt ≠ 0) :
    createFromData convert memory true fmt data =
      .returned (audBufferCreate convert memory (some data)
        (UInt32.ofNat (data.length / (fmtChannels fmt * (fmtBitsPerSample fmt / 8)))) format
        (UInt32.ofNat (fmtSampleRate fmt)) (UInt32.ofNat (fmtChannels fmt))) := by
  rw [createFromData, hfmt]
  dsimp only
  rw [if_neg hchannels, Nat.div_div_eq_div_mul, Nat.mul_comm]
  rfl

/-- With enough memory, all frames of the data are loaded. -/
theorem createFromData_loadsFrames_iff (hlength : data.length < 2 ^ 32)
    (hchannels : ¬ (foundFmt = true ∧ (audFmt fmt).isSome = true ∧ fmtChannels fmt = 0)) (n : ℕ) :
    (createFromData convert ⟨true, true⟩ foundFmt fmt data).LoadsFrames n ↔
      ∀ k, k ≠ 0 → ((foundFmt = true ∧ (audFmt fmt).isSome = true ∧
        data.length / (fmtChannels fmt * (fmtBitsPerSample fmt / 8)) = k) ↔ k = n) := by
  cases foundFmt with
  | false =>
      apply eq_zero_iff_forall_ne_zero
      intro k hframes
      exact Bool.false_ne_true hframes.1
  | true =>
      cases hfmt : audFmt fmt with
      | none =>
          rw [createFromData, hfmt]
          apply eq_zero_iff_forall_ne_zero
          intro k hframes
          exact Bool.false_ne_true hframes.2.1
      | some format =>
          have hsome : fmtChannels fmt ≠ 0 := by
            intro hzero
            exact hchannels ⟨rfl, by rw [hfmt]; rfl, hzero⟩
          have hframes : data.length / (fmtChannels fmt * (fmtBitsPerSample fmt / 8)) < 2 ^ 32 :=
            (Nat.div_le_self _ _).trans_lt hlength
          rw [createFromData_eq _ hfmt hsome, create_loadsFrames_iff hframes (ofNat_fmtChannels_ne_zero hsome)]
          simp only [true_and]
          exact eq_iff_forall_ne_zero _ n rfl

/-! ## The whole file -/

/-- A division by zero comes from a file that declares no channels, and such a file comes to it. -/
theorem exists_dividesByZero_iff (convert : LgxAudFormat → List UInt8 → Sample) (content : List UInt8) :
    (∃ memory fuel, audBufferCreateFromWav convert memory fuel (some content) = .dividesByZero) ↔
      DeclaresNoChannels content := by
  constructor
  · rintro ⟨memory, fuel, hzero⟩
    obtain hnone | ⟨hfuel, -⟩ | ⟨front, chunk, hunpadded, hload⟩ := load_cases convert memory fuel content
    · rw [hnone] at hzero
      exact absurd hzero (by simp)
    · rw [hfuel] at hzero
      exact absurd hzero (by simp)
    · rw [hload] at hzero
      exact ⟨front, chunk, hunpadded, (createFromData_eq_dividesByZero_iff memory.buffer).mp hzero⟩
  · rintro ⟨front, chunk, hunpadded, hzero⟩
    refine ⟨enoughMemory, content.length + 1, ?_⟩
    rw [load_of_unpadded hunpadded rfl (Nat.lt_succ_self _)]
    exact (createFromData_eq_dividesByZero_iff _).mpr hzero

/-- The frames that are loaded are those of the content read without pad bytes. -/
theorem loadsFrames_iff (convert : LgxAudFormat → List UInt8 → Sample) (hchannels : ¬ DeclaresNoChannels content)
    (hfuel : content.length < fuel) (n : ℕ) :
    (audBufferCreateFromWav convert enoughMemory fuel (some content)).LoadsFrames n ↔ UnpaddedFrames content n := by
  by_cases hfound : ∃ front chunk, Unpadded content front chunk
  · obtain ⟨front, chunk, hunpadded⟩ := hfound
    rw [load_of_unpadded hunpadded rfl hfuel]
    refine (createFromData_loadsFrames_iff chunk.size_lt ?_ n).trans ?_
    · exact fun hzero => hchannels ⟨front, chunk, hunpadded, hzero⟩
    · have hframes : ∀ k, HasFrames content k ↔ (hasFmt front = true ∧ (audFmt (fmtAfter fmtZero front)).isSome = true ∧
          chunk.body.length / (fmtChannels (fmtAfter fmtZero front) *
            (fmtBitsPerSample (fmtAfter fmtZero front) / 8)) = k) := by
        intro k
        constructor
        · rintro ⟨front', chunk', hunpadded', hall⟩
          obtain ⟨hfmt, hafter, hbody⟩ := hunpadded.unique hunpadded'
          rw [hfmt, hafter, hbody]
          exact hall
        · intro hall
          exact ⟨front, chunk, hunpadded, hall⟩
      unfold UnpaddedFrames
      simp only [hframes]
  · have hnone : audBufferCreateFromWav convert enoughMemory fuel (some content) = .returned none := by
      obtain hnone | ⟨-, hle⟩ | ⟨front, chunk, hunpadded, -⟩ := load_cases convert enoughMemory fuel content
      · exact hnone
      · exact absurd hfuel (Nat.not_lt.mpr hle)
      · exact absurd ⟨front, chunk, hunpadded⟩ hfound
    have hframes : ∀ k, ¬ HasFrames content k := by
      rintro k ⟨front, chunk, hunpadded, -⟩
      exact hfound ⟨front, chunk, hunpadded⟩
    rw [hnone]
    exact eq_zero_iff_forall_ne_zero hframes n

/-- The chunks in front of the data have even sizes. -/
def WavFile.EvenFront (file : WavFile) : Prop :=
  ∀ c ∈ file.front, c.body.length % 2 = 0

theorem fmtAfter_of_ids (fmt : List UInt8) (h : ∀ c ∈ front, c.id ≠ fmtId ∧ c.id ≠ dataId) :
    fmtAfter fmt front = fmt := by
  induction front generalizing fmt with
  | nil => rfl
  | cons c front ih =>
      obtain ⟨hfirst, hrest⟩ := List.forall_mem_cons.mp h
      change fmtAfter (c.overlay fmt) front = fmt
      rw [RiffChunk.overlay, if_neg hfirst.1]
      exact ih fmt hrest

/-- The bytes of its `fmt ` chunk are in `fmt` when the data of a file are found. -/
theorem WavFile.fmtAfter_front (file : WavFile) : fmtAfter fmtZero file.front = file.wavFmt := by
  have hsize : readSize file.fmt.body.length = fmtSize := by
    rw [readSize, if_neg (Nat.not_lt.mpr file.fmt_size)]
  have hbefore : fmtAfter fmtZero file.before = fmtZero := fmtAfter_of_ids fmtZero file.before_ids
  calc fmtAfter fmtZero file.front
      = fmtAfter (file.fmt.overlay (fmtAfter fmtZero file.before)) file.between := List.foldl_append
    _ = file.fmt.overlay fmtZero := by rw [fmtAfter_of_ids _ file.between_ids, hbefore]
    _ = file.wavFmt := by
        rw [RiffChunk.overlay, if_pos file.fmt_id, hsize]
        exact List.append_nil _

theorem WavFile.front_ids (file : WavFile) : ∀ c ∈ file.front, c.id ≠ dataId ∧ (c.id = fmtId → c.body ≠ []) := by
  have hplain : ∀ {c : RiffChunk}, c.id ≠ fmtId ∧ c.id ≠ dataId → c.id ≠ dataId ∧ (c.id = fmtId → c.body ≠ []) :=
    fun h => ⟨h.2, fun hfmt => absurd hfmt h.1⟩
  intro c hc
  obtain hc | hc := List.mem_append.mp hc
  · exact hplain (file.before_ids c hc)
  obtain rfl | hc := List.mem_cons.mp hc
  · refine ⟨?_, fun _ hnil => ?_⟩
    · rw [file.fmt_id]
      decide
    · have hsize := file.fmt_size
      rw [hnil] at hsize
      exact absurd hsize (by decide)
  · exact hplain (file.between_ids c hc)

/-- A file in which the chunks in front of the data have even sizes is read rightly without pad bytes. -/
theorem WavFile.unpadded (file : WavFile) (heven : file.EvenFront) :
    Unpadded file.bytes file.front file.data := by
  have hfront : file.front.flatMap RiffChunk.padded = file.front.flatMap RiffChunk.bytes := by
    apply List.flatMap_congr
    intro c hc
    rw [RiffChunk.padded, if_neg (by rw [heven c hc]; decide), List.append_nil]
  have hchunks : file.chunkBytes = file.front.flatMap RiffChunk.bytes ++ (file.data.bytes ++
      ((if file.data.body.length % 2 = 1 then [0] else []) ++ file.after.flatMap RiffChunk.padded)) := by
    rw [chunkBytes, List.flatMap_append, List.flatMap_cons, hfront, RiffChunk.padded, List.append_assoc]
  exact ⟨u32Bytes (4 + file.chunkBytes.length), file.chunkBytes, rfl, rfl,
    ⟨⟨_, hchunks⟩, file.front_ids, file.data_id, file.data_body⟩⟩

theorem WavFile.isSome_audFmt {file : WavFile} (hdeclared : file.Declared) :
    (audFmt file.wavFmt).isSome = true := by
  obtain ⟨⟨hformat, hbits⟩ | ⟨hformat, hbits⟩, -⟩ := hdeclared
  · rw [audFmt, hformat, hbits]
    rfl
  · rw [audFmt, hformat, hbits]
    rfl

theorem WavFile.unpaddedFrames (file : WavFile) (hdeclared : file.Declared) (heven : file.EvenFront) :
    UnpaddedFrames file.bytes file.frames := by
  have hunpadded := file.unpadded heven
  have hfmt : hasFmt file.front = true := by
    rw [hasFmt, List.any_eq_true]
    exact ⟨file.fmt, by simp [front], decide_eq_true file.fmt_id⟩
  intro k _
  constructor
  · rintro ⟨front, chunk, hother, -, -, rfl⟩
    obtain ⟨-, hafter, hbody⟩ := hother.unique hunpadded
    rw [hafter, hbody, file.fmtAfter_front]
    rfl
  · rintro rfl
    refine ⟨file.front, file.data, hunpadded, hfmt, ?_, ?_⟩
    · rw [file.fmtAfter_front]
      exact isSome_audFmt hdeclared
    · rw [file.fmtAfter_front]
      rfl

/-- A file is loaded as it should be if and only if, read without pad bytes, it does not declare that there are
no channels, and has as many frames as it should have if it is well formed.  The latter is so if the chunks in
front of the data have even sizes. -/
theorem loadsWav_iff (convert : LgxAudFormat → List UInt8 → Sample) (content : List UInt8) :
    (LoadsWav convert content ↔
      ¬ DeclaresNoChannels content ∧
        ∀ file : WavFile, file.bytes = content → file.Declared → UnpaddedFrames content file.frames) ∧
      ∀ file : WavFile, file.bytes = content → file.Declared → file.EvenFront →
        UnpaddedFrames content file.frames := by
  refine ⟨⟨?_, ?_⟩, ?_⟩
  · rintro ⟨-, hdivision, hloads⟩
    have hchannels : ¬ DeclaresNoChannels content := by
      intro hdeclares
      obtain ⟨memory, fuel, hzero⟩ := (exists_dividesByZero_iff convert content).mpr hdeclares
      exact hdivision memory fuel hzero
    refine ⟨hchannels, fun file hbytes hdeclared => ?_⟩
    have hfuel := Nat.lt_succ_self content.length
    exact (loadsFrames_iff convert hchannels hfuel file.frames).mp (hloads file hbytes hdeclared _ hfuel)
  · rintro ⟨hchannels, hframes⟩
    refine ⟨?_, ?_, ?_⟩
    · intro memory fuel hfuel houtOfFuel
      obtain hnone | ⟨-, hle⟩ | ⟨front, chunk, -, hload⟩ := load_cases convert memory fuel content
      · rw [hnone] at houtOfFuel
        exact absurd houtOfFuel (by simp)
      · exact absurd hfuel (Nat.not_lt.mpr hle)
      · rw [hload] at houtOfFuel
        exact createFromData_ne_outOfFuel memory.buffer houtOfFuel
    · intro memory fuel hzero
      exact hchannels ((exists_dividesByZero_iff convert content).mp ⟨memory, fuel, hzero⟩)
    · intro file hbytes hdeclared fuel hfuel
      exact (loadsFrames_iff convert hchannels hfuel file.frames).mpr (hframes file hbytes hdeclared)
  · rintro file rfl hdeclared heven
    exact file.unpaddedFrames hdeclared heven

/-- A file with a format of no channels and one sample. -/
def noChannels : List UInt8 :=
  riffId ++ [38, 0, 0, 0] ++ waveId ++
    fmtId ++ [16, 0, 0, 0] ++ [1, 0, 0, 0, 0x80, 0xBB, 0, 0, 0, 0, 0, 0, 0, 0, 16, 0] ++
    dataId ++ [2, 0, 0, 0] ++ [0, 0]

/-- A well-formed file with a chunk of one byte in front of a mono sample. -/
def oddChunk : List UInt8 :=
  riffId ++ [48, 0, 0, 0] ++ waveId ++
    [0x4C, 0x49, 0x53, 0x54] ++ [1, 0, 0, 0] ++ [0, 0] ++
    fmtId ++ [16, 0, 0, 0] ++ [1, 0, 1, 0, 0x80, 0xBB, 0, 0, 0, 0x77, 1, 0, 2, 0, 16, 0] ++
    dataId ++ [2, 0, 0, 0] ++ [0, 0]

example : audBufferCreateFromWav (fun _ _ => (0 : ℤ)) enoughMemory 64 (some (oddChunk.take 12 ++ oddChunk.drop 22)) =
    .returned (some ⟨[0], 1, 1, 48000⟩) := by
  decide

/-- A division by zero, and a sample that is not found. -/
theorem not_loadsWav_noChannels :
    ¬ LoadsWav (fun _ _ => (0 : ℤ)) noChannels ∧ ¬ LoadsWav (fun _ _ => (0 : ℤ)) oddChunk := by
  constructor
  · rintro ⟨-, hdivision, -⟩
    exact hdivision enoughMemory 64 (by decide)
  · rintro ⟨-, -, hloads⟩
    have hnone : audBufferCreateFromWav (fun _ _ => (0 : ℤ)) enoughMemory 64 (some oddChunk) = .returned none := by
      decide
    have hframes := hloads
      { before := [⟨[0x4C, 0x49, 0x53, 0x54], [0], rfl, by decide⟩]
        fmt := ⟨fmtId, [1, 0, 1, 0, 0x80, 0xBB, 0, 0, 0, 0x77, 1, 0, 2, 0, 16, 0], rfl, by decide⟩
        between := []
        data := ⟨dataId, [0, 0], rfl, by decide⟩
        after := []
        before_ids := by simp [fmtId, dataId]
        fmt_id := rfl
        fmt_size := by decide
        between_ids := by simp
        data_id := rfl
        data_body := by simp
        size_lt := by decide } (by decide) (by unfold WavFile.Declared; decide) 64 (by decide)
    rw [hnone] at hframes
    exact absurd (show 1 = 0 from hframes) (by decide)

end LgxRuntime.Audio
