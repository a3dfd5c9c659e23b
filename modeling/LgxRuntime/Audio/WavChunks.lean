import LgxRuntime.Audio.Wav

/-!
# The chunks of a WAV file

The walk over the chunks of a file finds its data exactly if the file consists of chunks without pad bytes, up to
the data.  It ends within as many rounds as the file has bytes.
-/

namespace LgxRuntime.Audio

open LittleEndian (u16 u32 u32Bytes)

/-! ## Chunks -/

/-- A chunk of a RIFF file. -/
structure RiffChunk where
  id : List UInt8
  body : List UInt8
  length_id : id.length = 4
  size_lt : body.length < 2 ^ 32

/-- The chunk without a pad byte. -/
def RiffChunk.bytes (c : RiffChunk) : List UInt8 :=
  c.id ++ (u32Bytes c.body.length ++ c.body)

/-- What is in `fmt` after the chunk: the first bytes are replaced. -/
def RiffChunk.overlay (c : RiffChunk) (fmt : List UInt8) : List UInt8 :=
  if c.id = fmtId then c.body.take (readSize c.body.length) ++ fmt.drop (readSize c.body.length) else fmt

/-- What is in `fmt` after some chunks. -/
def fmtAfter (fmt : List UInt8) (front : List RiffChunk) : List UInt8 :=
  front.foldl (fun fmt c => c.overlay fmt) fmt

/-- There is a `fmt ` chunk. -/
def hasFmt (front : List RiffChunk) : Bool :=
  front.any fun c => c.id = fmtId

/-- The bytes are, without pad bytes, some chunks and a data chunk behind them, and anything behind that.  The
chunks in front are no data chunks, and the `fmt ` chunks have a body, as the data chunk has. -/
structure Reads (rest : List UInt8) (front : List RiffChunk) (data : RiffChunk) : Prop where
  bytes : ∃ tail, rest = front.flatMap RiffChunk.bytes ++ (data.bytes ++ tail)
  front_ids : ∀ c ∈ front, c.id ≠ dataId ∧ (c.id = fmtId → c.body ≠ [])
  data_id : data.id = dataId
  data_body : data.body ≠ []

/-! ## Reading -/

variable {rest rest' id bytes fmt fmt' data : List UInt8} {size n : ℕ} {malloc foundFmt foundFmt' : Bool}
  {front : List RiffChunk} {c : RiffChunk}

theorem fread_eq_some_iff : fread size rest = some (bytes, rest') ↔
    size ≠ 0 ∧ bytes.length = size ∧ rest = bytes ++ rest' := by
  unfold fread
  split_ifs with hfails
  · constructor
    · intro h
      exact absurd h (by simp)
    · rintro ⟨hsize, hlength, rfl⟩
      rw [Bool.or_eq_true, decide_eq_true_eq, decide_eq_true_eq, List.length_append] at hfails
      omega
  · rw [Bool.or_eq_true, decide_eq_true_eq, decide_eq_true_eq, not_or, Nat.not_lt] at hfails
    constructor
    · intro h
      obtain ⟨rfl, rfl⟩ := Prod.mk.inj (Option.some.inj h)
      exact ⟨hfails.1, List.length_take_of_le hfails.2, (List.take_append_drop size rest).symm⟩
    · rintro ⟨-, rfl, rfl⟩
      rw [List.take_left, List.drop_left]

theorem readChunk_append (hid : id.length = 4) (hsize : size < 2 ^ 32) :
    readChunk (id ++ (u32Bytes size ++ rest)) = some (id, size, rest) := by
  obtain ⟨i0, i1, i2, i3, rfl⟩ := List.length_eq_four.mp hid
  change some (_, u32 _ _ _ _, rest) = _
  rw [LittleEndian.u32_bytes hsize]

theorem eq_of_readChunk (h : readChunk rest = some (id, size, rest')) :
    id.length = 4 ∧ size < 2 ^ 32 ∧ rest = id ++ (u32Bytes size ++ rest') := by
  unfold readChunk at h
  split at h
  · obtain ⟨rfl, hrest⟩ := Prod.mk.inj (Option.some.inj h)
    obtain ⟨rfl, rfl⟩ := Prod.mk.inj hrest
    refine ⟨rfl, LittleEndian.u32_lt .., ?_⟩
    rw [LittleEndian.u32Bytes_u32]
    rfl
  · exact absurd h (by simp)

theorem length_of_readChunk (h : readChunk rest = some (id, size, rest')) : rest.length = rest'.length + 8 := by
  obtain ⟨hid, -, rfl⟩ := eq_of_readChunk h
  rw [List.length_append, List.length_append, hid, u32Bytes]
  simp only [List.length_cons, List.length_nil]
  omega

/-- The loop ends within as many rounds as there are bytes. -/
theorem walk_ne_outOfFuel (malloc foundFmt : Bool) (fmt : List UInt8) (hn : rest.length < n) :
    walk malloc n foundFmt fmt rest ≠ .outOfFuel := by
  induction n generalizing foundFmt fmt rest with
  | zero => exact absurd hn (Nat.not_lt_zero _)
  | succ n ih =>
      rw [walk]
      cases hchunk : readChunk rest with
      | none => simp
      | some read =>
          obtain ⟨id, size, rest'⟩ := read
          have hlength := length_of_readChunk hchunk
          dsimp only
          split_ifs with hfmt hdata
          · cases hread : fread (readSize size) rest' with
            | none => simp
            | some read =>
                obtain ⟨bytes, rest''⟩ := read
                obtain ⟨-, -, rfl⟩ := fread_eq_some_iff.mp hread
                rw [List.length_append] at hlength
                apply ih
                rw [List.length_drop]
                omega
          · simp
          · cases fread size rest' <;> simp
          · apply ih
            rw [List.length_drop]
            omega

/-! ## The walk over chunks -/

theorem readSize_le (size : ℕ) : readSize size ≤ size := by
  unfold readSize
  split_ifs with h
  · exact le_refl size
  · exact Nat.le_of_not_lt h

theorem readSize_ne_zero (h : size ≠ 0) : readSize size ≠ 0 := by
  unfold readSize
  split_ifs
  · exact h
  · exact Nat.succ_ne_zero _

/-- A chunk that is no data chunk is walked over. -/
theorem walk_chunk (malloc : Bool) (n : ℕ) (foundFmt : Bool) (fmt rest : List UInt8) (hdata : c.id ≠ dataId)
    (hfmt : c.id = fmtId → c.body ≠ []) :
    walk malloc (n + 1) foundFmt fmt (c.bytes ++ rest) =
      walk malloc n (foundFmt || decide (c.id = fmtId)) (c.overlay fmt) rest := by
  have hbytes : c.bytes ++ rest = c.id ++ (u32Bytes c.body.length ++ (c.body ++ rest)) := by
    rw [RiffChunk.bytes, List.append_assoc, List.append_assoc]
  rw [walk, hbytes, readChunk_append c.length_id c.size_lt]
  dsimp only
  unfold RiffChunk.overlay
  split_ifs with hid
  · have hsize : c.body.length ≠ 0 := fun hzero => hfmt hid (List.length_eq_zero_iff.mp hzero)
    have hle := readSize_le c.body.length
    have hread : fread (readSize c.body.length) (c.body ++ rest) =
        some (c.body.take (readSize c.body.length), c.body.drop (readSize c.body.length) ++ rest) := by
      apply fread_eq_some_iff.mpr
      refine ⟨readSize_ne_zero hsize, List.length_take_of_le hle, ?_⟩
      rw [← List.append_assoc, List.take_append_drop]
    have hskip : (c.body.drop (readSize c.body.length) ++ rest).drop (c.body.length - readSize c.body.length) =
        rest := List.drop_left' List.length_drop
    rw [hread]
    dsimp only
    rw [hskip, decide_eq_true hid, Bool.or_true]
  · rw [List.drop_left, decide_eq_false hid, Bool.or_false]

/-- A data chunk ends the walk. -/
theorem walk_data (malloc : Bool) (n : ℕ) (foundFmt : Bool) (fmt rest : List UInt8) (hdata : c.id = dataId)
    (hbody : c.body ≠ []) :
    walk malloc (n + 1) foundFmt fmt (c.bytes ++ rest) =
      if malloc then .data foundFmt fmt c.body else .noData := by
  have hbytes : c.bytes ++ rest = c.id ++ (u32Bytes c.body.length ++ (c.body ++ rest)) := by
    rw [RiffChunk.bytes, List.append_assoc, List.append_assoc]
  have hfmt : c.id ≠ fmtId := by
    rw [hdata]
    decide
  have hread : fread c.body.length (c.body ++ rest) = some (c.body, rest) :=
    fread_eq_some_iff.mpr ⟨fun hzero => hbody (List.length_eq_zero_iff.mp hzero), rfl, rfl⟩
  rw [walk, hbytes, readChunk_append c.length_id c.size_lt]
  dsimp only
  rw [if_neg hfmt, if_pos hdata, hread]
  cases malloc <;> rfl

theorem length_bytes (c : RiffChunk) : 8 ≤ c.bytes.length := by
  rw [RiffChunk.bytes, List.length_append, List.length_append, c.length_id, u32Bytes]
  simp only [List.length_cons, List.length_nil]
  omega

/-- The walk finds the data that are there. -/
theorem Reads.walk_eq {chunk : RiffChunk} (h : Reads rest front chunk) (foundFmt : Bool) (fmt : List UInt8)
    (hn : rest.length < n) :
    walk true n foundFmt fmt rest = .data (foundFmt || hasFmt front) (fmtAfter fmt front) chunk.body := by
  obtain ⟨⟨tail, rfl⟩, hids, hid, hbody⟩ := h
  induction front generalizing foundFmt fmt n with
  | nil =>
      obtain ⟨n, rfl⟩ := Nat.exists_eq_succ_of_ne_zero (Nat.ne_zero_of_lt hn)
      rw [List.flatMap_nil, List.nil_append, walk_data true n foundFmt fmt tail hid hbody, hasFmt,
        List.any_nil, Bool.or_false]
      rfl
  | cons c front ih =>
      obtain ⟨n, rfl⟩ := Nat.exists_eq_succ_of_ne_zero (Nat.ne_zero_of_lt hn)
      obtain ⟨hfirst, hrest⟩ := List.forall_mem_cons.mp hids
      have hlength := length_bytes c
      rw [List.flatMap_cons, List.append_assoc] at hn ⊢
      rw [List.length_append] at hn
      rw [walk_chunk true n foundFmt fmt _ hfirst.1 hfirst.2, ih _ _ hrest (by omega), hasFmt, hasFmt,
        List.any_cons, Bool.or_assoc]
      rfl

theorem Reads.cons {chunk : RiffChunk} (h : Reads rest front chunk) (hdata : c.id ≠ dataId)
    (hfmt : c.id = fmtId → c.body ≠ []) : Reads (c.bytes ++ rest) (c :: front) chunk := by
  obtain ⟨⟨tail, rfl⟩, hids, hid, hbody⟩ := h
  refine ⟨⟨tail, ?_⟩, List.forall_mem_cons.mpr ⟨⟨hdata, hfmt⟩, hids⟩, hid, hbody⟩
  rw [List.flatMap_cons, List.append_assoc]

/-- Where nothing is left, no data are found: what has been skipped is all there. -/
theorem lt_length_of_walk (h : walk malloc n foundFmt fmt (rest.drop size) = .data foundFmt' fmt' data) :
    size < rest.length := by
  by_contra hle
  rw [List.drop_eq_nil_of_le (Nat.not_lt.mp hle)] at h
  cases n with
  | zero => exact absurd h (by simp [walk])
  | succ n => exact absurd h (by simp [walk, readChunk])

/-- The bytes that are read as a chunk, if all of its body is there. -/
theorem exists_chunk (hid : id.length = 4) (hsize : size < 2 ^ 32) (hle : size ≤ rest.length) :
    ∃ c : RiffChunk, c.id = id ∧ c.body = rest.take size ∧ c.body.length = size ∧
      id ++ (u32Bytes size ++ rest) = c.bytes ++ rest.drop size := by
  have hlength : (rest.take size).length = size := List.length_take_of_le hle
  refine ⟨⟨id, rest.take size, hid, hlength.trans_lt hsize⟩, rfl, rfl, hlength, ?_⟩
  change _ = (id ++ (u32Bytes (rest.take size).length ++ rest.take size)) ++ rest.drop size
  rw [hlength, List.append_assoc, List.append_assoc, List.take_append_drop]

/-- A chunk that the walk comes past is all there, and has a body if it is read. -/
theorem body_of_walk
    (h : walk malloc (n + 1) foundFmt fmt (id ++ (u32Bytes size ++ rest)) = .data foundFmt' fmt' data)
    (hid : id.length = 4) (hsize : size < 2 ^ 32) :
    size ≤ rest.length ∧ (id = fmtId ∨ id = dataId → size ≠ 0) := by
  rw [walk, readChunk_append hid hsize] at h
  dsimp only at h
  split_ifs at h with hfmt hdata hmalloc
  · cases hread : fread (readSize size) rest with
    | none =>
        rw [hread] at h
        exact absurd h (by simp)
    | some read =>
        obtain ⟨bytes, rest'⟩ := read
        rw [hread] at h
        obtain ⟨hne, hlength, rfl⟩ := fread_eq_some_iff.mp hread
        have hlt := lt_length_of_walk h
        have hle := readSize_le size
        rw [List.length_append]
        exact ⟨by omega, fun _ => by omega⟩
  · cases hread : fread size rest with
    | none =>
        rw [hread] at h
        exact absurd h (by simp)
    | some read =>
        obtain ⟨bytes, rest'⟩ := read
        obtain ⟨hne, hlength, rfl⟩ := fread_eq_some_iff.mp hread
        rw [List.length_append]
        exact ⟨by omega, fun _ => hne⟩
  · exact ⟨(lt_length_of_walk h).le, fun hor => absurd hor (not_or.mpr ⟨hfmt, hdata⟩)⟩

/-- What the walk finds is there.  By induction on the rounds. -/
theorem reads_of_walk (h : walk malloc n foundFmt fmt rest = .data foundFmt' fmt' data) :
    ∃ front chunk, Reads rest front chunk ∧ data = chunk.body ∧ foundFmt' = (foundFmt || hasFmt front) ∧
      fmt' = fmtAfter fmt front := by
  induction n generalizing foundFmt fmt rest with
  | zero => exact absurd h (by simp [walk])
  | succ n ih =>
      cases hchunk : readChunk rest with
      | none =>
          rw [walk, hchunk] at h
          exact absurd h (by simp)
      | some read =>
          obtain ⟨id, size, rest'⟩ := read
          obtain ⟨hid, hsize, rfl⟩ := eq_of_readChunk hchunk
          obtain ⟨hle, hne⟩ := body_of_walk h hid hsize
          obtain ⟨c, rfl, hbody, hlength, hbytes⟩ := exists_chunk hid hsize hle
          have hsome : c.id = fmtId ∨ c.id = dataId → c.body ≠ [] := by
            intro hor hnil
            rw [hnil] at hlength
            exact hne hor hlength.symm
          rw [hbytes] at h ⊢
          by_cases hdata : c.id = dataId
          · refine ⟨[], c, ⟨⟨_, rfl⟩, by simp, hdata, hsome (Or.inr hdata)⟩, ?_⟩
            rw [walk_data malloc n foundFmt fmt _ hdata (hsome (Or.inr hdata))] at h
            split_ifs at h
            obtain ⟨rfl, rfl, rfl⟩ := Walk.data.inj h
            exact ⟨rfl, (Bool.or_false _).symm, rfl⟩
          · rw [walk_chunk malloc n foundFmt fmt _ hdata fun hfmt => hsome (Or.inl hfmt)] at h
            obtain ⟨front, chunk, hreads, rfl, rfl, rfl⟩ := ih h
            refine ⟨c :: front, chunk, hreads.cons hdata fun hfmt => hsome (Or.inl hfmt), rfl, ?_, rfl⟩
            rw [hasFmt, hasFmt, List.any_cons, Bool.or_assoc]

end LgxRuntime.Audio
