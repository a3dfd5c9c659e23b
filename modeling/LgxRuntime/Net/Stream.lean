import LgxRuntime.Machine
import LgxRuntime.Lib.LittleEndian
import Mathlib.Data.List.GetD
import Mathlib.Logic.Function.Basic

/-!
# Serialization streams

A stream is a position in a client's buffer.  Values are written byte by byte, least significant byte
first; a string is its length, cut to what the writer admits, followed by that many bytes.  The reader
cuts a string once more, to the size of its own buffer, but moves on by the written length.

A buffer ends below the top of the address space, so that positions do not wrap.  A `float` is its bit
pattern: `memcpy` moves it to a `uint32_t` and back.  NULL strings and NULL buffers are left out.
-/

namespace LgxRuntime.Net

open Function (update update_self update_of_ne)
open LittleEndian (lowByte highByte u16 u16_bytes byteAt u32 u32_bytes)

/-! ## Streams -/

/-- `struct lgx_net_stream`. -/
structure Stream where
  buf : ℕ → UInt8
  capacity : ℕ
  pos : ℕ
  isRead : Bool
  overflow : Bool

/-- `LGX_SUCCESS` and `LGX_ERROR_INVALID_PARAM`. -/
inductive Result
  | success
  | invalidParam
  deriving DecidableEq, Repr

/-- `lgx_net_stream_create`; `none` is the NULL stream. -/
def lgxNetStreamCreate (buf : ℕ → UInt8) (size : ℕ) : Option Stream :=
  if size = 0 then none
  else some { buf := buf, capacity := size, pos := 0, isRead := false, overflow := false }

/-- `lgx_net_stream_create_read`. -/
def lgxNetStreamCreateRead (data : ℕ → UInt8) (size : ℕ) : Option Stream :=
  if size = 0 then none
  else some { buf := data, capacity := size, pos := 0, isRead := true, overflow := false }

/-- `lgx_net_stream_bytes_written`. -/
def lgxNetStreamBytesWritten : Option Stream → ℕ
  | none => 0
  | some s => s.pos

/-! ## Writing -/

/-- Store bytes at consecutive addresses: `buf[pos++] = b` for each of them, and `memcpy`. -/
def store (buf : ℕ → UInt8) (pos : ℕ) : List UInt8 → ℕ → UInt8
  | [] => buf
  | b :: bytes => store (update buf pos b) (pos + 1) bytes

/-- Store bytes at the position and move it behind them. -/
def Stream.put (s : Stream) (bytes : List UInt8) : Stream :=
  { s with buf := store s.buf s.pos bytes, pos := s.pos + bytes.length }

/-- The fixed-size writers: what a `write` of the given bytes does. -/
def writeBytes (s : Option Stream) (bytes : List UInt8) : Result × Option Stream :=
  match s with
  | none => (.invalidParam, none)
  | some s =>
      if s.isRead then (.invalidParam, some s)
      else if s.pos + bytes.length > s.capacity then
        (.invalidParam, some { s with overflow := true })
      else (.success, some (s.put bytes))

/-- `lgx_net_stream_write_u8`. -/
def lgxNetStreamWriteU8 (s : Option Stream) (val : UInt8) : Result × Option Stream :=
  writeBytes s [val]

/-- `lgx_net_stream_write_u16`. -/
def lgxNetStreamWriteU16 (s : Option Stream) (val : UInt16) : Result × Option Stream :=
  writeBytes s [lowByte val.toNat, highByte val.toNat]

/-- `lgx_net_stream_write_u32`. -/
def lgxNetStreamWriteU32 (s : Option Stream) (val : UInt32) : Result × Option Stream :=
  writeBytes s [byteAt val.toNat 0, byteAt val.toNat 1, byteAt val.toNat 2, byteAt val.toNat 3]

/-- `lgx_net_stream_write_f32`, of the float with the bit pattern `raw`. -/
def lgxNetStreamWriteF32 (s : Option Stream) (raw : UInt32) : Result × Option Stream :=
  lgxNetStreamWriteU32 s raw

/-- The loop of `lgx_net_stream_write_string` that counts the bytes to write.  A C string is the list
of its bytes; its terminator follows them. -/
def stringLen (str : List UInt8) (maxLen len : ℕ) : ℕ :=
  if len + 1 < maxLen ∧ str.getD len 0 ≠ 0 then stringLen str maxLen (len + 1) else len
termination_by maxLen - len

/-- `lgx_net_stream_write_string`. -/
def lgxNetStreamWriteString (s : Option Stream) (str : List UInt8) (maxLen : UInt16) :
    Result × Option Stream :=
  match s with
  | none => (.invalidParam, none)
  | some s =>
      let len := stringLen str maxLen.toNat 0
      match lgxNetStreamWriteU16 (some s) (UInt16.ofNat len) with
      | (.success, some s₁) =>
          if s₁.pos + len > s₁.capacity then (.invalidParam, some { s₁ with overflow := true })
          else (.success, some (s₁.put (str.take len)))
      | failed => failed

/-! ## Reading -/

/-- Move the position of a stream. -/
def Stream.skip (s : Stream) (n : ℕ) : Stream :=
  { s with pos := s.pos + n }

/-- The guard of the fixed-size readers: they return 0 where the stream does not have `n` more bytes
to read. -/
def Stream.lacks (s : Stream) (n : ℕ) : Bool :=
  s.isRead = false ∨ s.pos + n > s.capacity

/-- `lgx_net_stream_read_u8`. -/
def lgxNetStreamReadU8 : Option Stream → UInt8 × Option Stream
  | none => (0, none)
  | some s => if s.lacks 1 then (0, some s) else (s.buf s.pos, some (s.skip 1))

/-- `lgx_net_stream_read_u16`. -/
def lgxNetStreamReadU16 : Option Stream → UInt16 × Option Stream
  | none => (0, none)
  | some s =>
      if s.lacks 2 then (0, some s)
      else (UInt16.ofNat (u16 (s.buf s.pos) (s.buf (s.pos + 1))), some (s.skip 2))

/-- `lgx_net_stream_read_u32`. -/
def lgxNetStreamReadU32 : Option Stream → UInt32 × Option Stream
  | none => (0, none)
  | some s =>
      if s.lacks 4 then (0, some s)
      else
        (UInt32.ofNat (u32 (s.buf s.pos) (s.buf (s.pos + 1)) (s.buf (s.pos + 2)) (s.buf (s.pos + 3))),
          some (s.skip 4))

/-- `lgx_net_stream_read_f32`: the bit pattern of the float. -/
def lgxNetStreamReadF32 (s : Option Stream) : UInt32 × Option Stream :=
  lgxNetStreamReadU32 s

/-- The `n` bytes of a stream from its position on. -/
def Stream.peek (s : Stream) (n : ℕ) : List UInt8 :=
  (List.range n).map fun i => s.buf (s.pos + i)

/-- `lgx_net_stream_read_string`: the bytes that are copied to the client's buffer before the
terminator, and whose number is returned; `none` if 0 is returned and the buffer is not touched. -/
def lgxNetStreamReadString (s : Option Stream) (maxLen : UInt16) :
    Option (List UInt8) × Option Stream :=
  match s with
  | none => (none, none)
  | some s =>
      if maxLen = 0 then (none, some s)
      else
        match lgxNetStreamReadU16 (some s) with
        | (_, none) => (none, none)
        | (len, some s₁) =>
            if len = 0 then (some [], some s₁)
            else if s₁.pos + len.toNat > s₁.capacity then (some [], some s₁)
            else
              let copy := if len.toNat < maxLen.toNat - 1 then len.toNat else maxLen.toNat - 1
              (some (s₁.peek copy), some (s₁.skip len.toNat))

/-! ## Sequences of calls -/

/-- A typed write with the read that goes with it.  The reader of a string has its own `max_len`. -/
inductive Call
  | u8 (val : UInt8)
  | u16 (val : UInt16)
  | u32 (val : UInt32)
  | f32 (raw : UInt32)
  | string (str : List UInt8) (maxLen readMaxLen : UInt16)

/-- What a read returns. -/
inductive Value
  | u8 (val : UInt8)
  | u16 (val : UInt16)
  | u32 (val : UInt32)
  | f32 (raw : UInt32)
  | string (copied : Option (List UInt8))
  deriving DecidableEq

namespace Call

/-- The write. -/
def write (s : Option Stream) : Call → Result × Option Stream
  | u8 val => lgxNetStreamWriteU8 s val
  | u16 val => lgxNetStreamWriteU16 s val
  | u32 val => lgxNetStreamWriteU32 s val
  | f32 raw => lgxNetStreamWriteF32 s raw
  | string str maxLen _ => lgxNetStreamWriteString s str maxLen

/-- The read. -/
def read (s : Option Stream) : Call → Value × Option Stream
  | u8 _ => let result := lgxNetStreamReadU8 s; (.u8 result.1, result.2)
  | u16 _ => let result := lgxNetStreamReadU16 s; (.u16 result.1, result.2)
  | u32 _ => let result := lgxNetStreamReadU32 s; (.u32 result.1, result.2)
  | f32 _ => let result := lgxNetStreamReadF32 s; (.f32 result.1, result.2)
  | string _ _ readMaxLen =>
      let result := lgxNetStreamReadString s readMaxLen
      (.string result.1, result.2)

end Call

/-- Write one value after the other. -/
def writeAll (s : Option Stream) : List Call → List Result × Option Stream
  | [] => ([], s)
  | call :: calls =>
      let rest := writeAll (call.write s).2 calls
      ((call.write s).1 :: rest.1, rest.2)

/-- Read one value after the other. -/
def readAll (s : Option Stream) : List Call → List Value × Option Stream
  | [] => ([], s)
  | call :: calls =>
      let rest := readAll (call.read s).2 calls
      ((call.read s).1 :: rest.1, rest.2)

/-- The memory behind a write stream that was created on `buf`. -/
def contents (buf : ℕ → UInt8) : Option Stream → ℕ → UInt8
  | none => buf
  | some s => s.buf

/-! ## What a write leaves behind -/

/-- `strlen`. -/
def strlen (str : List UInt8) : ℕ :=
  (str.takeWhile fun b => b ≠ 0).length

theorem lt_strlen_iff {str : List UInt8} {n : ℕ} (hn : n ≤ strlen str) :
    n < strlen str ↔ str.getD n 0 ≠ 0 := by
  induction str generalizing n with
  | nil => simp [strlen]
  | cons b str ih =>
      by_cases hb : b = 0
      · simp only [strlen, hb, List.takeWhile_cons, ne_eq, not_true, decide_false, Bool.false_eq_true,
          if_false, List.length_nil, Nat.le_zero] at hn ⊢
        simp [hn]
      · have hcons : strlen (b :: str) = strlen str + 1 := by simp [strlen, hb]
        rw [hcons] at hn ⊢
        cases n with
        | zero => simp [hb]
        | succ n => simpa using ih (Nat.le_of_succ_le_succ hn)

theorem strlen_le_length (str : List UInt8) : strlen str ≤ str.length :=
  (List.takeWhile_sublist _).length_le

/-- The loop stops at the terminator or at the limit of the writer, whichever comes first. -/
theorem stringLen_eq_min {str : List UInt8} {maxLen len : ℕ} (hstr : len ≤ strlen str)
    (hmax : len ≤ maxLen - 1) : stringLen str maxLen len = min (strlen str) (maxLen - 1) := by
  fun_induction stringLen str maxLen len with
  | case1 len hcond ih =>
      have hlt := (lt_strlen_iff hstr).mpr hcond.2
      exact ih hlt (by omega)
  | case2 len hcond =>
      rw [not_and_or, ← lt_strlen_iff hstr] at hcond
      omega

theorem store_append (buf : ℕ → UInt8) (pos : ℕ) (xs ys : List UInt8) :
    store buf pos (xs ++ ys) = store (store buf pos xs) (pos + xs.length) ys := by
  induction xs generalizing buf pos with
  | nil => rfl
  | cons b xs ih =>
      simp only [List.cons_append, store, ih, List.length_cons]
      congr 1
      omega

theorem store_of_lt {buf : ℕ → UInt8} {pos i : ℕ} (bytes : List UInt8) (hi : i < pos) :
    store buf pos bytes i = buf i := by
  induction bytes generalizing buf pos with
  | nil => rfl
  | cons b bytes ih => rw [store, ih (Nat.lt_succ_of_lt hi), update_of_ne (Nat.ne_of_lt hi)]

theorem Stream.put_append (s : Stream) (xs ys : List UInt8) :
    s.put (xs ++ ys) = (s.put xs).put ys := by
  simp only [Stream.put, store_append, List.length_append, Nat.add_assoc]

namespace Call

/-- The bytes that stand for a value on the wire. -/
def bytes : Call → List UInt8
  | u8 val => [val]
  | u16 val => [lowByte val.toNat, highByte val.toNat]
  | u32 val => [byteAt val.toNat 0, byteAt val.toNat 1, byteAt val.toNat 2, byteAt val.toNat 3]
  | f32 raw => [byteAt raw.toNat 0, byteAt raw.toNat 1, byteAt raw.toNat 2, byteAt raw.toNat 3]
  | string str maxLen _ =>
      let len := min (strlen str) (maxLen.toNat - 1)
      [lowByte len, highByte len] ++ str.take len

/-- What the read of a value returns: the value, or the string, cut by the writer and then by the
reader. -/
def value : Call → Value
  | u8 val => .u8 val
  | u16 val => .u16 val
  | u32 val => .u32 val
  | f32 raw => .f32 raw
  | string str maxLen readMaxLen =>
      .string (some ((str.take (min (strlen str) (maxLen.toNat - 1))).take (readMaxLen.toNat - 1)))

end Call

theorem writeBytes_success {s : Stream} {bytes : List UInt8}
    (hsuccess : (writeBytes (some s) bytes).1 = .success) :
    (writeBytes (some s) bytes).2 = some (s.put bytes) ∧ s.pos + bytes.length ≤ s.capacity := by
  unfold writeBytes at hsuccess ⊢
  simp only at hsuccess ⊢
  split at hsuccess
  · cases hsuccess
  split at hsuccess
  · cases hsuccess
  · rename_i hread hfit
    rw [if_neg hread, if_neg hfit]
    exact ⟨rfl, not_lt.mp hfit⟩

theorem stringLen_lt (str : List UInt8) (maxLen : UInt16) :
    min (strlen str) (maxLen.toNat - 1) < 2 ^ 16 := by
  have := maxLen.toNat_lt
  omega

/-- A write that succeeds appends the bytes of the value. -/
theorem Call.write_success {s : Stream} {call : Call} (hsuccess : (call.write (some s)).1 = .success) :
    (call.write (some s)).2 = some (s.put call.bytes) ∧
      s.pos + call.bytes.length ≤ s.capacity := by
  cases call with
  | u8 val => exact writeBytes_success hsuccess
  | u16 val => exact writeBytes_success hsuccess
  | u32 val => exact writeBytes_success hsuccess
  | f32 raw => exact writeBytes_success hsuccess
  | string str maxLen readMaxLen =>
      have hlen := @stringLen_eq_min str maxLen.toNat 0 (Nat.zero_le _) (Nat.zero_le _)
      have hlt := stringLen_lt str maxLen
      simp only [Call.write, lgxNetStreamWriteString, lgxNetStreamWriteU16, hlen,
        UInt16.toNat_ofNat_of_lt' hlt] at hsuccess ⊢
      have hlenBytes := @writeBytes_success s
        [lowByte (min (strlen str) (maxLen.toNat - 1)), highByte (min (strlen str) (maxLen.toNat - 1))]
      generalize writeBytes (some s) [lowByte (min (strlen str) (maxLen.toNat - 1)),
        highByte (min (strlen str) (maxLen.toNat - 1))] = outcome at hsuccess hlenBytes ⊢
      obtain ⟨result, s₁⟩ := outcome
      cases result with
      | invalidParam => cases hsuccess
      | success =>
          obtain ⟨rfl, hroom⟩ := hlenBytes rfl
          simp only at hsuccess ⊢
          split at hsuccess
          · cases hsuccess
          · rename_i hfit
            have hstr := strlen_le_length str
            have htake : (str.take (min (strlen str) (maxLen.toNat - 1))).length =
                min (strlen str) (maxLen.toNat - 1) := by
              rw [List.length_take]
              omega
            rw [if_neg hfit, Call.bytes, Stream.put_append]
            refine ⟨rfl, ?_⟩
            simp only [Stream.put, List.length_cons, List.length_nil] at hfit
            simp only [List.length_append, htake, List.length_cons, List.length_nil]
            omega

/-- The writes of a sequence append the bytes of one value after the other. -/
theorem writeAll_success {s : Stream} {calls : List Call} (hpos : s.pos ≤ s.capacity)
    (hsuccess : ∀ result ∈ (writeAll (some s) calls).1, result = .success) :
    (writeAll (some s) calls).2 = some (s.put (calls.flatMap Call.bytes)) ∧
      s.pos + (calls.flatMap Call.bytes).length ≤ s.capacity := by
  induction calls generalizing s with
  | nil => exact ⟨rfl, hpos⟩
  | cons call calls ih =>
      simp only [writeAll, List.forall_mem_cons] at hsuccess
      obtain ⟨hwrite, hroom⟩ := Call.write_success hsuccess.1
      rw [hwrite] at hsuccess
      obtain ⟨hrest, hend⟩ := ih (by exact hroom) hsuccess.2
      simp only [writeAll, hwrite, hrest, List.flatMap_cons, Stream.put_append, List.length_append]
      refine ⟨trivial, ?_⟩
      simp only [Stream.put] at hend
      omega

/-! ## What a read finds -/

/-- The memory from `pos` on holds the bytes. -/
def Holds (buf : ℕ → UInt8) (pos : ℕ) (bytes : List UInt8) : Prop :=
  ∀ i < bytes.length, buf (pos + i) = bytes.getD i 0

theorem holds_store (buf : ℕ → UInt8) (pos : ℕ) (bytes : List UInt8) :
    Holds (store buf pos bytes) pos bytes := by
  induction bytes generalizing buf pos with
  | nil => exact fun i hi => absurd hi (Nat.not_lt_zero i)
  | cons b bytes ih =>
      intro i hi
      cases i with
      | zero =>
          have hfirst := @store_of_lt (update buf pos b) (pos + 1) pos bytes (Nat.lt_add_one pos)
          rw [update_self] at hfirst
          exact hfirst
      | succ i =>
          have hrest := ih (update buf pos b) (pos + 1) i (Nat.lt_of_succ_lt_succ hi)
          rw [Nat.add_assoc, Nat.add_comm 1] at hrest
          rw [store, hrest, List.getD_cons_succ]

theorem Holds.of_append {buf : ℕ → UInt8} {pos : ℕ} {xs ys : List UInt8}
    (h : Holds buf pos (xs ++ ys)) : Holds buf pos xs ∧ Holds buf (pos + xs.length) ys := by
  refine ⟨fun i hi => ?_, fun i hi => ?_⟩
  · rw [h i (by rw [List.length_append]; omega), List.getD_append _ _ _ _ hi]
  · rw [Nat.add_assoc, h (xs.length + i) (by rw [List.length_append]; omega),
      List.getD_append_right _ _ _ _ (Nat.le_add_right _ _), Nat.add_sub_cancel_left]

/-- A reader that stands before bytes that are all there. -/
structure ReadsAt (s : Stream) (bytes : List UInt8) : Prop where
  isRead : s.isRead = true
  holds : Holds s.buf s.pos bytes
  room : s.pos + bytes.length ≤ s.capacity

theorem ReadsAt.of_append {s : Stream} {xs ys : List UInt8} (h : ReadsAt s (xs ++ ys)) :
    ReadsAt s xs ∧ ReadsAt (s.skip xs.length) ys := by
  obtain ⟨hxs, hys⟩ := h.holds.of_append
  have hroom := h.room
  rw [List.length_append] at hroom
  exact ⟨⟨h.isRead, hxs, by omega⟩, ⟨h.isRead, hys, by simp only [Stream.skip]; omega⟩⟩

theorem ReadsAt.lacks {s : Stream} {bytes : List UInt8} (h : ReadsAt s bytes) :
    s.lacks bytes.length = false := by
  have hroom := h.room
  simp only [Stream.lacks, h.isRead, Bool.true_eq_false, false_or, decide_eq_false_iff_not]
  omega

theorem ReadsAt.readU16 {s : Stream} {n : ℕ} (hn : n < 2 ^ 16)
    (h : ReadsAt s [lowByte n, highByte n]) :
    lgxNetStreamReadU16 (some s) = (UInt16.ofNat n, some (s.skip 2)) := by
  have hlow : s.buf s.pos = lowByte n := h.holds 0 (by simp)
  have hhigh : s.buf (s.pos + 1) = highByte n := h.holds 1 (by simp)
  have hlacks : s.lacks 2 = false := h.lacks
  rw [lgxNetStreamReadU16, hlacks, hlow, hhigh, u16_bytes hn]
  rfl

theorem ReadsAt.readU32 {s : Stream} {val : UInt32} (h : ReadsAt s (Call.u32 val).bytes) :
    lgxNetStreamReadU32 (some s) = (val, some (s.skip 4)) := by
  have h0 : s.buf s.pos = byteAt val.toNat 0 := h.holds 0 (by simp [Call.bytes])
  have h1 : s.buf (s.pos + 1) = byteAt val.toNat 1 := h.holds 1 (by simp [Call.bytes])
  have h2 : s.buf (s.pos + 2) = byteAt val.toNat 2 := h.holds 2 (by simp [Call.bytes])
  have h3 : s.buf (s.pos + 3) = byteAt val.toNat 3 := h.holds 3 (by simp [Call.bytes])
  have hlacks : s.lacks 4 = false := h.lacks
  rw [lgxNetStreamReadU32, hlacks, h0, h1, h2, h3, u32_bytes val.toNat_lt, UInt32.ofNat_toNat]
  rfl

theorem ReadsAt.peek {s : Stream} {bytes : List UInt8} (h : ReadsAt s bytes) {n : ℕ}
    (hn : n ≤ bytes.length) : s.peek n = bytes.take n := by
  refine List.ext_getElem (by simp [Stream.peek, hn]) fun i hi hi' => ?_
  have hlt : i < n := by simpa [Stream.peek] using hi
  simp only [Stream.peek, List.getElem_map, List.getElem_range, List.getElem_take]
  rw [h.holds i (by omega), List.getD_eq_getElem _ _ (by omega)]

/-- A string is read up to the end of what was written, and copied as far as it fits. -/
theorem ReadsAt.readString {s : Stream} {bytes : List UInt8} {maxLen : UInt16} (hmax : maxLen ≠ 0)
    (hlen : bytes.length < 2 ^ 16)
    (h : ReadsAt s ([lowByte bytes.length, highByte bytes.length] ++ bytes)) :
    lgxNetStreamReadString (some s) maxLen =
      (some (bytes.take (maxLen.toNat - 1)), some (s.skip (2 + bytes.length))) := by
  obtain ⟨hlenBytes, hbody⟩ := h.of_append
  simp only [lgxNetStreamReadString, if_neg hmax, hlenBytes.readU16 hlen]
  by_cases hzero : UInt16.ofNat bytes.length = 0
  · have hnil : bytes = [] := by
      have hnat : (UInt16.ofNat bytes.length).toNat = 0 := by rw [hzero]; rfl
      rw [UInt16.toNat_ofNat_of_lt' hlen] at hnat
      exact List.length_eq_zero_iff.mp hnat
    rw [if_pos hzero, hnil, List.take_nil]
    rfl
  · have hbody : ReadsAt (s.skip 2) bytes := hbody
    have hroom : ¬ (s.skip 2).pos + bytes.length > (s.skip 2).capacity := not_lt.mpr hbody.room
    rw [if_neg hzero, UInt16.toNat_ofNat_of_lt' hlen, if_neg hroom]
    have hcopy : ∀ copy, copy = (if bytes.length < maxLen.toNat - 1 then bytes.length
        else maxLen.toNat - 1) → (s.skip 2).peek copy = bytes.take (maxLen.toNat - 1) := by
      intro copy hcopy
      split at hcopy
      · rw [hcopy, hbody.peek le_rfl, List.take_length, List.take_of_length_le (by omega)]
      · rw [hcopy, hbody.peek (by omega)]
    rw [hcopy _ rfl]
    simp only [Stream.skip, Nat.add_assoc]

/-- The reader of a string has a buffer for at least the terminator. -/
def Call.Readable : Call → Prop
  | string _ _ readMaxLen => readMaxLen ≠ 0
  | _ => True

/-- A read takes the bytes of the value and returns it. -/
theorem ReadsAt.read {s : Stream} {call : Call} (hreadable : call.Readable)
    (h : ReadsAt s call.bytes) :
    call.read (some s) = (call.value, some (s.skip call.bytes.length)) := by
  cases call with
  | u8 val =>
      have hval : s.buf s.pos = val := h.holds 0 (by simp [Call.bytes])
      have hlacks : s.lacks 1 = false := h.lacks
      simp only [Call.read, lgxNetStreamReadU8, hlacks, hval, Bool.false_eq_true, if_false]
      rfl
  | u16 val =>
      have hread := h.readU16 val.toNat_lt
      rw [UInt16.ofNat_toNat] at hread
      simp only [Call.read, hread]
      rfl
  | u32 val =>
      simp only [Call.read, h.readU32]
      rfl
  | f32 raw =>
      have hread : lgxNetStreamReadF32 (some s) = (raw, some (s.skip 4)) := ReadsAt.readU32 h
      simp only [Call.read, hread]
      rfl
  | string str maxLen readMaxLen =>
      have hstr := strlen_le_length str
      have htake : (str.take (min (strlen str) (maxLen.toNat - 1))).length =
          min (strlen str) (maxLen.toNat - 1) := by
        rw [List.length_take]
        omega
      have hlt := stringLen_lt str maxLen
      have hstring := @ReadsAt.readString s (str.take (min (strlen str) (maxLen.toNat - 1))) readMaxLen
        hreadable
      rw [htake] at hstring
      simp only [Call.read, hstring hlt h, Call.value, Call.bytes, List.length_append, List.length_cons,
        List.length_nil, htake]

theorem Stream.skip_skip (s : Stream) (n m : ℕ) : (s.skip n).skip m = s.skip (n + m) := by
  simp only [Stream.skip, Nat.add_assoc]

/-- The reads of a sequence return one value after the other. -/
theorem ReadsAt.readAll {s : Stream} {calls : List Call} (hreadable : ∀ call ∈ calls, call.Readable)
    (h : ReadsAt s (calls.flatMap Call.bytes)) :
    readAll (some s) calls =
      (calls.map Call.value, some (s.skip (calls.flatMap Call.bytes).length)) := by
  induction calls generalizing s with
  | nil => rfl
  | cons call calls ih =>
      rw [List.flatMap_cons] at h
      obtain ⟨hcall, hcalls⟩ := h.of_append
      have hread := hcall.read (hreadable call (List.mem_cons_self ..))
      have hrest := ih (fun c hc => hreadable c (List.mem_cons_of_mem _ hc)) hcalls
      simp only [Net.readAll, hread, hrest, Stream.skip_skip, List.map_cons, List.flatMap_cons,
        List.length_append]

/-! ## The round trip -/

/-- A read stream on what was written stands before all of it. -/
theorem exists_reader_of_put {s : Stream} {bytes : List UInt8} (hstart : s.pos = 0)
    (hne : bytes ≠ []) : ∃ t, lgxNetStreamCreateRead (s.put bytes).buf (s.put bytes).pos = some t ∧
      ReadsAt t bytes ∧ t.pos = 0 := by
  have hpos : (s.put bytes).pos = bytes.length := by
    simp only [Stream.put, hstart, Nat.zero_add]
  have hlength : bytes.length ≠ 0 := fun hzero => hne (List.length_eq_zero_iff.mp hzero)
  rw [lgxNetStreamCreateRead, hpos, if_neg hlength]
  refine ⟨_, rfl, ⟨rfl, ?_, (Nat.zero_add _).le⟩, rfl⟩
  have hholds := holds_store s.buf s.pos bytes
  rw [hstart] at hholds
  simpa only [Stream.put, hstart] using hholds

/-- What was written is read back, up to the end, by the same calls in the same order. -/
theorem stream_roundTrip (buf : ℕ → UInt8) (size : ℕ) (calls : List Call)
    (hreadable : ∀ call ∈ calls, call.Readable)
    (hsuccess : ∀ result ∈ (writeAll (lgxNetStreamCreate buf size) calls).1, result = .success) :
    let written := (writeAll (lgxNetStreamCreate buf size) calls).2
    let reader := lgxNetStreamCreateRead (contents buf written) (lgxNetStreamBytesWritten written)
    (readAll reader calls).1 = calls.map Call.value ∧
      lgxNetStreamBytesWritten (readAll reader calls).2 = lgxNetStreamBytesWritten written := by
  intro written reader
  cases calls with
  | nil =>
      refine ⟨rfl, ?_⟩
      have hwritten : lgxNetStreamBytesWritten written = 0 := by
        simp only [written, writeAll, lgxNetStreamCreate]
        split <;> rfl
      simp only [readAll, reader, hwritten, lgxNetStreamCreateRead]
      rfl
  | cons call calls =>
      cases hcreate : lgxNetStreamCreate buf size with
      | none =>
          rw [hcreate] at hsuccess
          have hfail := hsuccess _ (List.mem_cons_self ..)
          cases call <;> cases hfail
      | some s =>
          have hstart : s.pos = 0 := by
            unfold lgxNetStreamCreate at hcreate
            split at hcreate
            · cases hcreate
            · obtain rfl := Option.some.inj hcreate
              rfl
          rw [hcreate] at hsuccess
          obtain ⟨hput, -⟩ := writeAll_success (hstart ▸ Nat.zero_le _) hsuccess
          have hne : (call :: calls).flatMap Call.bytes ≠ [] := by
            cases call <;> simp [Call.bytes]
          obtain ⟨t, hreader, hreads, hpos⟩ := exists_reader_of_put hstart hne
          simp only [written, reader, hcreate, hput, contents, lgxNetStreamBytesWritten, hreader,
            hreads.readAll hreadable]
          exact ⟨trivial, by simp only [Stream.skip, Stream.put, hpos, hstart]⟩

/-- A string of three bytes, of which the writer takes two and the reader one, between two numbers. -/
theorem stream_roundTrip_cut_twice :
    let calls := [Call.u16 300, .string [97, 98, 99] 3 2, .u8 7]
    let written := (writeAll (lgxNetStreamCreate (fun _ => 0) 7) calls).2
    let reader := lgxNetStreamCreateRead (contents (fun _ => 0) written)
      (lgxNetStreamBytesWritten written)
    (readAll reader calls).1 = [.u16 300, .string (some [97]), .u8 7] ∧
      lgxNetStreamBytesWritten (readAll reader calls).2 = lgxNetStreamBytesWritten written := by
  refine stream_roundTrip (fun _ => 0) 7 [Call.u16 300, .string [97, 98, 99] 3 2, .u8 7] ?_ ?_
  · simp [Call.Readable]
  · decide +kernel

/-- A reader whose `max_len` is 0 leaves the length of the string to the next read. -/
theorem stream_roundTrip_fails_maxLen_zero :
    ¬ ∀ (buf : ℕ → UInt8) (size : ℕ) (calls : List Call),
      (∀ result ∈ (writeAll (lgxNetStreamCreate buf size) calls).1, result = .success) →
        let written := (writeAll (lgxNetStreamCreate buf size) calls).2
        let reader := lgxNetStreamCreateRead (contents buf written) (lgxNetStreamBytesWritten written)
        (readAll reader calls).1 = calls.map Call.value ∧
          lgxNetStreamBytesWritten (readAll reader calls).2 = lgxNetStreamBytesWritten written := by
  intro h
  have hend := (h (fun _ => 0) 3 [.string [] 0 0, .u8 7] (by decide +kernel)).2
  exact absurd hend (by decide +kernel)

end LgxRuntime.Net
