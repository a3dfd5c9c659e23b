import LgxRuntime.Net.Stream

/-!
# Stream operations that fail

A fixed-size write compares all of its bytes with the capacity before it stores one.  The string
operations are built on the 16-bit ones: `lgx_net_stream_write_string` commits the length and only
then looks for room for the bytes, and `lgx_net_stream_read_string` has moved behind the length when
it finds the bytes cut off.  Either way the length stays behind (`Op.LeavesHeader`), two bytes that
belong to no value.
-/

namespace LgxRuntime.Net

open LittleEndian (lowByte highByte)

/-! ## Operations on a stream -/

/-- A typed write or a typed read. -/
inductive Op
  | write (call : Call)
  | read (call : Call)

/-- The string at the position has a length, and the stream ends before that many bytes.  The
conditions are those of `lgx_net_stream_read_string`. -/
def PayloadTruncated (s : Option Stream) (maxLen : UInt16) : Prop :=
  maxLen ≠ 0 ∧ (lgxNetStreamReadU16 s).1 ≠ 0 ∧
    ∃ t, (lgxNetStreamReadU16 s).2 = some t ∧
      t.pos + (lgxNetStreamReadU16 s).1.toNat > t.capacity

namespace Op

/-- The stream after an operation. -/
def next (s : Option Stream) : Op → Option Stream
  | write call => (call.write s).2
  | read call => (call.read s).2

/-- The operation fails: a write returns an error, or the read of a string finds it cut off. -/
def Failed (s : Option Stream) : Op → Prop
  | write call => (call.write s).1 ≠ .success
  | read (.string _ _ readMaxLen) => PayloadTruncated s readMaxLen
  | read _ => False

/-- The operation is a string operation that gets as far as the length and no further. -/
def LeavesHeader (s : Option Stream) : Op → Prop
  | write (.string str maxLen _) =>
      ∃ t, s = some t ∧ t.isRead = false ∧ t.pos + 2 ≤ t.capacity ∧
        t.capacity < t.pos + 2 + min (strlen str) (maxLen.toNat - 1)
  | read (.string _ _ readMaxLen) => PayloadTruncated s readMaxLen
  | _ => False

/-- The stream after a sequence of operations. -/
def run (s : Option Stream) : List Op → Option Stream
  | [] => s
  | op :: ops => run (op.next s) ops

end Op

/-- The total length of the encodings of the writes of a sequence that returned `LGX_SUCCESS`. -/
def encodedLength (s : Option Stream) : List Op → ℕ
  | [] => 0
  | .write call :: ops =>
      (if (call.write s).1 = .success then call.bytes.length else 0) +
        encodedLength (call.write s).2 ops
  | .read call :: ops => encodedLength (call.read s).2 ops

/-- The position and the bytes in front of it are the same on two streams. -/
def Untouched (s t : Option Stream) : Prop :=
  lgxNetStreamBytesWritten t = lgxNetStreamBytesWritten s ∧
    ∀ (buf : ℕ → UInt8) (i : ℕ), i < lgxNetStreamBytesWritten s →
      contents buf t i = contents buf s i

theorem Untouched.refl (s : Option Stream) : Untouched s s :=
  ⟨rfl, fun _ _ _ => rfl⟩

/-! ## One operation -/

/-- A fixed-size write that fails sets the overflow flag at most. -/
theorem writeBytes_failed {s : Option Stream} {bytes : List UInt8}
    (hfailed : (writeBytes s bytes).1 ≠ .success) : Untouched s (writeBytes s bytes).2 := by
  cases s with
  | none => exact Untouched.refl none
  | some s =>
      unfold writeBytes at hfailed ⊢
      simp only at hfailed ⊢
      split_ifs at hfailed ⊢ with hread hfull
      · exact Untouched.refl _
      · exact ⟨rfl, fun _ _ _ => rfl⟩
      · exact absurd rfl hfailed

/-- A string write, branch by branch, in terms of the length it writes. -/
theorem lgxNetStreamWriteString_eq (s : Stream) (str : List UInt8) (maxLen : UInt16) :
    lgxNetStreamWriteString (some s) str maxLen =
      let len := min (strlen str) (maxLen.toNat - 1)
      if s.isRead then (.invalidParam, some s)
      else if s.pos + 2 > s.capacity then (.invalidParam, some { s with overflow := true })
      else if s.pos + 2 + len > s.capacity then
        (.invalidParam, some { s.put [lowByte len, highByte len] with overflow := true })
      else (.success, some (s.put ([lowByte len, highByte len] ++ str.take len))) := by
  have hlen := @stringLen_eq_min str maxLen.toNat 0 (Nat.zero_le _) (Nat.zero_le _)
  have hlt := stringLen_lt str maxLen
  simp only [lgxNetStreamWriteString, lgxNetStreamWriteU16, writeBytes, hlen,
    UInt16.toNat_ofNat_of_lt' hlt, List.length_cons, List.length_nil, Nat.zero_add,
    Stream.put_append]
  by_cases hread : s.isRead = true
  · simp only [if_pos hread]
  · by_cases hheader : s.pos + 2 > s.capacity
    · simp only [if_neg hread, if_pos hheader]
    · simp only [if_neg hread, if_neg hheader]
      rfl

/-- How a write ends: it appends its bytes, it leaves the stream alone, or it leaves the length of a
string behind. -/
inductive WriteEnds (s : Option Stream) (call : Call) : Prop
  | success (t : Stream) (hstream : s = some t) (hresult : (call.write s).1 = .success)
      (hnext : (call.write s).2 = some (t.put call.bytes))
      (hheader : ¬ (Op.write call).LeavesHeader s)
  | refused (hresult : (call.write s).1 ≠ .success) (hnext : Untouched s (call.write s).2)
      (hheader : ¬ (Op.write call).LeavesHeader s)
  | header (hresult : (call.write s).1 ≠ .success)
      (hnext : lgxNetStreamBytesWritten (call.write s).2 = lgxNetStreamBytesWritten s + 2)
      (hheader : (Op.write call).LeavesHeader s)

theorem Call.write_none (call : Call) : call.write none = (.invalidParam, none) := by
  cases call <;> rfl

/-- The fixed-size writes: all of the bytes or none. -/
theorem WriteEnds.of_writeBytes {s : Option Stream} {call : Call}
    (hwrite : call.write s = writeBytes s call.bytes)
    (hheader : ¬ (Op.write call).LeavesHeader s) : WriteEnds s call := by
  by_cases hresult : (call.write s).1 = .success
  · cases s with
    | none =>
        rw [Call.write_none] at hresult
        cases hresult
    | some t => exact .success t rfl hresult (Call.write_success hresult).1 hheader
  · refine .refused hresult ?_ hheader
    rw [hwrite] at hresult ⊢
    exact writeBytes_failed hresult

theorem WriteEnds.string (s : Option Stream) (str : List UInt8) (maxLen readMaxLen : UInt16) :
    WriteEnds s (.string str maxLen readMaxLen) := by
  cases s with
  | none =>
      refine .refused (by simp [Call.write_none]) ?_ ?_
      · rw [Call.write_none]
        exact Untouched.refl none
      · rintro ⟨t, ht, -⟩
        cases ht
  | some s =>
      have hwrite := lgxNetStreamWriteString_eq s str maxLen
      have hheader : (Op.write (.string str maxLen readMaxLen)).LeavesHeader (some s) ↔
          s.isRead = false ∧ s.pos + 2 ≤ s.capacity ∧
            s.capacity < s.pos + 2 + min (strlen str) (maxLen.toNat - 1) := by
        simp [Op.LeavesHeader]
      simp only at hwrite
      split_ifs at hwrite with hread hlength hbody
      · refine .refused ?_ ?_ (by simp [hheader, hread])
        · simp [Call.write, hwrite]
        · simp only [Call.write, hwrite]
          exact Untouched.refl _
      · refine .refused ?_ ?_ (by rw [hheader]; omega)
        · simp [Call.write, hwrite]
        · simp only [Call.write, hwrite]
          exact ⟨rfl, fun _ _ _ => rfl⟩
      · refine .header ?_ ?_ (hheader.mpr ⟨by simpa using hread, by omega, by omega⟩)
        · simp [Call.write, hwrite]
        · simp only [Call.write, hwrite]
          rfl
      · refine .success s rfl ?_ ?_ (by rw [hheader]; omega)
        · simp only [Call.write, hwrite]
        · simp only [Call.write, hwrite, Call.bytes]

theorem Call.write_ends (s : Option Stream) (call : Call) : WriteEnds s call := by
  cases call with
  | u8 val => exact .of_writeBytes rfl id
  | u16 val => exact .of_writeBytes rfl id
  | u32 val => exact .of_writeBytes rfl id
  | f32 raw => exact .of_writeBytes rfl id
  | string str maxLen readMaxLen => exact .string s str maxLen readMaxLen

/-- A string read that finds its payload cut off has moved behind the length. -/
theorem PayloadTruncated.next {s : Option Stream} {maxLen : UInt16} (h : PayloadTruncated s maxLen) :
    lgxNetStreamBytesWritten (lgxNetStreamReadString s maxLen).2 =
      lgxNetStreamBytesWritten s + 2 := by
  obtain ⟨hmax, hlen, t, hnext, hroom⟩ := h
  cases s with
  | none => exact absurd rfl hlen
  | some s =>
      by_cases hlacks : s.lacks 2
      · simp only [lgxNetStreamReadU16, hlacks, if_true] at hlen
        exact absurd rfl hlen
      · obtain ⟨len, hread⟩ : ∃ len, lgxNetStreamReadU16 (some s) = (len, some (s.skip 2)) := by
          simp only [lgxNetStreamReadU16, if_neg hlacks]
          exact ⟨_, rfl⟩
        simp only [hread, Option.some.injEq] at hlen hnext hroom
        subst hnext
        simp only [lgxNetStreamReadString, if_neg hmax, hread, if_neg hlen, if_pos hroom]
        rfl

/-- A failed operation leaves a trace exactly when it leaves a length. -/
theorem Op.failed_untouched_iff (op : Op) (s : Option Stream) :
    (op.Failed s → Untouched s (op.next s)) ↔ ¬ op.LeavesHeader s := by
  cases op with
  | write call =>
      cases call.write_ends s with
      | success t hstream hresult hnext hheader =>
          exact ⟨fun _ => hheader, fun _ hfailed => absurd hresult hfailed⟩
      | refused hresult hnext hheader => exact ⟨fun _ => hheader, fun _ _ => hnext⟩
      | header hresult hnext hheader =>
          refine ⟨fun h => ?_, fun h => absurd hheader h⟩
          have hsame := (h hresult).1
          simp only [Op.next] at hsame
          omega
  | read call =>
      cases call with
      | string str maxLen readMaxLen =>
          refine ⟨fun h htruncated => ?_, fun h htruncated => absurd htruncated h⟩
          have hsame := (h htruncated).1
          have hmoved := htruncated.next
          simp only [Op.next, Call.read] at hsame
          omega
      | _ => exact ⟨fun _ => id, fun _ hfailed => absurd hfailed id⟩

/-! ## Every run on a write stream -/

/-- A stream to write to, or the NULL stream. -/
def WriteStream (s : Option Stream) : Prop :=
  ∀ t, s = some t → t.isRead = false

theorem writeStream_create (buf : ℕ → UInt8) (size : ℕ) :
    WriteStream (lgxNetStreamCreate buf size) := by
  intro t ht
  unfold lgxNetStreamCreate at ht
  split_ifs at ht
  obtain rfl := Option.some.inj ht
  rfl

theorem WriteStream.read {s : Option Stream} (h : WriteStream s) (call : Call) :
    (call.read s).2 = s := by
  cases s with
  | none =>
      cases call with
      | string => rfl
      | _ => rfl
  | some s =>
      have hlacks : ∀ n, s.lacks n = true := by simp [Stream.lacks, h s rfl]
      cases call with
      | string str maxLen readMaxLen =>
          simp only [Call.read, lgxNetStreamReadString, lgxNetStreamReadU16, hlacks, if_true]
          split_ifs <;> rfl
      | _ => simp [Call.read, lgxNetStreamReadU8, lgxNetStreamReadU16, lgxNetStreamReadU32,
          lgxNetStreamReadF32, hlacks]

/-- A write does not change the direction of a stream. -/
theorem Call.write_isRead {s t : Stream} {call : Call} (ht : (call.write (some s)).2 = some t) :
    t.isRead = s.isRead := by
  have hbytes : ∀ bytes, (writeBytes (some s) bytes).2 = some t → t.isRead = s.isRead := by
    intro bytes ht
    unfold writeBytes at ht
    simp only at ht
    split_ifs at ht
    all_goals
      obtain rfl := Option.some.inj ht
      rfl
  cases call with
  | string str maxLen readMaxLen =>
      simp only [Call.write, lgxNetStreamWriteString_eq] at ht
      split_ifs at ht
      all_goals
        obtain rfl := Option.some.inj ht
        rfl
  | _ => exact hbytes _ ht

theorem WriteStream.next {s : Option Stream} (h : WriteStream s) (op : Op) :
    WriteStream (op.next s) := by
  cases op with
  | read call => rwa [Op.next, h.read call]
  | write call =>
      intro t ht
      cases s with
      | none =>
          rw [Op.next, Call.write_none] at ht
          cases ht
      | some s => exact (Call.write_isRead ht).trans (h s rfl)

/-- One operation on a write stream moves the position by the encoding of what it wrote, and by two
more if it leaves a length. -/
theorem WriteStream.bytesWritten_next {s : Option Stream} (h : WriteStream s) (op : Op) :
    (¬ op.LeavesHeader s → lgxNetStreamBytesWritten (op.next s) =
      lgxNetStreamBytesWritten s + encodedLength s [op]) ∧
    (op.LeavesHeader s → lgxNetStreamBytesWritten (op.next s) =
      lgxNetStreamBytesWritten s + encodedLength s [op] + 2) := by
  cases op with
  | read call =>
      rw [Op.next, h.read call]
      refine ⟨fun _ => rfl, fun hheader => ?_⟩
      cases call with
      | string str maxLen readMaxLen =>
          have hmoved := PayloadTruncated.next hheader
          have hsame := h.read (.string str maxLen readMaxLen)
          simp only [Call.read] at hsame
          rw [hsame] at hmoved
          exact hmoved
      | _ => exact absurd hheader id
  | write call =>
      simp only [encodedLength, Op.next, Nat.add_zero]
      cases call.write_ends s with
      | success t hstream hresult hnext hheader =>
          rw [hnext, if_pos hresult, hstream]
          exact ⟨fun _ => rfl, fun hleaves => absurd (hstream ▸ hleaves) hheader⟩
      | refused hresult hnext hheader =>
          rw [if_neg hresult]
          exact ⟨fun _ => hnext.1, fun hleaves => absurd hleaves hheader⟩
      | header hresult hnext hheader =>
          rw [if_neg hresult]
          exact ⟨fun hnone => absurd hheader hnone, fun _ => hnext⟩

theorem encodedLength_cons (s : Option Stream) (op : Op) (ops : List Op) :
    encodedLength s (op :: ops) = encodedLength s [op] + encodedLength (op.next s) ops := by
  cases op <;> simp [encodedLength, Op.next]

/-- A condition on every element of a list and what precedes it, for the first element and the
others. -/
theorem forall_split_cons {α : Type*} {P : List α → α → Prop} {a : α} {l : List α} :
    (∀ front b rest, a :: l = front ++ b :: rest → P front b) ↔
      P [] a ∧ ∀ front b rest, l = front ++ b :: rest → P (a :: front) b := by
  refine ⟨fun h => ⟨h [] a l rfl, fun front b rest hl => h (a :: front) b rest (by simp [hl])⟩,
    fun h front b rest hl => ?_⟩
  cases front with
  | nil =>
      obtain ⟨rfl, -⟩ := List.cons.inj hl
      exact h.1
  | cons head front =>
      obtain ⟨rfl, htail⟩ := List.cons.inj hl
      exact h.2 front b rest htail

/-- Over a run the position is the total length of the encodings exactly if no operation leaves a
length; otherwise it is further on. -/
theorem WriteStream.bytesWritten_run {s : Option Stream} (h : WriteStream s) (ops : List Op) :
    lgxNetStreamBytesWritten s + encodedLength s ops ≤ lgxNetStreamBytesWritten (Op.run s ops) ∧
    (lgxNetStreamBytesWritten (Op.run s ops) = lgxNetStreamBytesWritten s + encodedLength s ops ↔
      ∀ front op rest, ops = front ++ op :: rest → ¬ op.LeavesHeader (Op.run s front)) := by
  induction ops generalizing s with
  | nil => simp [encodedLength, Op.run]
  | cons op ops ih =>
      obtain ⟨hle, hiff⟩ := ih (h.next op)
      obtain ⟨hwhole, hheader⟩ := h.bytesWritten_next op
      rw [encodedLength_cons]
      rw [forall_split_cons]
      simp only [Op.run]
      rw [← hiff]
      by_cases hleaves : op.LeavesHeader s
      · have hstep := hheader hleaves
        refine ⟨by omega, ⟨fun _ => by omega, fun hnone => absurd hleaves hnone.1⟩⟩
      · have hstep := hwhole hleaves
        refine ⟨by omega, ⟨fun heq => ⟨hleaves, by omega⟩, fun heq => by omega⟩⟩

/-- A failed operation leaves a stream as it was exactly when it leaves no length behind, and the
bytes written on a stream are the total length of the encodings of the writes that succeeded exactly
when no operation of the run leaves a length behind. -/
theorem failed_untouched_bytesWritten_iff (s : Option Stream) (op : Op) (buf : ℕ → UInt8) (size : ℕ)
    (ops : List Op) :
    ((op.Failed s → Untouched s (op.next s)) ↔ ¬ op.LeavesHeader s) ∧
      (lgxNetStreamBytesWritten (Op.run (lgxNetStreamCreate buf size) ops) =
          encodedLength (lgxNetStreamCreate buf size) ops ↔
        ∀ front op rest, ops = front ++ op :: rest →
          ¬ op.LeavesHeader (Op.run (lgxNetStreamCreate buf size) front)) := by
  refine ⟨op.failed_untouched_iff s, ?_⟩
  have hstart : lgxNetStreamBytesWritten (lgxNetStreamCreate buf size) = 0 := by
    unfold lgxNetStreamCreate
    split_ifs <;> rfl
  have hrun := ((writeStream_create buf size).bytesWritten_run ops).2
  rwa [hstart, Nat.zero_add] at hrun

/-- A string of two bytes on a stream of three: the write fails and leaves the two bytes of its
length. -/
theorem failed_untouched_fails_string :
    ¬ ∀ (s : Option Stream) (op : Op), op.Failed s → Untouched s (op.next s) := by
  intro h
  have hfailed : (lgxNetStreamWriteString (lgxNetStreamCreate (fun _ => 0) 3) [97, 98] 8).1 ≠
      .success := by decide +kernel
  have hsame := (h _ (.write (.string [97, 98] 8 8)) hfailed).1
  exact absurd hsame (by decide +kernel)

end LgxRuntime.Net
