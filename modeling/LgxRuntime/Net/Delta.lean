import LgxRuntime.Machine
import Mathlib.Data.List.Basic

/-!
# Delta compression of network snapshots

`lgx_net_delta_encode` XORs two snapshots byte by byte: a non-zero byte is copied to the output, a
run of zero bytes becomes the pair `0x00, count` with `count` at most 255.  The two loops are
embedded as the source has them, by index into the snapshots, with the output buffer as the list of
bytes written so far; `opos` is its length.
-/

namespace LgxRuntime.Net

/-! ## The encoder -/

/-- `p[i] ^ c[i]`. -/
def xorAt (prev curr : List UInt8) (i : ℕ) : UInt8 :=
  prev.getD i 0 ^^^ curr.getD i 0

/-- The inner loop of the encoder: the index at which the zero run started at `runStart` ends. -/
def zeroRunEnd (prev curr : List UInt8) (size runStart i : ℕ) : ℕ :=
  if i < size ∧ xorAt prev curr i = 0 ∧ i - runStart < 255 then
    zeroRunEnd prev curr size runStart (i + 1)
  else i
termination_by size - i

theorem le_zeroRunEnd (prev curr : List UInt8) (size runStart i : ℕ) :
    i ≤ zeroRunEnd prev curr size runStart i := by
  fun_induction zeroRunEnd with
  | case1 i _ ih => omega
  | case2 => exact le_rfl

theorem lt_zeroRunEnd {prev curr : List UInt8} {size i : ℕ} (hi : i < size)
    (hzero : xorAt prev curr i = 0) : i < zeroRunEnd prev curr size i i := by
  rw [zeroRunEnd, if_pos ⟨hi, hzero, by omega⟩]
  exact le_zeroRunEnd prev curr size i (i + 1)

/-- The outer loop of the encoder; `none` is the early `return -1` on a full buffer. -/
def encodeLoop (prev curr : List UInt8) (size maxOut i : ℕ) (out : List UInt8) :
    Option (List UInt8) :=
  if i < size then
    if xorAt prev curr i = 0 then
      let j := zeroRunEnd prev curr size i i
      if out.length + 2 > maxOut then none
      else encodeLoop prev curr size maxOut j (out ++ [0, UInt8.ofNat (j - i)])
    else
      if out.length + 1 > maxOut then none
      else encodeLoop prev curr size maxOut (i + 1) (out ++ [xorAt prev curr i])
  else some out
termination_by size - i
decreasing_by
  · have := lt_zeroRunEnd ‹i < size› ‹xorAt prev curr i = 0›
    omega
  · omega

/-- `lgx_net_delta_encode`: the return value and, on success, the bytes written to `out`. -/
def lgxNetDeltaEncode (prev curr : List UInt8) (size maxOut : ℕ) : ℤ × List UInt8 :=
  if size = 0 ∨ maxOut = 0 then (-1, [])
  else
    match encodeLoop prev curr size maxOut 0 [] with
    | none => (-1, [])
    | some out => (toInt out.length, out)

/-! ## The decoder -/

/-- The run loop of the decoder.  Its counter `r` is a `uint8_t`, as in the source. -/
def copyRun (prev : List UInt8) (outSize : ℕ) (runLen r : UInt8) (out : List UInt8) : List UInt8 :=
  if r < runLen ∧ out.length < outSize then
    copyRun prev outSize runLen (r + 1) (out ++ [prev.getD out.length 0])
  else out
termination_by outSize - out.length
decreasing_by simp; omega

/-- The outer loop of the decoder; `none` is the `return -1` on a truncated zero record. -/
def decodeLoop (prev delta : List UInt8) (outSize dpos : ℕ) (out : List UInt8) :
    Option (List UInt8) :=
  if dpos < delta.length ∧ out.length < outSize then
    if delta.getD dpos 0 = 0 then
      if dpos + 1 ≥ delta.length then none
      else
        decodeLoop prev delta outSize (dpos + 2)
          (copyRun prev outSize (delta.getD (dpos + 1) 0) 0 out)
    else
      decodeLoop prev delta outSize (dpos + 1)
        (out ++ [prev.getD out.length 0 ^^^ delta.getD dpos 0])
  else some out
termination_by delta.length - dpos

/-- `lgx_net_delta_decode` on the whole of `delta`. -/
def lgxNetDeltaDecode (prev delta : List UInt8) (outSize : ℕ) : ℤ × List UInt8 :=
  if delta.length = 0 ∨ outSize = 0 then (-1, [])
  else
    match decodeLoop prev delta outSize 0 [] with
    | none => (-1, [])
    | some out => (toInt out.length, out)

/-! ## The encoding, without a buffer

`deltaEncoding prev curr size i` is what the format says the bytes from index `i` on are encoded
to.  The encoder produces it whenever the buffer is large enough (`encodeLoop_eq`). -/

/-- The encoding of the snapshots from index `i` on. -/
def deltaEncoding (prev curr : List UInt8) (size i : ℕ) : List UInt8 :=
  if i < size then
    if xorAt prev curr i = 0 then
      [0, UInt8.ofNat (zeroRunEnd prev curr size i i - i)] ++
        deltaEncoding prev curr size (zeroRunEnd prev curr size i i)
    else xorAt prev curr i :: deltaEncoding prev curr size (i + 1)
  else []
termination_by size - i
decreasing_by
  · have := lt_zeroRunEnd ‹i < size› ‹xorAt prev curr i = 0›
    omega
  · omega

/-- The encoder writes the encoding if it fits the buffer and fails otherwise. -/
theorem encodeLoop_eq (prev curr : List UInt8) (size maxOut i : ℕ) (out : List UInt8)
    (hout : out.length ≤ maxOut) :
    encodeLoop prev curr size maxOut i out =
      if out.length + (deltaEncoding prev curr size i).length ≤ maxOut then
        some (out ++ deltaEncoding prev curr size i)
      else none := by
  fun_induction encodeLoop prev curr size maxOut i out with
  | case1 i out hi hzero hfull =>
      rw [deltaEncoding, if_pos hi, if_pos hzero, if_neg (by simp; omega)]
  | case2 i out hi hzero j hfits ih =>
      rw [ih (by simp; omega), deltaEncoding.eq_def prev curr size i, if_pos hi, if_pos hzero]
      simp only [List.length_append, List.length_cons, List.length_nil, List.append_assoc, j]
      congr 2
      omega
  | case3 i out hi hzero hfull =>
      rw [deltaEncoding, if_pos hi, if_neg hzero, if_neg (by simp; omega)]
  | case4 i out hi hzero hfits ih =>
      rw [ih (by simp; omega), deltaEncoding.eq_def prev curr size i, if_pos hi, if_neg hzero]
      simp only [List.length_append, List.length_cons, List.length_nil, List.append_assoc,
        List.singleton_append]
      congr 2
      omega
  | case5 i out hi =>
      rw [deltaEncoding, if_neg hi]
      simpa using hout

/-- Every record of the encoding stands for at least one byte and takes at most two. -/
theorem length_deltaEncoding_le (prev curr : List UInt8) (size i : ℕ) :
    (deltaEncoding prev curr size i).length ≤ 2 * (size - i) := by
  fun_induction deltaEncoding prev curr size i with
  | case1 i hi hzero ih =>
      have hlt := lt_zeroRunEnd hi hzero
      simp only [List.length_append, List.length_cons, List.length_nil]
      omega
  | case2 i hi hzero ih =>
      simp only [List.length_cons]
      omega
  | case3 i hi => simp

/-! ## Decoding the encoding -/

theorem zeroRunEnd_le {prev curr : List UInt8} {size runStart i : ℕ} (hi : i ≤ size) :
    zeroRunEnd prev curr size runStart i ≤ size := by
  fun_induction zeroRunEnd prev curr size runStart i with
  | case1 i hcont ih => exact ih (by omega)
  | case2 i hstop => exact hi

theorem zeroRunEnd_sub_le {prev curr : List UInt8} {size runStart i : ℕ}
    (hi : i - runStart ≤ 255) : zeroRunEnd prev curr size runStart i - runStart ≤ 255 := by
  fun_induction zeroRunEnd prev curr size runStart i with
  | case1 i hcont ih => exact ih (by omega)
  | case2 i hstop => exact hi

theorem xorAt_eq_zero_of_lt_zeroRunEnd {prev curr : List UInt8} {size runStart i t : ℕ}
    (hle : i ≤ t) (hlt : t < zeroRunEnd prev curr size runStart i) : xorAt prev curr t = 0 := by
  fun_induction zeroRunEnd prev curr size runStart i with
  | case1 i hcont ih =>
      rcases Nat.lt_or_eq_of_le hle with hlt' | rfl
      · exact ih hlt' hlt
      · exact hcont.2.1
  | case2 i hstop => omega

theorem getD_eq_of_xorAt {prev curr : List UInt8} {i : ℕ} (h : xorAt prev curr i = 0) :
    prev.getD i 0 = curr.getD i 0 := by
  simpa [xorAt, UInt8.xor_eq_zero_iff] using h

theorem getD_xor_xorAt (prev curr : List UInt8) (i : ℕ) :
    prev.getD i 0 ^^^ xorAt prev curr i = curr.getD i 0 := by
  rw [xorAt, ← UInt8.xor_assoc, UInt8.xor_self, UInt8.zero_xor]

theorem take_append_getD {curr : List UInt8} {i : ℕ} (hi : i < curr.length) :
    curr.take i ++ [curr.getD i 0] = curr.take (i + 1) := by
  rw [List.getD_eq_getElem?_getD, List.getElem?_eq_getElem hi, Option.getD_some,
    List.take_append_getElem]

/-- The 8-bit run counter reaches every run length: the loop copies exactly `runLen - r` bytes. -/
theorem copyRun_take {prev curr : List UInt8} {runLen r : UInt8} {i count : ℕ}
    (hcount : r.toNat + count = runLen.toNat) (hfits : i + count ≤ curr.length)
    (hsame : ∀ t, i ≤ t → t < i + count → prev.getD t 0 = curr.getD t 0) :
    copyRun prev curr.length runLen r (curr.take i) = curr.take (i + count) := by
  induction count generalizing r i with
  | zero =>
      rw [copyRun, if_neg]
      · rfl
      · rw [UInt8.lt_iff_toNat_lt]
        omega
  | succ count ih =>
      have hlength : (curr.take i).length = i := by
        rw [List.length_take]
        omega
      have hlt : r < runLen := by
        rw [UInt8.lt_iff_toNat_lt]
        omega
      have hsucc : (r + 1).toNat = r.toNat + 1 := by
        have := runLen.toNat_lt
        rw [UInt8.toNat_add]
        simp
        omega
      rw [copyRun, if_pos ⟨hlt, by omega⟩, hlength, hsame i le_rfl (by omega),
        take_append_getD (by omega), ih (by omega) (by omega)
          fun t hle ht => hsame t (by omega) (by omega)]
      congr 1
      omega

/-- The decoder, standing at the record for index `i` with the first `i` bytes restored, restores
the rest. -/
theorem decodeLoop_deltaEncoding (prev curr delta : List UInt8) {i : ℕ} (hi : i ≤ curr.length)
    (pre : List UInt8) (hdelta : delta = pre ++ deltaEncoding prev curr curr.length i) :
    decodeLoop prev delta curr.length pre.length (curr.take i) = some curr := by
  fun_induction deltaEncoding prev curr curr.length i generalizing pre with
  | case1 i hlt hzero ih =>
      set j := zeroRunEnd prev curr curr.length i i with hj
      have hij : i < j := lt_zeroRunEnd hlt hzero
      have hjle : j ≤ curr.length := zeroRunEnd_le hi
      have hshort : j - i ≤ 255 := zeroRunEnd_sub_le (by omega)
      have hrun : (UInt8.ofNat (j - i)).toNat = j - i := by
        rw [UInt8.toNat_ofNat']
        omega
      have hcopy : copyRun prev curr.length (UInt8.ofNat (j - i)) 0 (curr.take i) =
          curr.take j := by
        have hcount : (0 : UInt8).toNat + (j - i) = (UInt8.ofNat (j - i)).toNat := by
          rw [hrun]
          simp
        rw [copyRun_take hcount (by omega)]
        · congr 1
          omega
        · intro t hle ht
          have hin : t < zeroRunEnd prev curr curr.length i i := by omega
          exact getD_eq_of_xorAt (xorAt_eq_zero_of_lt_zeroRunEnd hle hin)
      have hnext := ih hjle (pre ++ [0, UInt8.ofNat (j - i)]) (by simp [hdelta])
      have hmarker : delta.getD pre.length 0 = 0 := by simp [hdelta]
      have hlen : delta.getD (pre.length + 1) 0 = UInt8.ofNat (j - i) := by
        simp [hdelta]
      rw [decodeLoop, if_pos (by simp [hdelta]; omega), if_pos hmarker,
        if_neg (by simp [hdelta]), hlen, hcopy]
      simpa using hnext
  | case2 i hlt hzero ih =>
      have hbyte : delta.getD pre.length 0 = xorAt prev curr i := by simp [hdelta]
      have hlength : (curr.take i).length = i := by
        rw [List.length_take]
        omega
      have hnext := ih (by omega) (pre ++ [xorAt prev curr i]) (by simp [hdelta])
      rw [decodeLoop, if_pos (by simp [hdelta]; omega), hbyte, if_neg hzero, hlength,
        getD_xor_xorAt, take_append_getD hlt]
      simpa using hnext
  | case3 i hge =>
      have hall : curr.take i = curr := List.take_of_length_le (by omega)
      rw [decodeLoop, hall, if_neg (by omega)]

/-! ## Round trip

The return values are the buffer positions cast to `int`, which is where a snapshot of more than
`INT_MAX` bytes goes wrong: its delta may be short, but its decoded size does not fit the result. -/

theorem deltaEncoding_ne_nil (prev curr : List UInt8) {size i : ℕ} (hi : i < size) :
    deltaEncoding prev curr size i ≠ [] := by
  rw [deltaEncoding, if_pos hi]
  split <;> simp

theorem lgxNetDeltaEncode_eq {prev curr : List UInt8} {size maxOut : ℕ} (hsize : 1 ≤ size) :
    lgxNetDeltaEncode prev curr size maxOut =
      if (deltaEncoding prev curr size 0).length ≤ maxOut then
        (toInt (deltaEncoding prev curr size 0).length, deltaEncoding prev curr size 0)
      else (-1, []) := by
  have hpos := List.length_pos_iff.mpr (deltaEncoding_ne_nil prev curr (show 0 < size by omega))
  unfold lgxNetDeltaEncode
  by_cases hzero : maxOut = 0
  · rw [if_pos (Or.inr hzero), if_neg (by omega)]
  · rw [if_neg (by omega), encodeLoop_eq _ _ _ _ _ _ (Nat.zero_le _)]
    by_cases hfits : (deltaEncoding prev curr size 0).length ≤ maxOut <;> simp [hfits]

/-- Whatever the encoder emitted is decoded to the current snapshot, with the size cast to `int`
as the return value. -/
theorem lgxNetDeltaDecode_of_encode {prev curr out : List UInt8} {maxOut : ℕ}
    (hsize : 1 ≤ curr.length)
    (hencode : lgxNetDeltaEncode prev curr curr.length maxOut = ((out.length : ℤ), out)) :
    lgxNetDeltaDecode prev out curr.length = (toInt curr.length, curr) := by
  have hout : out = deltaEncoding prev curr curr.length 0 := by
    rw [lgxNetDeltaEncode_eq hsize] at hencode
    split at hencode
    · exact (Prod.mk.inj hencode).2.symm
    · have := (Prod.mk.inj hencode).1
      omega
  have hpos : out.length ≠ 0 := by
    rw [hout, List.length_eq_zero_iff.ne]
    exact deltaEncoding_ne_nil prev curr (by omega)
  have hloop := decodeLoop_deltaEncoding prev curr out (Nat.zero_le _) [] (by simpa using hout)
  simp only [List.length_nil, List.take_zero] at hloop
  rw [lgxNetDeltaDecode, if_neg (by omega), hloop]

/-- The delta codec is correct for the snapshots whose size fits an `int`, and for no others: a
delta of `k ≤ INT_MAX` bytes decodes to the current snapshot and reports its size exactly when
the snapshot has at most `INT_MAX` bytes.  The encoder fails exactly when the encoding does not fit
the buffer, and the encoding has at most two bytes for each byte of the snapshot. -/
theorem delta_roundTrip_iff (prev curr : List UInt8) (maxOut : ℕ) (hsize : 1 ≤ curr.length) :
    (∀ out : List UInt8,
      lgxNetDeltaEncode prev curr curr.length maxOut = ((out.length : ℤ), out) →
      out.length ≤ intMax →
      (lgxNetDeltaDecode prev out curr.length = ((curr.length : ℤ), curr) ↔
        curr.length ≤ intMax)) ∧
    (lgxNetDeltaEncode prev curr curr.length maxOut = (-1, []) ↔
      maxOut < (deltaEncoding prev curr curr.length 0).length) ∧
    (deltaEncoding prev curr curr.length 0).length ≤ 2 * curr.length := by
  refine ⟨fun out hencode _ => ?_, ?_, length_deltaEncoding_le _ _ _ _⟩
  · rw [lgxNetDeltaDecode_of_encode hsize hencode, ← toInt_eq_iff]
    simp
  · have hne := deltaEncoding_ne_nil prev curr (show 0 < curr.length by omega)
    rw [lgxNetDeltaEncode_eq hsize]
    split
    · rename_i hfits
      simp only [Prod.mk.injEq, hne, and_false, false_iff]
      omega
    · simp only [true_iff]
      omega

/-- A one-byte change after a run of two equal bytes. -/
theorem delta_roundTrip_three :
    lgxNetDeltaEncode [7, 7, 7] [7, 7, 5] 3 3 = (3, [0, 2, 2]) ∧
      lgxNetDeltaDecode [7, 7, 7] [0, 2, 2] 3 = (3, [7, 7, 5]) := by
  have hencode : lgxNetDeltaEncode [7, 7, 7] [7, 7, 5] 3 3 = (3, [0, 2, 2]) := by
    simp [lgxNetDeltaEncode, encodeLoop, zeroRunEnd, xorAt, toInt]
    rfl
  exact ⟨hencode, ((delta_roundTrip_iff [7, 7, 7] [7, 7, 5] 3 (by decide)).1 [0, 2, 2] hencode
    (by decide)).mpr (by decide)⟩

/-! ### Two equal snapshots of 2 GiB -/

theorem xorAt_self (s : List UInt8) (i : ℕ) : xorAt s s i = 0 :=
  UInt8.xor_self

theorem zeroRunEnd_self (s : List UInt8) {size runStart i : ℕ} (hstart : runStart ≤ i)
    (hi : i ≤ size) (hcap : i ≤ runStart + 255) :
    zeroRunEnd s s size runStart i = min size (runStart + 255) := by
  fun_induction zeroRunEnd s s size runStart i with
  | case1 i hcont ih => exact ih (by omega) (by omega) (by omega)
  | case2 i hstop =>
      simp only [xorAt_self, true_and] at hstop
      omega

/-- A snapshot that did not change costs two bytes for each started run of 255. -/
theorem length_deltaEncoding_self (s : List UInt8) (size i : ℕ) :
    (deltaEncoding s s size i).length = 2 * ((size - i + 254) / 255) := by
  fun_induction deltaEncoding s s size i with
  | case1 i hi hzero ih =>
      rw [zeroRunEnd_self s le_rfl (Nat.le_of_lt hi) (by omega)] at ih ⊢
      simp only [List.length_append, List.length_cons, List.length_nil]
      omega
  | case2 i hi hzero ih => exact absurd (xorAt_self s i) hzero
  | case3 i hi =>
      rw [List.length_nil]
      omega

/-- Two equal snapshots of `2 ^ 31` bytes encode to a delta well below `INT_MAX` bytes, and decoding
that delta reports a negative size. -/
theorem delta_roundTrip_fails :
    ∃ out : List UInt8,
      lgxNetDeltaEncode (List.replicate (2 ^ 31) 0) (List.replicate (2 ^ 31) 0) (2 ^ 31) (2 ^ 31) =
        ((out.length : ℤ), out) ∧ out.length ≤ intMax ∧
      (lgxNetDeltaDecode (List.replicate (2 ^ 31) 0) out (2 ^ 31)).1 < 0 := by
  obtain ⟨n, hn⟩ : ∃ n : ℕ, n = 2 ^ 31 := ⟨_, rfl⟩
  rw [← hn]
  set s := List.replicate n (0 : UInt8) with hs
  have hlength : s.length = n := List.length_replicate
  have hshort := length_deltaEncoding_self s n 0
  have hint : (deltaEncoding s s n 0).length ≤ intMax := by
    unfold intMax
    omega
  have hencode : lgxNetDeltaEncode s s n n =
      (((deltaEncoding s s n 0).length : ℤ), deltaEncoding s s n 0) := by
    rw [lgxNetDeltaEncode_eq (by omega), if_pos (by omega), toInt_of_le hint]
  refine ⟨_, hencode, hint, ?_⟩
  rw [← hlength] at hencode
  have hdecode := lgxNetDeltaDecode_of_encode (by omega) hencode
  rw [hlength] at hdecode
  have hnegative : toInt (2 ^ 31) < 0 := by decide
  rw [hdecode, hn]
  exact hnegative

end LgxRuntime.Net
