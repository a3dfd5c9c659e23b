import LgxRuntime.Net.Delta

/-!
# Decoding a delta that may be malformed

`lgx_net_delta_decode` takes whatever bytes arrive.  Here it is embedded a second time with its three
buffers as memory: a load or a store outside a buffer is a fault (`none`), so a run that does not
fault made every access in bounds.  What the bytes mean is `expand`, the list of XOR values that a
sequence of whole records stands for; the decoder's output is `prev` XORed with the expansion of
what it consumed (`Decoded`), kept by the run loop and by every record.
-/

namespace LgxRuntime.Net

/-! ## The decoder over memory -/

/-- A read of `buffer[i]`; a fault outside the buffer. -/
def loadByte (buffer : List UInt8) (i : ℕ) : Option UInt8 :=
  buffer[i]?

/-- A write of `buffer[i]`; a fault outside the buffer. -/
def storeByte (buffer : List UInt8) (i : ℕ) (byte : UInt8) : Option (List UInt8) :=
  if i < buffer.length then some (buffer.set i byte) else none

/-- The two cursors of the decoder and its output buffer. -/
structure Decoder where
  dpos : ℕ
  opos : ℕ
  out : List UInt8
  deriving Repr, DecidableEq

/-- The run loop of the decoder: the cursor and the output buffer after it. -/
def copyRunChecked (prev : List UInt8) (outSize : ℕ) (runLen r : UInt8) (opos : ℕ)
    (out : List UInt8) : Option (ℕ × List UInt8) :=
  if r < runLen ∧ opos < outSize then do
    let byte ← loadByte prev opos
    let written ← storeByte out opos byte
    copyRunChecked prev outSize runLen (r + 1) (opos + 1) written
  else some (opos, out)
termination_by outSize - opos

/-- The outer loop of the decoder: the return value, and the cursors and the output buffer when it
returns. -/
def decodeLoopChecked (prev delta : List UInt8) (outSize : ℕ) (s : Decoder) :
    Option (ℤ × Decoder) :=
  if s.dpos < delta.length ∧ s.opos < outSize then do
    let byte ← loadByte delta s.dpos
    if byte = 0 then
      if s.dpos + 1 ≥ delta.length then some (-1, { s with dpos := s.dpos + 1 })
      else do
        let runLen ← loadByte delta (s.dpos + 1)
        let (opos, out) ← copyRunChecked prev outSize runLen 0 s.opos s.out
        decodeLoopChecked prev delta outSize ⟨s.dpos + 2, opos, out⟩
    else do
      let old ← loadByte prev s.opos
      let out ← storeByte s.out s.opos (old ^^^ byte)
      decodeLoopChecked prev delta outSize ⟨s.dpos + 1, s.opos + 1, out⟩
  else some (toInt s.opos, s)
termination_by delta.length - s.dpos

/-- `lgx_net_delta_decode` into a given output buffer. -/
def lgxNetDeltaDecodeChecked (prev delta : List UInt8) (outSize : ℕ) (out : List UInt8) :
    Option (ℤ × Decoder) :=
  if delta.length = 0 ∨ outSize = 0 then some (-1, ⟨0, 0, out⟩)
  else decodeLoopChecked prev delta outSize ⟨0, 0, out⟩

/-! ## What the bytes mean -/

/-- The XOR values that the records of a delta stand for; `none` if it ends after a zero marker. -/
def expand : List UInt8 → Option (List UInt8)
  | [] => some []
  | byte :: rest =>
      if byte = 0 then
        match rest with
        | [] => none
        | runLen :: rest => (expand rest).map (List.replicate runLen.toNat 0 ++ ·)
      else (expand rest).map (byte :: ·)

@[simp] theorem expand_nil : expand [] = some [] := rfl

theorem expand_zero_cons (runLen : UInt8) (rest : List UInt8) :
    expand (0 :: runLen :: rest) = (expand rest).map (List.replicate runLen.toNat 0 ++ ·) := rfl

theorem expand_cons {byte : UInt8} (hbyte : byte ≠ 0) (rest : List UInt8) :
    expand (byte :: rest) = (expand rest).map (byte :: ·) := by
  rw [expand.eq_def]
  exact if_neg hbyte

/-- Whole records can be expanded one after the other. -/
theorem expand_append {front values : List UInt8} (hfront : expand front = some values)
    (rest : List UInt8) : expand (front ++ rest) = (expand rest).map (values ++ ·) := by
  fun_induction expand front generalizing values with
  | case1 =>
      obtain rfl : [] = values := Option.some.inj hfront
      simp
  | case2 => cases hfront
  | case3 runLen front ih =>
      obtain ⟨tail, htail, rfl⟩ := Option.map_eq_some_iff.mp hfront
      simp [expand_zero_cons, ih htail, Function.comp_def]
  | case4 byte front hbyte ih =>
      obtain ⟨tail, htail, rfl⟩ := Option.map_eq_some_iff.mp hfront
      simp [expand_cons hbyte, ih htail, Function.comp_def]

theorem expand_append_run {front values : List UInt8} (hfront : expand front = some values)
    (runLen : UInt8) :
    expand (front ++ [0, runLen]) = some (values ++ List.replicate runLen.toNat 0) := by
  rw [expand_append hfront, expand_zero_cons]
  simp

theorem expand_append_byte {front values : List UInt8} (hfront : expand front = some values)
    {byte : UInt8} (hbyte : byte ≠ 0) : expand (front ++ [byte]) = some (values ++ [byte]) := by
  rw [expand_append hfront, expand_cons hbyte]
  simp

/-- No whole records end after a zero marker. -/
theorem expand_append_marker {front values : List UInt8} (hfront : expand front = some values) :
    expand (front ++ [0]) = none := by
  rw [expand_append hfront]
  rfl

/-! ## What the decoder has written -/

section

variable {α β γ : Type*} (f : α → β → γ)

theorem zipWith_concat {as : List α} {bs : List β} (b : β) (hlt : bs.length < as.length) :
    List.zipWith f as (bs ++ [b]) = List.zipWith f as bs ++ [f as[bs.length] b] := by
  induction bs generalizing as with
  | nil =>
      cases as with
      | nil => simp at hlt
      | cons a as => simp
  | cons head bs ih =>
      cases as with
      | nil => simp at hlt
      | cons a as => simpa using ih (by simpa using hlt)

theorem zipWith_append_of_length_le {as : List α} {bs : List β} (more : List β)
    (hle : as.length ≤ bs.length) :
    List.zipWith f as (bs ++ more) = List.zipWith f as bs := by
  induction bs generalizing as with
  | nil =>
      obtain rfl : as = [] := List.length_eq_zero_iff.mp (by simpa using hle)
      simp
  | cons head bs ih =>
      cases as with
      | nil => simp
      | cons a as => simpa using ih (by simpa using hle)

end

/-- The output buffer, `opos` bytes into it, after decoding records that expand to `values`: `prev`
XORed with them as far as the buffer goes, then the bytes it had before. -/
structure Decoded (prev before values : List UInt8) (opos : ℕ) (out : List UInt8) : Prop where
  opos_eq : opos = min prev.length values.length
  out_eq : out = List.zipWith (· ^^^ ·) prev values ++ before.drop opos

section

variable {prev before values out : List UInt8} {opos : ℕ}

theorem Decoded.start (prev before : List UInt8) : Decoded prev before [] 0 before :=
  ⟨by simp, by simp⟩

/-- One more value, written behind the bytes that are there. -/
theorem Decoded.store (h : Decoded prev before values opos out)
    (hbefore : before.length = prev.length) (hroom : opos < prev.length) (value : UInt8) :
    ∃ old written, loadByte prev opos = some old ∧
      storeByte out opos (old ^^^ value) = some written ∧
      Decoded prev before (values ++ [value]) (opos + 1) written := by
  have hopos : opos = values.length := by
    have := h.opos_eq
    omega
  have hzip : (List.zipWith (· ^^^ ·) prev values).length = opos := by
    rw [List.length_zipWith]
    exact h.opos_eq.symm
  have hwithin : opos < before.length := by omega
  have hdrop : before.drop opos = before[opos] :: before.drop (opos + 1) :=
    List.drop_eq_getElem_cons hwithin
  have hlength : opos < out.length := by
    rw [h.out_eq, List.length_append, hzip, hdrop, List.length_cons]
    omega
  refine ⟨prev[opos], out.set opos (prev[opos] ^^^ value), List.getElem?_eq_getElem hroom,
    if_pos hlength, ⟨?_, ?_⟩⟩
  · simp only [List.length_append, List.length_cons, List.length_nil]
    omega
  · have hnext : List.zipWith (· ^^^ ·) prev (values ++ [value]) =
        List.zipWith (· ^^^ ·) prev values ++ [prev[opos] ^^^ value] := by
      subst hopos
      exact zipWith_concat _ value hroom
    rw [h.out_eq, List.set_append_right _ _ (by omega), hzip, Nat.sub_self, hdrop, hnext,
      List.set_cons_zero, List.append_assoc, List.singleton_append]

/-- Past the end of the buffer nothing is written any more. -/
theorem Decoded.full (h : Decoded prev before values opos out) (hfull : prev.length ≤ opos)
    (more : List UInt8) : Decoded prev before (values ++ more) opos out := by
  have hopos := h.opos_eq
  refine ⟨?_, ?_⟩
  · rw [List.length_append]
    omega
  · rw [zipWith_append_of_length_le _ more (by omega)]
    exact h.out_eq

theorem Decoded.length_out (h : Decoded prev before values opos out)
    (hbefore : before.length = prev.length) : out.length = prev.length := by
  have hopos := h.opos_eq
  rw [h.out_eq, List.length_append, List.length_zipWith, List.length_drop]
  omega

theorem Decoded.take_out (h : Decoded prev before values opos out) :
    out.take opos = List.zipWith (· ^^^ ·) prev values := by
  have hzip : (List.zipWith (· ^^^ ·) prev values).length = opos := by
    rw [List.length_zipWith]
    exact h.opos_eq.symm
  rw [h.out_eq, List.take_append_of_le_length (by omega), List.take_of_length_le (by omega)]

theorem Decoded.drop_out (h : Decoded prev before values opos out) :
    out.drop opos = before.drop opos := by
  have hzip : (List.zipWith (· ^^^ ·) prev values).length = opos := by
    rw [List.length_zipWith]
    exact h.opos_eq.symm
  conv_lhs => rw [h.out_eq]
  rw [List.drop_append, List.drop_of_length_le (by omega), hzip]
  simp

/-- The run loop copies the whole run, or as much of it as there is room for. -/
theorem copyRunChecked_spec {runLen r : UInt8} {count : ℕ}
    (hcount : r.toNat + count = runLen.toNat) (hbefore : before.length = prev.length)
    (h : Decoded prev before values opos out) :
    ∃ opos' out', copyRunChecked prev prev.length runLen r opos out = some (opos', out') ∧
      Decoded prev before (values ++ List.replicate count 0) opos' out' := by
  induction count generalizing r opos out values with
  | zero =>
      have hdone : ¬ (r < runLen ∧ opos < prev.length) := by
        rw [UInt8.lt_iff_toNat_lt]
        omega
      refine ⟨opos, out, ?_, by simpa using h⟩
      rw [copyRunChecked, if_neg hdone]
  | succ count ih =>
      by_cases hroom : opos < prev.length
      · have hlt : r < runLen := by
          rw [UInt8.lt_iff_toNat_lt]
          omega
        have hsucc : (r + 1).toNat = r.toNat + 1 := by
          have := runLen.toNat_lt
          rw [UInt8.toNat_add]
          simp
          omega
        obtain ⟨old, written, hload, hstore, hnext⟩ := h.store hbefore hroom 0
        obtain ⟨opos', out', hrun, hdecoded⟩ := ih (r := r + 1) (by omega) hnext
        refine ⟨opos', out', ?_, ?_⟩
        · rw [copyRunChecked, if_pos ⟨hlt, hroom⟩, hload]
          rw [UInt8.xor_zero] at hstore
          simp [hstore, hrun]
        · rwa [List.append_assoc, List.singleton_append, ← List.replicate_succ] at hdecoded
      · refine ⟨opos, out, ?_, h.full (by omega) _⟩
        rw [copyRunChecked, if_neg fun hcont => hroom hcont.2]

/-- How the decoder stops on `delta`: behind a zero marker that ends it, with room left for output,
or behind whole records with the delta or the room used up. -/
inductive Stopped (prev delta before : List UInt8) : ℤ → Decoder → Prop
  | malformed {front values : List UInt8} {s : Decoder} (hdelta : delta = front ++ [0])
      (hfront : expand front = some values) (hroom : values.length < prev.length)
      (hdpos : s.dpos = delta.length) (hout : Decoded prev before values s.opos s.out) :
      Stopped prev delta before (-1) s
  | done {values : List UInt8} {s : Decoder} (hdpos : s.dpos ≤ delta.length)
      (hconsumed : expand (delta.take s.dpos) = some values)
      (hstop : s.dpos = delta.length ∨ s.opos = prev.length)
      (hout : Decoded prev before values s.opos s.out) :
      Stopped prev delta before (toInt s.opos) s

/-- The decoder, behind whole records it has decoded, goes on to one of its two ends. -/
theorem decodeLoopChecked_spec {delta : List UInt8} {s : Decoder} {front rest : List UInt8}
    (hbefore : before.length = prev.length) (hdelta : delta = front ++ rest)
    (hdpos : s.dpos = front.length) (hfront : expand front = some values)
    (h : Decoded prev before values s.opos s.out) :
    ∃ result final, decodeLoopChecked prev delta prev.length s = some (result, final) ∧
      Stopped prev delta before result final := by
  induction hsize : rest.length using Nat.strong_induction_on
    generalizing s front rest values with
  | _ size ih =>
    have hlength : delta.length = front.length + rest.length := by
      rw [hdelta, List.length_append]
    by_cases hcont : s.dpos < delta.length ∧ s.opos < prev.length
    · obtain ⟨byte, rest, rfl⟩ : ∃ byte rest', rest = byte :: rest' :=
        List.exists_cons_of_length_pos (by omega)
      have hload : loadByte delta s.dpos = some byte := by
        simp [loadByte, hdelta, hdpos]
      have hopos := h.opos_eq
      by_cases hbyte : byte = 0
      · subst hbyte
        cases rest with
        | nil =>
            refine ⟨-1, { s with dpos := s.dpos + 1 }, ?_,
              .malformed hdelta hfront (by omega) (by simp at hlength ⊢; omega) h⟩
            rw [decodeLoopChecked, if_pos hcont]
            simp only [List.length_cons, List.length_nil] at hlength
            simp [hload]
            omega
        | cons runLen rest =>
            have hloadRun : loadByte delta (s.dpos + 1) = some runLen := by
              simp [loadByte, hdelta, hdpos]
            have hmore : ¬ s.dpos + 1 ≥ delta.length := by
              simp only [List.length_cons] at hlength
              omega
            have hcount : (0 : UInt8).toNat + runLen.toNat = runLen.toNat := by simp
            obtain ⟨opos, out, hrun, hdecoded⟩ := copyRunChecked_spec hcount hbefore h
            obtain ⟨result, final, hloop, hstopped⟩ :=
              ih rest.length (by simp at hsize; omega) (s := ⟨s.dpos + 2, opos, out⟩)
                (show delta = (front ++ [0, runLen]) ++ rest by simp [hdelta])
                (by simp [hdpos]) (expand_append_run hfront runLen) hdecoded rfl
            refine ⟨result, final, ?_, hstopped⟩
            rw [decodeLoopChecked, if_pos hcont]
            simp [hload, hloadRun, hmore, hrun, hloop]
      · obtain ⟨old, written, hold, hstore, hnext⟩ := h.store hbefore hcont.2 byte
        obtain ⟨result, final, hloop, hstopped⟩ :=
          ih rest.length (by simp at hsize; omega) (s := ⟨s.dpos + 1, s.opos + 1, written⟩)
            (show delta = (front ++ [byte]) ++ rest by simp [hdelta])
            (by simp [hdpos]) (expand_append_byte hfront hbyte) hnext rfl
        refine ⟨result, final, ?_, hstopped⟩
        rw [decodeLoopChecked, if_pos hcont]
        simp [hload, hbyte, hold, hstore, hloop]
    · refine ⟨toInt s.opos, s, ?_, .done (by omega) ?_ ?_ h⟩
      · rw [decodeLoopChecked, if_neg hcont]
      · rw [hdelta, hdpos, List.take_left' rfl]
        exact hfront
      · have := h.opos_eq
        omega

/-- The two ways to stop exclude each other. -/
theorem Stopped.eq_neg_one_iff {delta : List UInt8} {result : ℤ} {final : Decoder}
    (h : Stopped prev delta before result final) (hmax : prev.length ≤ intMax) :
    result = -1 ↔ ∃ front values : List UInt8, delta = front ++ [0] ∧
      expand front = some values ∧ values.length < prev.length := by
  cases h with
  | malformed hdelta hfront hroom hdpos hout =>
      exact ⟨fun _ => ⟨_, _, hdelta, hfront, hroom⟩, fun _ => rfl⟩
  | done hdpos hconsumed hstop hout =>
      rename_i consumed
      have hopos := hout.opos_eq
      have hresult : toInt final.opos = (final.opos : ℤ) := toInt_of_le (by omega)
      refine ⟨fun h => by omega, ?_⟩
      rintro ⟨front, values, rfl, hfront, hroom⟩
      rcases Nat.lt_or_eq_of_le hdpos with hlt | hend
      · -- the output was full inside `front`, which therefore expands to too many bytes
        rw [List.length_append, List.length_singleton] at hlt hstop
        rw [List.take_append_of_le_length (by omega)] at hconsumed
        have hwhole := expand_append hconsumed (front.drop final.dpos)
        rw [List.take_append_drop, hfront] at hwhole
        obtain ⟨tail, -, rfl⟩ := Option.map_eq_some_iff.mp hwhole.symm
        rw [List.length_append] at hroom
        omega
      · rw [hend, List.take_length, expand_append_marker hfront] at hconsumed
        cases hconsumed

end

/-! ## The decoder of `Delta.lean` -/

theorem loadByte_eq_some {buffer : List UInt8} {i : ℕ} {byte : UInt8}
    (h : loadByte buffer i = some byte) : buffer.getD i 0 = byte := by
  rw [List.getD_eq_getElem?_getD, show buffer[i]? = some byte from h, Option.getD_some]

theorem storeByte_eq_some {buffer written : List UInt8} {i : ℕ} {byte : UInt8}
    (h : storeByte buffer i byte = some written) :
    i + 1 ≤ written.length ∧ written.take (i + 1) = buffer.take i ++ [byte] := by
  obtain ⟨hlt, rfl⟩ : i < buffer.length ∧ buffer.set i byte = written := by
    simpa [storeByte] using h
  refine ⟨by rwa [List.length_set], ?_⟩
  rw [List.take_add_one, List.take_set_of_le le_rfl, List.getElem?_set_self hlt]
  rfl

/-- The bytes in front of the cursor are the list that `copyRun` builds. -/
theorem copyRun_of_checked {prev : List UInt8} {outSize : ℕ} {runLen r : UInt8} {opos opos' : ℕ}
    {out out' : List UInt8}
    (h : copyRunChecked prev outSize runLen r opos out = some (opos', out'))
    (hopos : opos ≤ out.length) :
    copyRun prev outSize runLen r (out.take opos) = out'.take opos' ∧ opos' ≤ out'.length := by
  fun_induction copyRunChecked prev outSize runLen r opos out with
  | case1 r opos out hcont ih =>
      obtain ⟨byte, hload, h⟩ := Option.bind_eq_some_iff.mp h
      obtain ⟨written, hstore, h⟩ := Option.bind_eq_some_iff.mp h
      obtain ⟨hlength, htake⟩ := storeByte_eq_some hstore
      have hcursor : (out.take opos).length = opos := List.length_take_of_le hopos
      rw [copyRun, if_pos (by rwa [hcursor]), hcursor, loadByte_eq_some hload, ← htake]
      exact ih written h hlength
  | case2 r opos out hdone =>
      obtain ⟨rfl, rfl⟩ : opos = opos' ∧ out = out' := by simpa using h
      have hcursor : (out.take opos).length = opos := List.length_take_of_le hopos
      rw [copyRun, if_neg (by rwa [hcursor])]
      exact ⟨rfl, hopos⟩

/-- The two decoders agree: they fail together, and otherwise the list of the one is what the other
has in its buffer in front of the cursor. -/
theorem decodeLoop_of_checked {prev delta : List UInt8} {outSize : ℕ} {s final : Decoder}
    {result : ℤ} (h : decodeLoopChecked prev delta outSize s = some (result, final))
    (hopos : s.opos ≤ s.out.length) :
    (decodeLoop prev delta outSize s.dpos (s.out.take s.opos) = none ∧ result = -1) ∨
      (decodeLoop prev delta outSize s.dpos (s.out.take s.opos) =
          some (final.out.take final.opos) ∧
        result = toInt final.opos ∧ final.opos ≤ final.out.length) := by
  fun_induction decodeLoopChecked prev delta outSize s with
  | case1 s hcont ihRun ihByte =>
      have hcursor : (s.out.take s.opos).length = s.opos := List.length_take_of_le hopos
      obtain ⟨byte, hload, h⟩ := Option.bind_eq_some_iff.mp h
      rw [decodeLoop, hcursor, if_pos hcont, loadByte_eq_some hload]
      by_cases hbyte : byte = 0
      · rw [if_pos hbyte] at h ⊢
        by_cases hend : s.dpos + 1 ≥ delta.length
        · rw [if_pos hend] at h ⊢
          exact Or.inl ⟨rfl, (Prod.mk.inj (Option.some.inj h)).1.symm⟩
        · rw [if_neg hend] at h ⊢
          obtain ⟨runLen, hloadRun, h⟩ := Option.bind_eq_some_iff.mp h
          obtain ⟨⟨opos, out⟩, hrun, h⟩ := Option.bind_eq_some_iff.mp h
          obtain ⟨hcopy, hlength⟩ := copyRun_of_checked hrun hopos
          rw [loadByte_eq_some hloadRun, hcopy]
          exact ihRun hend opos out h hlength
      · rw [if_neg hbyte] at h ⊢
        obtain ⟨old, hold, h⟩ := Option.bind_eq_some_iff.mp h
        obtain ⟨out, hstore, h⟩ := Option.bind_eq_some_iff.mp h
        obtain ⟨hlength, htake⟩ := storeByte_eq_some hstore
        rw [loadByte_eq_some hold, ← htake]
        exact ihByte out h hlength
  | case2 s hdone =>
      have hcursor : (s.out.take s.opos).length = s.opos := List.length_take_of_le hopos
      obtain ⟨rfl, rfl⟩ : toInt s.opos = result ∧ s = final := by simpa using h
      rw [decodeLoop, hcursor, if_neg hdone]
      exact Or.inr ⟨rfl, rfl, hopos⟩

/-- `lgxNetDeltaDecode` returns what the decoder over memory returns, and its bytes are in front of
the buffer. -/
theorem lgxNetDeltaDecode_of_checked {prev delta out : List UInt8} {outSize : ℕ} {result : ℤ}
    {final : Decoder}
    (h : lgxNetDeltaDecodeChecked prev delta outSize out = some (result, final)) :
    (lgxNetDeltaDecode prev delta outSize).1 = result ∧
      (lgxNetDeltaDecode prev delta outSize).2 <+: final.out := by
  unfold lgxNetDeltaDecodeChecked at h
  unfold lgxNetDeltaDecode
  by_cases hempty : delta.length = 0 ∨ outSize = 0
  · rw [if_pos hempty] at h ⊢
    exact ⟨(Prod.mk.inj (Option.some.inj h)).1, List.nil_prefix⟩
  · rw [if_neg hempty] at h ⊢
    rcases decodeLoop_of_checked h (Nat.zero_le _) with ⟨hloop, hresult⟩ | ⟨hloop, hresult, hlength⟩
    · simp only [List.take_zero] at hloop
      rw [hloop]
      exact ⟨hresult.symm, List.nil_prefix⟩
    · simp only [List.take_zero] at hloop
      rw [hloop, hresult]
      refine ⟨?_, List.take_prefix _ _⟩
      simp only [List.length_take_of_le hlength]

/-! ## Arbitrary input -/

/-- For every `prev` and output buffer of `out_size` bytes and every non-empty delta the decoder
returns without a fault.  It returns `-1` exactly when the delta ends behind a zero marker and the
records before it leave room in the output; otherwise it returns the number of bytes decoded, which
are `prev` XORed with the expansion of the part of the delta it consumed.  It consumes all of the
delta unless the output is full, and leaves the output behind the decoded bytes as it was. -/
theorem lgxNetDeltaDecodeChecked_total (prev delta out : List UInt8) (hsize : 1 ≤ prev.length)
    (hmax : prev.length ≤ intMax) (hout : out.length = prev.length) (hdelta : delta ≠ []) :
    ∃ (result : ℤ) (final : Decoder),
      lgxNetDeltaDecodeChecked prev delta prev.length out = some (result, final) ∧
      final.out.length = prev.length ∧
      final.out.drop final.opos = out.drop final.opos ∧
      (result = -1 ↔ ∃ front values : List UInt8, delta = front ++ [0] ∧
        expand front = some values ∧ values.length < prev.length) ∧
      (result ≠ -1 → ∃ values : List UInt8,
        result = (final.opos : ℤ) ∧ final.opos ≤ prev.length ∧ final.dpos ≤ delta.length ∧
        (final.dpos = delta.length ∨ final.opos = prev.length) ∧
        expand (delta.take final.dpos) = some values ∧
        final.opos = min prev.length values.length ∧
        final.out.take final.opos = List.zipWith (· ^^^ ·) prev values) := by
  have hlength : delta.length ≠ 0 := List.length_eq_zero_iff.not.mpr hdelta
  obtain ⟨result, final, hloop, hstopped⟩ :=
    decodeLoopChecked_spec (s := ⟨0, 0, out⟩) hout (List.nil_append delta).symm rfl expand_nil
      (Decoded.start prev out)
  refine ⟨result, final, ?_, ?_, ?_, hstopped.eq_neg_one_iff hmax, fun hresult => ?_⟩
  · rw [lgxNetDeltaDecodeChecked, if_neg (by omega)]
    exact hloop
  · cases hstopped with
    | malformed _ _ _ _ hdecoded => exact hdecoded.length_out hout
    | done _ _ _ hdecoded => exact hdecoded.length_out hout
  · cases hstopped with
    | malformed _ _ _ _ hdecoded => exact hdecoded.drop_out
    | done _ _ _ hdecoded => exact hdecoded.drop_out
  · cases hstopped with
    | malformed => exact absurd rfl hresult
    | done hdpos hconsumed hstop hdecoded =>
        have hopos := hdecoded.opos_eq
        exact ⟨_, toInt_of_le (by omega), by omega, hdpos, hstop, hconsumed, hopos,
          hdecoded.take_out⟩

/-- A delta that breaks off behind a zero marker while the second byte is still missing. -/
theorem lgxNetDeltaDecodeChecked_total_truncated :
    ∃ final : Decoder, lgxNetDeltaDecodeChecked [1, 2] [7, 0] 2 [9, 9] = some (-1, final) := by
  obtain ⟨result, final, hdecode, -, -, hfailed, -⟩ :=
    lgxNetDeltaDecodeChecked_total [1, 2] [7, 0] [9, 9] (by decide) (by decide) (by decide)
      (by decide)
  obtain rfl := hfailed.mpr ⟨[7], [7], rfl, rfl, by decide⟩
  exact ⟨final, hdecode⟩

end LgxRuntime.Net
