import LgxRuntime.Asset.Compress

/-!
# Decompressing bytes that may be malformed

`lgx_asset_decompress` takes any bytes.  Here it is embedded a second time with its two buffers as
memory: a load or a store outside a buffer is a fault (`none`), so a run that does not fault made
every access in bounds.  The loop over memory does what the loop of `Compress` does on lists
(`decompressLoopChecked_spec`), and that one accepts the concatenations of commands whose expansions
fit, and nothing else: `decompressLoop_commands` is the one direction, `commands_of_decompressLoop`
the other.
-/

namespace LgxRuntime.Asset

open LittleEndian

/-! ## The decompressor over memory -/

/-- A read of `len` bytes from `buffer + i`; a fault unless all of them are in the buffer. -/
def loadBytes (buffer : List UInt8) (i len : ℕ) : Option (List UInt8) :=
  if i + len ≤ buffer.length then some ((buffer.drop i).take len) else none

/-- A write of `bytes` to `buffer + i`; a fault unless all of them are in the buffer. -/
def storeBytes (buffer : List UInt8) (i : ℕ) (bytes : List UInt8) : Option (List UInt8) :=
  if i + bytes.length ≤ buffer.length then
    some (buffer.take i ++ bytes ++ buffer.drop (i + bytes.length))
  else none

/-- The loop of the decompressor: the return value and the output buffer when it returns. -/
def decompressLoopChecked (src : List UInt8) (maxOut si di : ℕ) (out : List UInt8) :
    Option (ℤ × List UInt8) :=
  if si < src.length then do
    let tag ← src[si]?
    if tag = 0 then
      if si + 1 + 2 > src.length then some (-1, out)
      else do
        let lo ← src[si + 1]?
        let hi ← src[si + 2]?
        if si + 3 + u16 lo hi > src.length ∨ di + u16 lo hi > maxOut then some (-1, out)
        else do
          -- memcpy
          let bytes ← loadBytes src (si + 3) (u16 lo hi)
          let written ← storeBytes out di bytes
          decompressLoopChecked src maxOut (si + 3 + u16 lo hi) (di + u16 lo hi) written
    else if tag = 1 then
      if si + 1 + 3 > src.length then some (-1, out)
      else do
        let byte ← src[si + 1]?
        let lo ← src[si + 2]?
        let hi ← src[si + 3]?
        if di + u16 lo hi > maxOut then some (-1, out)
        else do
          -- memset
          let written ← storeBytes out di (List.replicate (u16 lo hi) byte)
          decompressLoopChecked src maxOut (si + 4) (di + u16 lo hi) written
    else some (-1, out)
  else some (toInt di, out)
termination_by src.length - si

/-- `lgx_asset_decompress` into a given output buffer. -/
def lgxAssetDecompressChecked (data : List UInt8) (maxOut : ℕ) (out : List UInt8) :
    Option (ℤ × List UInt8) :=
  if data.length = 0 ∨ maxOut = 0 then some (-1, out)
  else decompressLoopChecked data maxOut 0 0 out

/-! ## What the loop accepts -/

/-- Any two bytes are the field of some count. -/
theorem bytes_u16 (lo hi : UInt8) : lowByte (u16 lo hi) = lo ∧ highByte (u16 lo hi) = hi := by
  have hlo := lo.toNat_lt
  have hhi := hi.toNat_lt
  rw [u16_eq]
  constructor
  · apply UInt8.toNat_inj.mp
    rw [toNat_lowByte]
    omega
  · apply UInt8.toNat_inj.mp
    rw [toNat_highByte]
    omega

theorem u16_lt (lo hi : UInt8) : u16 lo hi < 2 ^ 16 := by
  have hlo := lo.toNat_lt
  have hhi := hi.toNat_lt
  rw [u16_eq]
  omega

theorem drop_eq_getD_cons {src : List UInt8} {i : ℕ} (hi : i < src.length) :
    src.drop i = src.getD i 0 :: src.drop (i + 1) := by
  rw [List.drop_eq_getElem_cons hi]
  simp [List.getD_eq_getElem?_getD, hi]

/-- A literal command that fits the input stands in front of what follows it. -/
theorem drop_eq_literal {src : List UInt8} {si : ℕ} (htag : src.getD si 0 = 0)
    (hfits : si + 3 + u16At src (si + 1) ≤ src.length) :
    src.drop si = (Command.literal ((src.drop (si + 3)).take (u16At src (si + 1)))).emit ++
      src.drop (si + 3 + u16At src (si + 1)) := by
  have hlength : ((src.drop (si + 3)).take (u16At src (si + 1))).length = u16At src (si + 1) := by
    rw [List.length_take, List.length_drop]
    omega
  obtain ⟨hlo, hhi⟩ := bytes_u16 (src.getD (si + 1) 0) (src.getD (si + 1 + 1) 0)
  have hsplit : src.drop (si + 3) = (src.drop (si + 3)).take (u16At src (si + 1)) ++
      src.drop (si + 3 + u16At src (si + 1)) := by
    have happend := List.take_append_drop (u16At src (si + 1)) (src.drop (si + 3))
    rw [List.drop_drop] at happend
    exact happend.symm
  rw [drop_eq_getD_cons (by omega), drop_eq_getD_cons (by omega), drop_eq_getD_cons (by omega), htag]
  simp only [Command.emit, hlength, List.cons_append, List.nil_append]
  rw [← hsplit, u16At, hlo, hhi]

/-- So does a command for a repeated byte. -/
theorem drop_eq_repeated {src : List UInt8} {si : ℕ} (htag : src.getD si 0 = 1)
    (hfits : si + 4 ≤ src.length) :
    src.drop si = (Command.repeated (src.getD (si + 1) 0) (u16At src (si + 2))).emit ++
      src.drop (si + 4) := by
  obtain ⟨hlo, hhi⟩ := bytes_u16 (src.getD (si + 2) 0) (src.getD (si + 2 + 1) 0)
  rw [drop_eq_getD_cons (by omega), drop_eq_getD_cons (by omega), drop_eq_getD_cons (by omega),
    drop_eq_getD_cons (by omega), htag]
  simp only [Command.emit]
  rw [u16At, hlo, hhi]
  simp

/-- What the loop accepts is a concatenation of commands, and it writes their expansions. -/
theorem commands_of_decompressLoop {src out final : List UInt8} {maxOut si : ℕ}
    (hsi : si ≤ src.length) (hout : out.length ≤ maxOut)
    (h : decompressLoop src maxOut si out = some final) :
    ∃ cs : List Command, (∀ c ∈ cs, c.field < 2 ^ 16) ∧ src.drop si = cs.flatMap Command.emit ∧
      final = out ++ cs.flatMap Command.expand ∧ final.length ≤ maxOut := by
  fun_induction decompressLoop src maxOut si out with
  | case1 => cases h
  | case2 => cases h
  | case3 si out hlt htag hshort hfits ih =>
      have hlength : ((src.drop (si + 3)).take (u16At src (si + 1))).length =
          u16At src (si + 1) := by
        rw [List.length_take, List.length_drop]
        omega
      obtain ⟨cs, hfield, hdrop, hfinal, hle⟩ := ih (by omega)
        (by rw [List.length_append, hlength]; omega) h
      refine ⟨.literal ((src.drop (si + 3)).take (u16At src (si + 1))) :: cs, ?_, ?_, ?_, hle⟩
      · refine List.forall_mem_cons.mpr ⟨?_, hfield⟩
        rw [Command.field, hlength]
        exact u16_lt _ _
      · rw [drop_eq_literal htag (by omega), hdrop, List.flatMap_cons]
      · rw [hfinal, List.flatMap_cons, Command.expand, List.append_assoc]
  | case4 => cases h
  | case5 => cases h
  | case6 si out hlt hzero htag hshort hroom ih =>
      obtain ⟨cs, hfield, hdrop, hfinal, hle⟩ := ih (by omega)
        (by rw [List.length_append, List.length_replicate]; omega) h
      refine ⟨.repeated (src.getD (si + 1) 0) (u16At src (si + 2)) :: cs, ?_, ?_, ?_, hle⟩
      · exact List.forall_mem_cons.mpr ⟨u16_lt _ _, hfield⟩
      · rw [drop_eq_repeated htag (by omega), hdrop, List.flatMap_cons]
      · rw [hfinal, List.flatMap_cons, Command.expand, List.append_assoc]
  | case7 => cases h
  | case8 si out hend =>
      obtain rfl := Option.some.inj h
      exact ⟨[], by simp, List.drop_eq_nil_of_le (by omega), by simp, hout⟩

/-! ## The loop over memory -/

theorem getElem?_eq_getD {src : List UInt8} {i : ℕ} (hi : i < src.length) :
    src[i]? = some (src.getD i 0) := by
  simp [List.getD_eq_getElem?_getD, hi]

section

variable {src out : List UInt8} {maxOut si di : ℕ}

/-- One iteration at a literal command: only the store can fault. -/
theorem decompressLoopChecked_literal (hsi : si < src.length) (htag : src.getD si 0 = 0) :
    decompressLoopChecked src maxOut si di out =
      if si + 1 + 2 > src.length then some (-1, out)
      else if si + 3 + u16At src (si + 1) > src.length ∨ di + u16At src (si + 1) > maxOut then
        some (-1, out)
      else
        (storeBytes out di ((src.drop (si + 3)).take (u16At src (si + 1)))).bind
          (decompressLoopChecked src maxOut (si + 3 + u16At src (si + 1)) (di + u16At src (si + 1))) := by
  have hfield : u16 (src.getD (si + 1) 0) (src.getD (si + 2) 0) = u16At src (si + 1) := rfl
  rw [decompressLoopChecked, if_pos hsi, getElem?_eq_getD hsi]
  simp only [Option.bind_eq_bind, Option.bind_some, if_pos htag]
  by_cases hshort : si + 1 + 2 > src.length
  · rw [if_pos hshort, if_pos hshort]
  · rw [if_neg hshort, if_neg hshort, getElem?_eq_getD (by omega), getElem?_eq_getD (by omega)]
    simp only [Option.bind_some, hfield]
    by_cases hfull : si + 3 + u16At src (si + 1) > src.length ∨ di + u16At src (si + 1) > maxOut
    · rw [if_pos hfull, if_pos hfull]
    · rw [if_neg hfull, if_neg hfull, loadBytes, if_pos (by omega), Option.bind_some]

/-- One iteration at a command for a repeated byte. -/
theorem decompressLoopChecked_repeated (hsi : si < src.length) (htag : src.getD si 0 = 1) :
    decompressLoopChecked src maxOut si di out =
      if si + 1 + 3 > src.length then some (-1, out)
      else if di + u16At src (si + 2) > maxOut then some (-1, out)
      else
        (storeBytes out di (List.replicate (u16At src (si + 2)) (src.getD (si + 1) 0))).bind
          (decompressLoopChecked src maxOut (si + 4) (di + u16At src (si + 2))) := by
  have hfield : u16 (src.getD (si + 2) 0) (src.getD (si + 3) 0) = u16At src (si + 2) := rfl
  have hzero : ¬ src.getD si 0 = 0 := by
    rw [htag]
    decide
  rw [decompressLoopChecked, if_pos hsi, getElem?_eq_getD hsi]
  simp only [Option.bind_eq_bind, Option.bind_some, if_neg hzero, if_pos htag]
  by_cases hshort : si + 1 + 3 > src.length
  · rw [if_pos hshort, if_pos hshort]
  · rw [if_neg hshort, if_neg hshort, getElem?_eq_getD (by omega), getElem?_eq_getD (by omega),
      getElem?_eq_getD (by omega)]
    simp only [Option.bind_some, hfield]

end

/-- A write behind what has been written already. -/
theorem storeBytes_append {front back bytes : List UInt8} (hroom : bytes.length ≤ back.length) :
    storeBytes (front ++ back) front.length bytes =
      some (front ++ bytes ++ back.drop bytes.length) := by
  rw [storeBytes, if_pos (by rw [List.length_append]; omega), List.take_left, List.drop_append]
  simp

/-- What is left of the buffer behind the output, before and after a write. -/
theorem drop_written {src front back bytes written : List UInt8} {maxOut si : ℕ}
    (hsi : si ≤ src.length) (hfits : (front ++ bytes).length ≤ maxOut)
    (h : decompressLoop src maxOut si (front ++ bytes) = some written) :
    (back.drop bytes.length).drop (written.length - (front ++ bytes).length) =
      back.drop (written.length - front.length) := by
  obtain ⟨cs, -, -, rfl, -⟩ := commands_of_decompressLoop hsi hfits h
  rw [List.drop_drop]
  congr 1
  simp only [List.length_append]
  omega

/-- The loop over memory returns without a fault, fails where the loop on lists does, and otherwise has
written in front of the buffer what that one returns. -/
theorem decompressLoopChecked_spec {src front back : List UInt8} {maxOut si : ℕ}
    (hsi : si ≤ src.length) (hmax : front.length + back.length = maxOut) :
    ∃ result final, decompressLoopChecked src maxOut si front.length (front ++ back) =
        some (result, final) ∧ final.length = maxOut ∧
      (decompressLoop src maxOut si front = none → result = -1) ∧
      ∀ written, decompressLoop src maxOut si front = some written →
        result = toInt written.length ∧
        final = written ++ back.drop (written.length - front.length) := by
  have hlength : (front ++ back).length = maxOut := by rw [List.length_append, hmax]
  fun_induction decompressLoop src maxOut si front generalizing back with
  | case1 si front hlt htag hshort =>
      refine ⟨-1, front ++ back, ?_, hlength, fun _ => rfl, by simp⟩
      rw [decompressLoopChecked_literal hlt htag, if_pos hshort]
  | case2 si front hlt htag hshort hfull =>
      refine ⟨-1, front ++ back, ?_, hlength, fun _ => rfl, by simp⟩
      rw [decompressLoopChecked_literal hlt htag, if_neg hshort, if_pos hfull]
  | case3 si front hlt htag hshort hfits ih =>
      have hbytes : ((src.drop (si + 3)).take (u16At src (si + 1))).length = u16At src (si + 1) := by
        rw [List.length_take, List.length_drop]
        omega
      rw [decompressLoopChecked_literal hlt htag, if_neg hshort, if_neg hfits,
        storeBytes_append (by omega), Option.bind_some]
      have hmax' : (front ++ (src.drop (si + 3)).take (u16At src (si + 1))).length +
          (back.drop ((src.drop (si + 3)).take (u16At src (si + 1))).length).length = maxOut := by
        rw [List.length_append, List.length_drop]
        omega
      obtain ⟨result, final, hloop, hfinal, hnone, hsome⟩ :=
        ih (by omega) hmax' (by rw [List.length_append, hmax'])
      rw [List.length_append, hbytes] at hloop
      refine ⟨result, final, by rwa [hbytes], hfinal, hnone, fun written hwritten => ?_⟩
      rw [← drop_written (by omega) (by omega) hwritten]
      exact hsome written hwritten
  | case4 si front hlt hzero htag hshort =>
      refine ⟨-1, front ++ back, ?_, hlength, fun _ => rfl, by simp⟩
      rw [decompressLoopChecked_repeated hlt htag, if_pos hshort]
  | case5 si front hlt hzero htag hshort hfull =>
      refine ⟨-1, front ++ back, ?_, hlength, fun _ => rfl, by simp⟩
      rw [decompressLoopChecked_repeated hlt htag, if_neg hshort, if_pos hfull]
  | case6 si front hlt hzero htag hshort hroom ih =>
      have hbytes := @List.length_replicate _ (u16At src (si + 2)) (src.getD (si + 1) 0)
      rw [decompressLoopChecked_repeated hlt htag, if_neg hshort, if_neg hroom,
        storeBytes_append (by omega), Option.bind_some]
      have hmax' : (front ++ List.replicate (u16At src (si + 2)) (src.getD (si + 1) 0)).length +
          (back.drop (List.replicate (u16At src (si + 2)) (src.getD (si + 1) 0)).length).length =
            maxOut := by
        rw [List.length_append, List.length_drop]
        omega
      obtain ⟨result, final, hloop, hfinal, hnone, hsome⟩ :=
        ih (by omega) hmax' (by rw [List.length_append, hmax'])
      rw [List.length_append, hbytes] at hloop
      refine ⟨result, final, by rwa [hbytes], hfinal, hnone, fun written hwritten => ?_⟩
      rw [← drop_written (by omega) (by omega) hwritten]
      exact hsome written hwritten
  | case7 si front hlt hzero htag =>
      refine ⟨-1, front ++ back, ?_, hlength, fun _ => rfl, by simp⟩
      rw [decompressLoopChecked, if_pos hlt, getElem?_eq_getD hlt]
      simp only [Option.bind_eq_bind, Option.bind_some, if_neg hzero, if_neg htag]
  | case8 si front hend =>
      refine ⟨toInt front.length, front ++ back, ?_, hlength, by simp, fun written hwritten => ?_⟩
      · rw [decompressLoopChecked, if_neg hend]
      · obtain rfl := Option.some.inj hwritten
        simp

/-! ## Arbitrary input -/

/-- The concatenations of commands whose fields fit 16 bits. -/
def IsStream (cs : List Command) (data : List UInt8) : Prop :=
  (∀ c ∈ cs, c.field < 2 ^ 16) ∧ data = cs.flatMap Command.emit

/-- For every non-empty input and every output buffer of `1 ≤ max_out ≤ INT_MAX` bytes the decompressor
returns without a fault.  It does not return `-1` exactly when the input is a concatenation of commands
whose expansions fit the buffer; it then returns the number of bytes of the expansions, which are in
front of the buffer, and has left the rest of the buffer as it was. -/
theorem lgxAssetDecompressChecked_accepts (data out : List UInt8) (hdata : data ≠ [])
    (hout : 1 ≤ out.length) (hmax : out.length ≤ intMax) :
    ∃ (result : ℤ) (final : List UInt8),
      lgxAssetDecompressChecked data out.length out = some (result, final) ∧
      final.length = out.length ∧
      (result ≠ -1 ↔ ∃ cs : List Command, IsStream cs data ∧
        (cs.flatMap Command.expand).length ≤ out.length) ∧
      ∀ cs : List Command, IsStream cs data → (cs.flatMap Command.expand).length ≤ out.length →
        result = (cs.flatMap Command.expand).length ∧
        final = cs.flatMap Command.expand ++ out.drop (cs.flatMap Command.expand).length := by
  have hlength : data.length ≠ 0 := List.length_eq_zero_iff.not.mpr hdata
  obtain ⟨result, final, hloop, hfinal, hnone, hsome⟩ :=
    @decompressLoopChecked_spec data [] out out.length 0 (Nat.zero_le _) (Nat.zero_add _)
  have haccepts : ∀ cs : List Command, IsStream cs data →
      (cs.flatMap Command.expand).length ≤ out.length →
      result = (cs.flatMap Command.expand).length ∧
        final = cs.flatMap Command.expand ++ out.drop (cs.flatMap Command.expand).length := by
    intro cs hstream hroom
    have hcommands := @decompressLoop_commands cs out.length hstream.1 [] [] hroom
    rw [List.nil_append, List.nil_append, ← hstream.2] at hcommands
    obtain ⟨hresult, heq⟩ := hsome _ hcommands
    exact ⟨hresult.trans (toInt_of_le (hroom.trans hmax)), heq⟩
  refine ⟨result, final, ?_, hfinal, ⟨fun hresult => ?_, ?_⟩, haccepts⟩
  · rw [lgxAssetDecompressChecked, if_neg (by omega)]
    exact hloop
  · cases hwritten : decompressLoop data out.length 0 [] with
    | none => exact absurd (hnone hwritten) hresult
    | some written =>
        obtain ⟨cs, hfield, hdrop, rfl, hle⟩ :=
          commands_of_decompressLoop (Nat.zero_le _) (Nat.zero_le _) hwritten
        exact ⟨cs, ⟨hfield, hdrop⟩, hle⟩
  · rintro ⟨cs, hstream, hroom⟩
    have hresult := (haccepts cs hstream hroom).1
    omega

/-- Two literal bytes and three repetitions, into a buffer of six. -/
theorem lgxAssetDecompressChecked_accepts_five :
    ∃ final : List UInt8, lgxAssetDecompressChecked [0, 2, 0, 7, 8, 1, 9, 3, 0] 6 [0, 0, 0, 0, 0, 0] =
      some (5, final) ∧ final = [7, 8, 9, 9, 9, 0] := by
  obtain ⟨result, final, hcall, -, -, haccepts⟩ :=
    lgxAssetDecompressChecked_accepts [0, 2, 0, 7, 8, 1, 9, 3, 0] [0, 0, 0, 0, 0, 0] (by decide)
      (by decide) (by decide)
  obtain ⟨rfl, rfl⟩ := haccepts [.literal [7, 8], .repeated 9 3] ⟨by decide, by decide⟩ (by decide)
  exact ⟨_, hcall, rfl⟩

end LgxRuntime.Asset
