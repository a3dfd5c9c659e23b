import LgxRuntime.Machine
import LgxRuntime.Lib.LittleEndian
import Mathlib.Data.List.Basic
import Mathlib.Order.Basic

/-!
# Asset compression

`lgx_asset_compress` cuts its input into commands: a run of at least four equal bytes becomes
`0x01, byte, count`, everything between two runs becomes `0x00, length, bytes`, both counts being
16-bit fields.  Two different look-ahead tests decide where a run starts: the run counter of the
outer loop (`countRun`) and the four-byte window of the literal loop (`startsRun`).  The compressor
progresses because they agree, `four_le_countRun`.

The outer loop is embedded with a bound on its iterations, so that its termination is a statement
and not a side condition of the embedding; `compressLoop_eq` shows that one iteration for each input
byte is enough.
-/

namespace LgxRuntime.Asset

open LittleEndian

/-! ## The compressor -/

/-- The run counter: how many bytes from `si` on equal the byte at `si`, up to 65535. -/
def countRun (src : List UInt8) (si run : ℕ) : ℕ :=
  if si + run < src.length ∧ src.getD (si + run) 0 = src.getD si 0 ∧ run < 65535 then
    countRun src si (run + 1)
  else run
termination_by 65535 - run

/-- The four-byte window at which the literal loop stops. -/
def startsRun (src : List UInt8) (si : ℕ) : Bool :=
  si + 3 < src.length && src.getD si 0 == src.getD (si + 1) 0 &&
    src.getD (si + 1) 0 == src.getD (si + 2) 0 && src.getD (si + 2) 0 == src.getD (si + 3) 0

/-- The literal loop: the index at which the literal that began at `litStart` ends. -/
def literalEnd (src : List UInt8) (litStart si : ℕ) : ℕ :=
  if si < src.length then
    if startsRun src si then si
    else if si + 1 - litStart ≥ 65535 then si + 1
    else literalEnd src litStart (si + 1)
  else si
termination_by src.length - si

/-- What is known of the outer loop after a bounded number of iterations. -/
inductive LoopResult
  | running
  | failed
  | finished (out : List UInt8)
  deriving DecidableEq, Repr

/-- The outer loop of the compressor, for at most `fuel` iterations. -/
def compressLoop (src : List UInt8) (maxOut : ℕ) : ℕ → ℕ → List UInt8 → LoopResult
  | 0, si, out => if si < src.length then .running else .finished out
  | fuel + 1, si, out =>
      if si < src.length then
        let run := countRun src si 1
        if run ≥ 4 then
          if out.length + 4 > maxOut then .failed
          else
            compressLoop src maxOut fuel (si + run)
              (out ++ [1, src.getD si 0, lowByte run, highByte run])
        else
          let litEnd := literalEnd src si si
          let litLen := litEnd - si
          if out.length + 3 + litLen > maxOut then .failed
          else
            compressLoop src maxOut fuel litEnd
              (out ++ [0, lowByte litLen, highByte litLen] ++ (src.drop si).take litLen)
      else .finished out

/-- `lgx_asset_compress`, for at most `fuel` iterations of its outer loop: the return value and, on
success, the bytes written.  `none` means that the loop is still running. -/
def lgxAssetCompress (fuel : ℕ) (data : List UInt8) (maxOut : ℕ) : Option (ℤ × List UInt8) :=
  if data.length = 0 ∨ maxOut = 0 then some (-1, [])
  else
    match compressLoop data maxOut fuel 0 [] with
    | .running => none
    | .failed => some (-1, [])
    | .finished out => some (toInt out.length, out)

/-! ## The decompressor -/

/-- `src[i] | ((uint16_t)src[i+1] << 8)`. -/
def u16At (src : List UInt8) (i : ℕ) : ℕ :=
  u16 (src.getD i 0) (src.getD (i + 1) 0)

/-- The loop of the decompressor; `none` is `return -1`. -/
def decompressLoop (src : List UInt8) (maxOut si : ℕ) (out : List UInt8) : Option (List UInt8) :=
  if si < src.length then
    if src.getD si 0 = 0 then
      if si + 1 + 2 > src.length then none
      else if si + 3 + u16At src (si + 1) > src.length ∨
          out.length + u16At src (si + 1) > maxOut then none
      else
        decompressLoop src maxOut (si + 3 + u16At src (si + 1))
          (out ++ (src.drop (si + 3)).take (u16At src (si + 1)))
    else if src.getD si 0 = 1 then
      if si + 1 + 3 > src.length then none
      else if out.length + u16At src (si + 2) > maxOut then none
      else
        decompressLoop src maxOut (si + 4)
          (out ++ List.replicate (u16At src (si + 2)) (src.getD (si + 1) 0))
    else none
  else some out
termination_by src.length - si

/-- `lgx_asset_decompress` on the whole of `data`. -/
def lgxAssetDecompress (data : List UInt8) (maxOut : ℕ) : ℤ × List UInt8 :=
  if data.length = 0 ∨ maxOut = 0 then (-1, [])
  else
    match decompressLoop data maxOut 0 [] with
    | none => (-1, [])
    | some out => (toInt out.length, out)

/-! ## Commands -/

/-- One command of the compressed format. -/
inductive Command
  | literal (bytes : List UInt8)
  | repeated (byte : UInt8) (count : ℕ)
  deriving DecidableEq, Repr

/-- The value of the command's 16-bit field: a literal length or a repeat count. -/
def Command.field : Command → ℕ
  | .literal bytes => bytes.length
  | .repeated _ count => count

/-- The bytes of a command in the compressed stream. -/
def Command.emit : Command → List UInt8
  | .literal bytes => [0, lowByte bytes.length, highByte bytes.length] ++ bytes
  | .repeated byte count => [1, byte, lowByte count, highByte count]

/-- The bytes a command stands for. -/
def Command.expand : Command → List UInt8
  | .literal bytes => bytes
  | .repeated byte count => List.replicate count byte

@[simp] theorem Command.length_expand (c : Command) : c.expand.length = c.field := by
  cases c <;> simp [expand, field]

/-- The command that the compressor emits when it stands at `si`. -/
def commandAt (src : List UInt8) (si : ℕ) : Command :=
  if countRun src si 1 ≥ 4 then .repeated (src.getD si 0) (countRun src si 1)
  else .literal ((src.drop si).take (literalEnd src si si - si))

/-! ### Where a command ends -/

theorem le_countRun (src : List UInt8) (si run : ℕ) : run ≤ countRun src si run := by
  fun_induction countRun src si run with
  | case1 run hcont ih => omega
  | case2 run hstop => exact le_rfl

theorem countRun_le {src : List UInt8} {si run : ℕ} (hrun : run ≤ 65535)
    (hfits : si + run ≤ src.length) :
    countRun src si run ≤ 65535 ∧ si + countRun src si run ≤ src.length := by
  fun_induction countRun src si run with
  | case1 run hcont ih => exact ih (by omega) (by omega)
  | case2 run hstop => exact ⟨hrun, hfits⟩

theorem getD_eq_of_lt_countRun {src : List UInt8} {si run t : ℕ} (hle : run ≤ t)
    (hlt : t < countRun src si run) : src.getD (si + t) 0 = src.getD si 0 := by
  fun_induction countRun src si run with
  | case1 run hcont ih =>
      rcases Nat.lt_or_eq_of_le hle with hlt' | rfl
      · exact ih hlt' hlt
      · exact hcont.2.1
  | case2 run hstop => omega

/-- The two look-ahead tests agree: where the literal loop would stop, the run counter has seen a
run. -/
theorem four_le_countRun {src : List UInt8} {si : ℕ} (h : startsRun src si = true) :
    4 ≤ countRun src si 1 := by
  simp only [startsRun, Bool.and_eq_true, decide_eq_true_eq, beq_iff_eq] at h
  obtain ⟨⟨⟨hfits, h01⟩, h12⟩, h23⟩ := h
  rw [countRun, if_pos ⟨by omega, h01.symm, by omega⟩,
    countRun, if_pos ⟨by omega, by rw [h01, h12], by omega⟩,
    countRun, if_pos ⟨by omega, by rw [h01, h12, h23], by omega⟩]
  exact le_countRun src si 4

theorem le_literalEnd (src : List UInt8) (litStart si : ℕ) : si ≤ literalEnd src litStart si := by
  fun_induction literalEnd src litStart si with
  | case1 si hi hstarts => exact le_rfl
  | case2 si hi hstarts hcap => omega
  | case3 si hi hstarts hcap ih => omega
  | case4 si hi => exact le_rfl

theorem literalEnd_le {src : List UInt8} {litStart si : ℕ} (hi : si ≤ src.length)
    (hcap : si - litStart < 65535) :
    literalEnd src litStart si ≤ src.length ∧ literalEnd src litStart si - litStart ≤ 65535 := by
  fun_induction literalEnd src litStart si with
  | case1 si hlt hstarts => exact ⟨hi, by omega⟩
  | case2 si hlt hstarts hfull => exact ⟨by omega, by omega⟩
  | case3 si hlt hstarts hroom ih => exact ih (by omega) (by omega)
  | case4 si hge => exact ⟨hi, by omega⟩

theorem lt_literalEnd {src : List UInt8} {si : ℕ} (hi : si < src.length)
    (hstarts : startsRun src si = false) : si < literalEnd src si si := by
  rw [literalEnd, if_pos hi, hstarts, if_neg (by simp)]
  split
  · exact Nat.lt_succ_self si
  · exact le_literalEnd src si (si + 1)

theorem replicate_eq_take_drop {src : List UInt8} {si count : ℕ} (hfits : si + count ≤ src.length)
    (hsame : ∀ t < count, src.getD (si + t) 0 = src.getD si 0) :
    List.replicate count (src.getD si 0) = (src.drop si).take count := by
  apply List.ext_getElem
  · simp
    omega
  · intro t ht _
    have htcount : t < count := by simpa using ht
    have hget := hsame t htcount
    rw [List.getD_eq_getElem?_getD, List.getElem?_eq_getElem (by omega), Option.getD_some] at hget
    simp [hget]

/-- The command at `si` covers at least one byte and at most 65535, and stands for exactly the bytes
it covers. -/
theorem commandAt_spec {src : List UInt8} {si : ℕ} (hi : si < src.length) :
    1 ≤ (commandAt src si).field ∧ (commandAt src si).field ≤ 65535 ∧
      si + (commandAt src si).field ≤ src.length ∧
      (commandAt src si).expand = (src.drop si).take (commandAt src si).field := by
  unfold commandAt
  by_cases hrun : countRun src si 1 ≥ 4
  · have hle := countRun_le (show 1 ≤ 65535 by omega) hi
    rw [if_pos hrun]
    refine ⟨by simp only [Command.field]; omega, hle.1, hle.2, ?_⟩
    refine replicate_eq_take_drop hle.2 fun t ht => ?_
    rcases Nat.eq_zero_or_pos t with rfl | hpos
    · rfl
    · exact getD_eq_of_lt_countRun hpos ht
  · have hstarts : startsRun src si = false := by
      by_contra hne
      exact hrun (four_le_countRun (by simpa using hne))
    have hlt := lt_literalEnd hi hstarts
    have hle := literalEnd_le hi.le (show si - si < 65535 by omega)
    rw [if_neg hrun]
    have hfield : (Command.literal ((src.drop si).take (literalEnd src si si - si))).field =
        literalEnd src si si - si := by
      simp only [Command.field, List.length_take, List.length_drop]
      omega
    rw [hfield]
    exact ⟨by omega, hle.2, by omega, rfl⟩

/-- The commands that the compressor emits from `si` on. -/
def commands (src : List UInt8) (si : ℕ) : List Command :=
  if si < src.length then
    commandAt src si :: commands src (si + (commandAt src si).field)
  else []
termination_by src.length - si
decreasing_by
  have := (commandAt_spec ‹si < src.length›).1
  omega

theorem commands_of_lt {src : List UInt8} {si : ℕ} (hi : si < src.length) :
    commands src si = commandAt src si :: commands src (si + (commandAt src si).field) := by
  rw [commands, if_pos hi]

theorem commands_of_le {src : List UInt8} {si : ℕ} (hi : src.length ≤ si) : commands src si = [] := by
  rw [commands, if_neg (by omega)]

theorem field_of_mem_commands {src : List UInt8} {si : ℕ} {c : Command}
    (hc : c ∈ commands src si) : 1 ≤ c.field ∧ c.field ≤ 65535 := by
  fun_induction commands src si with
  | case1 si hi ih =>
      rcases List.mem_cons.mp hc with rfl | hc
      · exact ⟨(commandAt_spec hi).1, (commandAt_spec hi).2.1⟩
      · exact ih hc
  | case2 si hi => simp at hc

theorem expand_commands (src : List UInt8) (si : ℕ) :
    (commands src si).flatMap Command.expand = src.drop si := by
  fun_induction commands src si with
  | case1 si hi ih =>
      rw [List.flatMap_cons, ih, (commandAt_spec hi).2.2.2, ← List.drop_drop, List.take_append_drop]
  | case2 si hi =>
      rw [List.flatMap_nil, List.drop_eq_nil_of_le (by omega)]

/-! ## What the compressor emits -/

/-- One iteration of the outer loop emits one command. -/
theorem compressLoop_succ {src : List UInt8} {maxOut fuel si : ℕ} {out : List UInt8}
    (hi : si < src.length) :
    compressLoop src maxOut (fuel + 1) si out =
      if out.length + (commandAt src si).emit.length > maxOut then .failed
      else
        compressLoop src maxOut fuel (si + (commandAt src si).field)
          (out ++ (commandAt src si).emit) := by
  rw [compressLoop, if_pos hi]
  by_cases hrun : countRun src si 1 ≥ 4
  · simp only [commandAt, if_pos hrun, Command.emit, Command.field, List.length_cons,
      List.length_nil]
  · have hspec := commandAt_spec hi
    simp only [commandAt, if_neg hrun, Command.emit, Command.field] at hspec ⊢
    have hlen : ((src.drop si).take (literalEnd src si si - si)).length =
        literalEnd src si si - si := by
      have hle := literalEnd_le hi.le (show si - si < 65535 by omega)
      simp only [List.length_take, List.length_drop]
      omega
    have hend : si + (literalEnd src si si - si) = literalEnd src si si := by
      have := le_literalEnd src si si
      omega
    have htotal : out.length + (literalEnd src si si - si + 3) =
        out.length + 3 + (literalEnd src si si - si) := by
      omega
    simp only [hlen, hend, htotal, List.length_append, List.length_cons, List.length_nil,
      List.append_assoc, Nat.zero_add, Nat.add_comm 3]

/-- One iteration for each remaining byte is enough: the outer loop then has emitted its commands,
or has failed because they do not fit the buffer. -/
theorem compressLoop_eq {src : List UInt8} {maxOut fuel si : ℕ} {out : List UInt8}
    (hfuel : src.length - si ≤ fuel) (hout : out.length ≤ maxOut) :
    compressLoop src maxOut fuel si out =
      if out.length + ((commands src si).flatMap Command.emit).length ≤ maxOut then
        .finished (out ++ (commands src si).flatMap Command.emit)
      else .failed := by
  induction fuel generalizing si out with
  | zero =>
      rw [compressLoop, if_neg (by omega), commands_of_le (by omega)]
      simp [hout]
  | succ fuel ih =>
      by_cases hi : si < src.length
      · have hfield := (commandAt_spec hi).1
        rw [compressLoop_succ hi, commands_of_lt hi, List.flatMap_cons]
        by_cases hfull : out.length + (commandAt src si).emit.length > maxOut
        · rw [if_pos hfull, if_neg (by simp only [List.length_append]; omega)]
        · rw [if_neg hfull, ih (by omega) (by simp only [List.length_append]; omega)]
          simp only [List.length_append, List.append_assoc, Nat.add_assoc]
      · rw [compressLoop, if_neg hi, commands_of_le (by omega)]
        simp [hout]

/-! ## Decompressing commands -/

theorem getD_append_length (pre rest : List UInt8) (b : UInt8) (t : ℕ) :
    (pre ++ rest).getD (pre.length + t) b = rest.getD t b := by
  simp [List.getD_eq_getElem?_getD, List.getElem?_append_right]

theorem u16At_append_length (pre rest : List UInt8) (t : ℕ) :
    u16At (pre ++ rest) (pre.length + t) = u16At rest t := by
  simp only [u16At, Nat.add_assoc, getD_append_length]

/-- The decompressor, standing at a command whose field fits 16 bits, writes its expansion. -/
theorem decompressLoop_emit {pre rest out : List UInt8} {maxOut : ℕ} {c : Command}
    (hfield : c.field < 2 ^ 16) (hroom : out.length + c.field ≤ maxOut) :
    decompressLoop (pre ++ (c.emit ++ rest)) maxOut pre.length out =
      decompressLoop (pre ++ (c.emit ++ rest)) maxOut (pre ++ c.emit).length
        (out ++ c.expand) := by
  cases c with
  | literal bytes =>
      simp only [Command.field] at hfield hroom
      set src := pre ++ ((Command.literal bytes).emit ++ rest) with hsrc
      have htag : src.getD pre.length 0 = 0 := getD_append_length pre _ 0 0
      have hlen : u16At src (pre.length + 1) = bytes.length := by
        rw [hsrc, u16At_append_length]
        exact u16_bytes hfield
      have htotal : src.length = pre.length + 3 + bytes.length + rest.length := by
        simp [hsrc, Command.emit]
        omega
      have hbytes : (src.drop (pre.length + 3)).take bytes.length = bytes := by
        have hpre : pre.drop (pre.length + 3) = [] := List.drop_eq_nil_of_le (by omega)
        simp [hsrc, Command.emit, List.drop_append, hpre]
      rw [decompressLoop, if_pos (by omega), if_pos htag, if_neg (by omega), hlen,
        if_neg (by omega), hbytes]
      simp only [Command.emit, Command.expand, List.length_append, List.length_cons,
        List.length_nil]
      congr 1
      omega
  | repeated byte count =>
      simp only [Command.field] at hfield hroom
      set src := pre ++ ((Command.repeated byte count).emit ++ rest) with hsrc
      have htag : src.getD pre.length 0 = 1 := getD_append_length pre _ 0 0
      have hbyte : src.getD (pre.length + 1) 0 = byte := getD_append_length pre _ 0 1
      have hlen : u16At src (pre.length + 2) = count := by
        rw [hsrc, u16At_append_length]
        exact u16_bytes hfield
      have htotal : src.length = pre.length + 4 + rest.length := by
        simp [hsrc, Command.emit]
        omega
      rw [decompressLoop, if_pos (by omega), htag, if_neg (by decide), if_pos rfl,
        if_neg (by omega), hlen, if_neg (by omega), hbyte]
      simp only [Command.emit, Command.expand, List.length_append, List.length_cons,
        List.length_nil]

/-- The decompressor accepts every sequence of commands whose fields fit 16 bits and whose
expansion fits the buffer, and writes that expansion. -/
theorem decompressLoop_commands {cs : List Command} {maxOut : ℕ}
    (hfield : ∀ c ∈ cs, c.field < 2 ^ 16) (pre out : List UInt8)
    (hroom : (out ++ cs.flatMap Command.expand).length ≤ maxOut) :
    decompressLoop (pre ++ cs.flatMap Command.emit) maxOut pre.length out =
      some (out ++ cs.flatMap Command.expand) := by
  induction cs generalizing pre out with
  | nil =>
      rw [decompressLoop, if_neg (by simp)]
      simp
  | cons c cs ih =>
      simp only [List.flatMap_cons] at hroom ⊢
      have hc : out.length + c.field ≤ maxOut := by
        rw [← c.length_expand]
        simp only [List.length_append] at hroom
        omega
      rw [decompressLoop_emit (hfield c (List.mem_cons_self ..)) hc]
      have hrest := ih (fun d hd => hfield d (List.mem_cons_of_mem _ hd)) (pre ++ c.emit)
        (out ++ c.expand) (by simpa only [List.append_assoc] using hroom)
      simpa only [List.append_assoc] using hrest

/-! ## Round trip

As in the delta codec, the sizes are returned as `int`: an asset of more than `INT_MAX` bytes may
compress to a short stream, but its decompressed size does not fit the result. -/

theorem emit_commands_ne_nil {src : List UInt8} (hsrc : src ≠ []) :
    (commands src 0).flatMap Command.emit ≠ [] := by
  rw [commands_of_lt (List.length_pos_iff.mpr hsrc), List.flatMap_cons]
  cases commandAt src 0 <;> simp [Command.emit]

theorem lgxAssetCompress_eq {fuel maxOut : ℕ} {data : List UInt8} (hdata : data ≠ [])
    (hfuel : data.length ≤ fuel) :
    lgxAssetCompress fuel data maxOut =
      if ((commands data 0).flatMap Command.emit).length ≤ maxOut then
        some (toInt ((commands data 0).flatMap Command.emit).length,
          (commands data 0).flatMap Command.emit)
      else some (-1, []) := by
  have hpos := List.length_pos_iff.mpr (emit_commands_ne_nil hdata)
  have hlength := List.length_pos_iff.mpr hdata
  unfold lgxAssetCompress
  by_cases hzero : maxOut = 0
  · rw [if_pos (Or.inr hzero), if_neg (by omega)]
  · rw [if_neg (by omega), compressLoop_eq (by omega) (Nat.zero_le _)]
    generalize (commands data 0).flatMap Command.emit = es
    by_cases hfits : es.length ≤ maxOut <;> simp [hfits]

/-- Whatever the compressor emitted is decompressed to the input, with the size cast to `int` as
the return value. -/
theorem lgxAssetDecompress_of_compress {fuel maxOut room : ℕ} {data out : List UInt8}
    (hdata : data ≠ []) (hfuel : data.length ≤ fuel)
    (hcompress : lgxAssetCompress fuel data maxOut = some ((out.length : ℤ), out))
    (hroom : data.length ≤ room) :
    out = (commands data 0).flatMap Command.emit ∧
      lgxAssetDecompress out room = (toInt data.length, data) := by
  have hout : out = (commands data 0).flatMap Command.emit := by
    rw [lgxAssetCompress_eq hdata hfuel] at hcompress
    split at hcompress
    · exact (Prod.mk.inj (Option.some.inj hcompress)).2.symm
    · have := (Prod.mk.inj (Option.some.inj hcompress)).1
      omega
  have hexpand : (commands data 0).flatMap Command.expand = data := by
    rw [expand_commands, List.drop_zero]
  have hloop := decompressLoop_commands (fun c hc => by have := field_of_mem_commands hc; omega)
    [] [] (show ([] ++ (commands data 0).flatMap Command.expand).length ≤ room by
      rwa [hexpand, List.nil_append])
  simp only [List.nil_append, List.length_nil, hexpand, ← hout] at hloop
  have hpos : out.length ≠ 0 := by
    rw [hout, List.length_eq_zero_iff.ne]
    exact emit_commands_ne_nil hdata
  have hlength := List.length_pos_iff.mpr hdata
  refine ⟨hout, ?_⟩
  rw [lgxAssetDecompress, if_neg (by omega), hloop]

/-- The asset codec is correct for the inputs whose size fits an `int`, and for no others.  The
compressor leaves its loop after at most one iteration for each input byte; what it emits is a
sequence of commands, each with a field between 1 and 65535; and a stream of `k ≤ INT_MAX` bytes
decompresses to the input and reports its size exactly when the input has at most `INT_MAX`
bytes. -/
theorem asset_roundTrip_iff (data : List UInt8) (maxOut : ℕ) (hdata : data ≠ []) :
    (∀ fuel, data.length ≤ fuel → lgxAssetCompress fuel data maxOut ≠ none) ∧
    (∀ fuel, data.length ≤ fuel → ∀ out : List UInt8,
      lgxAssetCompress fuel data maxOut = some ((out.length : ℤ), out) → out.length ≤ intMax →
      (∃ cs : List Command, out = cs.flatMap Command.emit ∧
        (∀ c ∈ cs, 1 ≤ c.field ∧ c.field < 2 ^ 16) ∧ cs.flatMap Command.expand = data) ∧
      ∀ room, data.length ≤ room →
        (lgxAssetDecompress out room = ((data.length : ℤ), data) ↔ data.length ≤ intMax)) := by
  refine ⟨fun fuel hfuel => ?_, fun fuel hfuel out hcompress _ => ⟨?_, fun room hroom => ?_⟩⟩
  · rw [lgxAssetCompress_eq hdata hfuel]
    split <;> simp
  · refine ⟨commands data 0,
      (lgxAssetDecompress_of_compress hdata hfuel hcompress le_rfl).1, fun c hc => ?_, ?_⟩
    · have := field_of_mem_commands hc
      omega
    · rw [expand_commands, List.drop_zero]
  · rw [(lgxAssetDecompress_of_compress hdata hfuel hcompress hroom).2, ← toInt_eq_iff]
    simp

/-- A run of four followed by a single byte. -/
theorem asset_roundTrip_five :
    lgxAssetCompress 5 [5, 5, 5, 5, 9] 8 = some (8, [1, 5, 4, 0, 0, 1, 0, 9]) ∧
      lgxAssetDecompress [1, 5, 4, 0, 0, 1, 0, 9] 5 = (5, [5, 5, 5, 5, 9]) := by
  have hcompress : lgxAssetCompress 5 [5, 5, 5, 5, 9] 8 = some (8, [1, 5, 4, 0, 0, 1, 0, 9]) := by
    simp [lgxAssetCompress, compressLoop, countRun, literalEnd, startsRun, lowByte, highByte, toInt]
  exact ⟨hcompress, (((asset_roundTrip_iff [5, 5, 5, 5, 9] 8 (by decide)).2 5 (by decide)
    [1, 5, 4, 0, 0, 1, 0, 9] hcompress (by decide)).2 5 (by decide)).mpr (by decide)⟩

/-! ### A constant asset of 2 GiB -/

theorem countRun_replicate {n si run : ℕ} {b : UInt8} (hrun : run ≤ 65535) (hi : si + run ≤ n)
    (hpos : 1 ≤ run) : countRun (List.replicate n b) si run = min 65535 (n - si) := by
  have hget : ∀ t < n, (List.replicate n b).getD t 0 = b := by
    intro t ht
    simp [List.getD_eq_getElem?_getD, ht]
  fun_induction countRun (List.replicate n b) si run with
  | case1 run hcont ih =>
      simp only [List.length_replicate] at hcont
      exact ih (by omega) (by omega) (by omega)
  | case2 run hstop =>
      rw [List.length_replicate] at hstop
      by_cases hlt : si + run < n
      · rw [hget _ hlt, hget _ (by omega)] at hstop
        simp only [hlt, true_and] at hstop
        omega
      · omega

theorem Command.length_emit_le {c : Command} (hc : 1 ≤ c.field) : c.emit.length ≤ 3 + c.field := by
  cases c with
  | literal bytes =>
      simp only [field, emit, List.length_append, List.length_cons, List.length_nil]
      omega
  | repeated byte count =>
      simp only [field, emit, List.length_cons, List.length_nil] at hc ⊢
      omega

/-- A constant input costs four bytes for each run of 65535, and at most 24 at its end. -/
theorem length_emit_commands_replicate (n : ℕ) (b : UInt8) (si : ℕ) :
    ((commands (List.replicate n b) si).flatMap Command.emit).length ≤
      4 * ((n - si) / 65535) + 6 * min (n - si) 4 := by
  fun_induction commands (List.replicate n b) si with
  | case1 si hi ih =>
      have hspec := commandAt_spec hi
      have hcount := @countRun_replicate n si 1 b (by omega) (by simp at hi; omega) le_rfl
      rw [List.length_replicate] at hi hspec
      rw [List.flatMap_cons, List.length_append]
      by_cases hrun : 4 ≤ n - si
      · have hcommand : commandAt (List.replicate n b) si =
            .repeated ((List.replicate n b).getD si 0) (min 65535 (n - si)) := by
          rw [commandAt, if_pos (by omega), hcount]
        rw [hcommand] at ih ⊢
        simp only [Command.field, Command.emit, List.length_cons, List.length_nil] at ih ⊢
        omega
      · have hemit := Command.length_emit_le hspec.1
        omega
  | case2 si hi => simp

/-- A constant asset of `2 ^ 31` bytes compresses to a stream well below `INT_MAX` bytes, and
decompressing that stream reports a negative size. -/
theorem asset_roundTrip_fails :
    ∃ out : List UInt8,
      lgxAssetCompress (2 ^ 31) (List.replicate (2 ^ 31) 0) (2 ^ 31) =
        some ((out.length : ℤ), out) ∧ out.length ≤ intMax ∧
      (lgxAssetDecompress out (2 ^ 31)).1 < 0 := by
  obtain ⟨n, hn⟩ : ∃ n : ℕ, n = 2 ^ 31 := ⟨_, rfl⟩
  rw [← hn]
  set s := List.replicate n (0 : UInt8) with hs
  have hlength : s.length = n := List.length_replicate
  have hne : s ≠ [] := by
    rw [← List.length_pos_iff]
    omega
  have hshort := length_emit_commands_replicate n 0 0
  rw [← hs] at hshort
  have hint : ((commands s 0).flatMap Command.emit).length ≤ intMax := by
    unfold intMax
    omega
  have hcompress : lgxAssetCompress n s n =
      some ((((commands s 0).flatMap Command.emit).length : ℤ),
        (commands s 0).flatMap Command.emit) := by
    rw [lgxAssetCompress_eq hne (by omega), if_pos (by omega), toInt_of_le hint]
  have hdecompress := (lgxAssetDecompress_of_compress hne hlength.le hcompress hlength.le).2
  have hnegative : toInt (2 ^ 31) < 0 := by decide
  refine ⟨_, hcompress, hint, ?_⟩
  rw [hdecompress, hlength, hn]
  exact hnegative

end LgxRuntime.Asset
