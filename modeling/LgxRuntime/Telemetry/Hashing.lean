import LgxRuntime.Lib.Sha256
import LgxRuntime.Lib.StoreLoop

/-!
# Hashed identifiers

Telemetry anonymises its identifiers by SHA-256.  `sha256_update` collects the bytes of a string in a block,
which is compressed when it is full; `sha256_final` pads the last block, or the last two, and writes the hash
value with the most significant byte of each word first.
-/

namespace LgxRuntime.Telemetry.Hashing

open Sha256 (Byte Word Registers)

/-- The constants of the rounds. -/
def k : List Word :=
  [0x428a2f98, 0x71374491, 0xb5c0fbcf, 0xe9b5dba5, 0x3956c25b, 0x59f111f1, 0x923f82a4, 0xab1c5ed5,
    0xd807aa98, 0x12835b01, 0x243185be, 0x550c7dc3, 0x72be5d74, 0x80deb1fe, 0x9bdc06a7, 0xc19bf174,
    0xe49b69c1, 0xefbe4786, 0x0fc19dc6, 0x240ca1cc, 0x2de92c6f, 0x4a7484aa, 0x5cb0a9dc, 0x76f988da,
    0x983e5152, 0xa831c66d, 0xb00327c8, 0xbf597fc7, 0xc6e00bf3, 0xd5a79147, 0x06ca6351, 0x14292967,
    0x27b70a85, 0x2e1b2138, 0x4d2c6dfc, 0x53380d13, 0x650a7354, 0x766a0abb, 0x81c2c92e, 0x92722c85,
    0xa2bfe8a1, 0xa81a664b, 0xc24b8b70, 0xc76c51a3, 0xd192e819, 0xd6990624, 0xf40e3585, 0x106aa070,
    0x19a4c116, 0x1e376c08, 0x2748774c, 0x34b0bcb5, 0x391c0cb3, 0x4ed8aa4a, 0x5b9cca4f, 0x682e6ff3,
    0x748f82ee, 0x78a5636f, 0x84c87814, 0x8cc70208, 0x90befffa, 0xa4506ceb, 0xbef9a3f7, 0xc67178f2]

/-! ## Macros -/

/-- `ROTRIGHT`. -/
def rotRight (a : Word) (b : ℕ) : Word := a >>> b ||| a <<< (32 - b)

/-- `CH`. -/
def ch (x y z : Word) : Word := (x &&& y) ^^^ (~~~x &&& z)

/-- `MAJ`. -/
def maj (x y z : Word) : Word := (x &&& y) ^^^ (x &&& z) ^^^ (y &&& z)

/-- `EP0`. -/
def ep0 (x : Word) : Word := rotRight x 2 ^^^ rotRight x 13 ^^^ rotRight x 22

/-- `EP1`. -/
def ep1 (x : Word) : Word := rotRight x 6 ^^^ rotRight x 11 ^^^ rotRight x 25

/-- `SIG0`. -/
def sig0 (x : Word) : Word := rotRight x 7 ^^^ rotRight x 18 ^^^ x >>> 3

/-- `SIG1`. -/
def sig1 (x : Word) : Word := rotRight x 17 ^^^ rotRight x 19 ^^^ x >>> 10

/-! ## Blocks -/

/-- `SHA256_CTX`, with the eight words of the state as fields. -/
structure Sha256Ctx where
  data : Vector Byte 64
  datalen : ℕ
  bitlen : BitVec 64
  state : Registers

/-- Byte `j` of a block. -/
def byteAt (data : Vector Byte 64) (j : ℕ) : Byte :=
  data.toList.getD j 0

/-- Four bytes, as the first loop of `sha256_transform` puts them together. -/
def loadWord (data : Vector Byte 64) (j : ℕ) : Word :=
  (byteAt data j).setWidth 32 <<< 24 ||| (byteAt data (j + 1)).setWidth 32 <<< 16 |||
    (byteAt data (j + 2)).setWidth 32 <<< 8 ||| (byteAt data (j + 3)).setWidth 32

/-- The second loop of `sha256_transform`, with the words of `m` that have been written. -/
def extendWords : ℕ → List Word → List Word
  | 0, m => m
  | n + 1, m =>
      let i := m.length
      extendWords n (m ++ [sig1 (m.getD (i - 2) 0) + m.getD (i - 7) 0 + sig0 (m.getD (i - 15) 0) +
        m.getD (i - 16) 0])

/-- Round `i` of `sha256_transform`. -/
def transformRound (m : List Word) (r : Registers) (i : ℕ) : Registers :=
  let t1 := r.h + ep1 r.e + ch r.e r.f r.g + k.getD i 0 + m.getD i 0
  let t2 := ep0 r.a + maj r.a r.b r.c
  { a := t1 + t2
    b := r.a
    c := r.b
    d := r.c
    e := r.d + t1
    f := r.e
    g := r.f
    h := r.g }

/-- `sha256_transform`. -/
def sha256Transform (ctx : Sha256Ctx) (data : Vector Byte 64) : Sha256Ctx :=
  let m := extendWords 48 ((List.range 16).map fun i => loadWord data (4 * i))
  let r := (List.range 64).foldl (transformRound m) ctx.state
  { ctx with
    state :=
      { a := ctx.state.a + r.a
        b := ctx.state.b + r.b
        c := ctx.state.c + r.c
        d := ctx.state.d + r.d
        e := ctx.state.e + r.e
        f := ctx.state.f + r.f
        g := ctx.state.g + r.g
        h := ctx.state.h + r.h } }

/-- `sha256_init`, which leaves the bytes of the block as they are. -/
def sha256Init (data : Vector Byte 64) : Sha256Ctx where
  data := data
  datalen := 0
  bitlen := 0
  state :=
    { a := 0x6a09e667
      b := 0xbb67ae85
      c := 0x3c6ef372
      d := 0xa54ff53a
      e := 0x510e527f
      f := 0x9b05688c
      g := 0x1f83d9ab
      h := 0x5be0cd19 }

/-- The loop body of `sha256_update`. -/
def updateByte (ctx : Sha256Ctx) (byte : Byte) : Sha256Ctx :=
  let filled := { ctx with data := ctx.data.setIfInBounds ctx.datalen byte, datalen := ctx.datalen + 1 }
  if filled.datalen = 64 then
    { sha256Transform filled filled.data with bitlen := filled.bitlen + 512, datalen := 0 }
  else filled

/-- `sha256_update`; `none` if the loop does not end, as its counter has 32 bits. -/
def sha256Update (ctx : Sha256Ctx) (data : List Byte) : Option Sha256Ctx :=
  if data.length < 2 ^ 32 then some (data.foldl updateByte ctx) else none

/-! ## Padding -/

/-- `while (i < stop) ctx->data[i++] = 0x00`. -/
def zeroFill (data : Vector Byte 64) (i stop : ℕ) : Vector Byte 64 :=
  StoreLoop.store (fun j => i + j) (fun _ => 0x00) (stop - i) data

/-- The padding of `sha256_final`, up to the length. -/
def pad (ctx : Sha256Ctx) : Sha256Ctx :=
  let marked := ctx.data.setIfInBounds ctx.datalen 0x80#8
  if ctx.datalen < 56 then { ctx with data := zeroFill marked (ctx.datalen + 1) 56 }
  else
    let filled := { ctx with data := zeroFill marked (ctx.datalen + 1) 64 }
    let transformed := sha256Transform filled filled.data
    { transformed with data := zeroFill transformed.data 0 56 }

/-- The stores of the length in bits: `ctx->data[63 - j] = ctx->bitlen >> 8 * j`. -/
def storeLength (data : Vector Byte 64) (bitlen : BitVec 64) : Vector Byte 64 :=
  StoreLoop.store (fun j => 63 - j) (fun j => (bitlen >>> (8 * j)).setWidth 8) 8 data

/-- Byte `i` of a word: `(word >> (24 - i * 8)) & 0x000000ff`. -/
def wordByte (w : Word) (i : ℕ) : Byte :=
  ((w >>> (24 - i * 8)) &&& 0x000000ff).setWidth 8

/-- The stores of byte `i` of all words: `hash[i + 4 * j]` is the one of `ctx->state[j]`. -/
def storeBytes (state : Registers) (hash : Vector Byte 32) (i : ℕ) : Vector Byte 32 :=
  StoreLoop.store (fun j => i + 4 * j) (fun j => wordByte (state.toList.getD j 0) i) 8 hash

/-- `sha256_final`, into a buffer of 32 bytes. -/
def sha256Final (ctx : Sha256Ctx) (hash : Vector Byte 32) : Vector Byte 32 :=
  let padded := pad ctx
  let bitlen := padded.bitlen + BitVec.ofNat 64 (padded.datalen * 8)
  let data := storeLength padded.data bitlen
  let last := sha256Transform { padded with bitlen := bitlen, data := data } data
  (List.range 4).foldl (storeBytes last.state) hash

/-! ## Strings -/

/-- `"%02x"`. -/
def formatByte (byte : Byte) : List Char :=
  let digits := Nat.toDigits 16 byte.toNat
  List.replicate (2 - digits.length) '0' ++ digits

/-- `sha256_hash_string`, with the bytes that it finds on its stack: the characters that it writes, and `none`
if it does not end. -/
def sha256HashString (data : Vector Byte 64) (hash : Vector Byte 32) (input : List Byte) (outputSize : ℕ) :
    Option (List Char) :=
  if outputSize < 65 then some []
  else
    (sha256Update (sha256Init data) input).map fun ctx =>
      (sha256Final ctx hash).toList.flatMap formatByte ++ [Char.ofNat 0]

/-! ## One block -/

section

variable {data : Vector Byte 64} {ctx : Sha256Ctx}

/-- The table is the one of the standard. -/
theorem k_eq : k = Sha256.roundConstants := by decide +kernel

theorem sha256Init_state : (sha256Init data).state = Sha256.initialHash := by
  rw [sha256Init, Sha256.initialHash, Registers.mk.injEq]
  decide +kernel

theorem loadWord_eq {i : ℕ} : loadWord data (4 * i) = Sha256.word data.toList i := by
  have h := @BitVec.setWidth_append_append_append_eq_shiftLeft_setWidth_or _ _ _ _ 32
    (byteAt data (4 * i)) (byteAt data (4 * i + 1)) (byteAt data (4 * i + 2)) (byteAt data (4 * i + 3))
  rw [BitVec.setWidth_eq] at h
  exact h.symm

theorem getD_map_range {f : ℕ → Word} {n i : ℕ} (hi : i < n) : ((List.range n).map f).getD i 0 = f i := by
  rw [List.getD_eq_getElem?_getD, List.getElem?_map, List.getElem?_range hi]
  rfl

/-- The words that are added to a schedule continue it. -/
theorem extendWords_eq {block : List Byte} {n i : ℕ} (hi : 16 ≤ i) :
    extendWords n ((List.range i).map (Sha256.schedule block)) =
      (List.range (i + n)).map (Sha256.schedule block) := by
  induction n generalizing i with
  | zero => rfl
  | succ n ih =>
      rw [extendWords, List.length_map, List.length_range, getD_map_range (by omega), getD_map_range (by omega),
        getD_map_range (by omega), getD_map_range (by omega)]
      have hnext : (List.range i).map (Sha256.schedule block) ++
          [sig1 (Sha256.schedule block (i - 2)) + Sha256.schedule block (i - 7) +
            sig0 (Sha256.schedule block (i - 15)) + Sha256.schedule block (i - 16)] =
          (List.range (i + 1)).map (Sha256.schedule block) := by
        rw [List.range_succ, List.map_append, List.map_singleton, Sha256.schedule_of_le hi]
        rfl
      rw [hnext, ih (by omega)]
      congr 2
      omega

theorem transformRound_eq {block : List Byte} {r : Registers} {i : ℕ} (hi : i < 64) :
    transformRound ((List.range 64).map (Sha256.schedule block)) r i =
      Sha256.round r (Sha256.roundConstants.getD i 0) (Sha256.schedule block i) := by
  rw [transformRound, getD_map_range hi, k_eq]
  rfl

/-- `sha256_transform` compresses a block. -/
theorem sha256Transform_state :
    (sha256Transform ctx data).state = Sha256.compress ctx.state data.toList := by
  have hfirst : ((List.range 16).map fun i => loadWord data (4 * i)) =
      (List.range 16).map (Sha256.schedule data.toList) := by
    refine List.map_congr_left fun i hi => ?_
    rw [loadWord_eq, Sha256.schedule_of_lt (List.mem_range.mp hi)]
  have hrounds : (List.range 64).foldl (transformRound ((List.range 64).map (Sha256.schedule data.toList)))
        ctx.state =
      (List.range 64).foldl (fun r t => Sha256.round r (Sha256.roundConstants.getD t 0)
        (Sha256.schedule data.toList t)) ctx.state :=
    List.foldl_ext _ _ _ fun r i hi => transformRound_eq (List.mem_range.mp hi)
  rw [sha256Transform, hfirst, extendWords_eq (le_refl _), hrounds]
  rfl

end

/-! ## The bytes of a string -/

/-- The blocks of a message that are full have been compressed, and the bytes that remain are in the buffer. -/
structure Absorbed (ctx : Sha256Ctx) (message : List Byte) : Prop where
  datalen : ctx.datalen = message.length % 64
  bitlen : ctx.bitlen = BitVec.ofNat 64 (512 * (message.length / 64))
  state : ctx.state = Sha256.absorb message (message.length / 64)
  data : ctx.data.toList.take ctx.datalen = message.drop (64 * (message.length / 64))

section

variable {ctx ctx' : Sha256Ctx} {message rest : List Byte} {byte : Byte}

theorem sha256Init_absorbed (data : Vector Byte 64) : Absorbed (sha256Init data) [] :=
  ⟨rfl, rfl, sha256Init_state.trans Sha256.absorb_zero.symm, rfl⟩

theorem take_setIfInBounds {n i : ℕ} {buffer : Vector Byte n} (hi : i < n) :
    (buffer.setIfInBounds i byte).toList.take (i + 1) = buffer.toList.take i ++ [byte] := by
  have hlength : i < buffer.toList.length := by rwa [Vector.length_toList]
  rw [Vector.toList_setIfInBounds, List.take_add_one, List.take_set_of_le (le_refl i),
    List.getElem?_set_self hlength]
  rfl

theorem Absorbed.updateByte (h : Absorbed ctx message) : Absorbed (updateByte ctx byte) (message ++ [byte]) := by
  have hdatalen : ctx.datalen < 64 := by
    rw [h.datalen]
    exact Nat.mod_lt _ (by decide)
  have hlength : (message ++ [byte]).length = message.length + 1 := by
    rw [List.length_append, List.length_singleton]
  have hbytes : (ctx.data.setIfInBounds ctx.datalen byte).toList.take (ctx.datalen + 1) =
      (message ++ [byte]).drop (64 * (message.length / 64)) := by
    rw [take_setIfInBounds hdatalen, h.data, List.drop_append_of_le_length (by omega)]
  have hsame : Sha256.absorb (message ++ [byte]) (message.length / 64) =
      Sha256.absorb message (message.length / 64) := Sha256.absorb_append (by omega)
  have hmod := h.datalen
  unfold Hashing.updateByte
  dsimp only
  by_cases hfull : ctx.datalen + 1 = 64
  · -- the block is full
    have hnext : (message ++ [byte]).length / 64 = message.length / 64 + 1 := by omega
    have hblock : Sha256.block (message ++ [byte]) (message.length / 64) =
        (ctx.data.setIfInBounds ctx.datalen byte).toList := by
      rw [Sha256.block_eq_drop (by omega), ← hbytes, hfull]
      exact List.take_of_length_le (by rw [Vector.length_toList])
    rw [if_pos hfull]
    refine ⟨?_, ?_, ?_, ?_⟩
    · dsimp only
      omega
    · rw [hnext, Nat.mul_add, BitVec.ofNat_add, ← h.bitlen]
      rfl
    · rw [hnext, Sha256.absorb_succ, hsame, hblock, ← h.state]
      exact sha256Transform_state
    · rw [hnext, List.drop_eq_nil_of_le (by omega)]
      rfl
  · rw [if_neg hfull]
    have hnext : (message ++ [byte]).length / 64 = message.length / 64 := by omega
    refine ⟨?_, ?_, ?_, ?_⟩
    · dsimp only
      omega
    · rw [hnext]
      exact h.bitlen
    · rw [hnext, hsame]
      exact h.state
    · rw [hnext]
      exact hbytes

/-- All bytes of a message are absorbed. -/
theorem Absorbed.foldl (h : Absorbed ctx message) :
    Absorbed (rest.foldl Hashing.updateByte ctx) (message ++ rest) := by
  induction rest generalizing ctx message with
  | nil => rwa [List.append_nil]
  | cons byte rest ih =>
      rw [List.append_cons]
      exact ih h.updateByte

theorem sha256Update_absorbed {data : Vector Byte 64} (hlength : message.length < 2 ^ 32) :
    ∃ ctx, sha256Update (sha256Init data) message = some ctx ∧ Absorbed ctx message :=
  ⟨_, if_pos hlength, (sha256Init_absorbed data).foldl⟩

end

/-! ## The end of a message -/

section

variable {ctx : Sha256Ctx} {message : List Byte} {data : Vector Byte 64}

theorem zeroFill_toList {i stop : ℕ} (hi : i ≤ stop) (hstop : stop ≤ 64) :
    (zeroFill data i stop).toList =
      data.toList.take i ++ List.replicate (stop - i) 0 ++ data.toList.drop stop := by
  rw [zeroFill, StoreLoop.toList_store_add (by omega), Nat.add_sub_cancel' hi, List.map_const',
    List.length_range]

theorem storeLength_toList {bitlen : BitVec 64} :
    (storeLength data bitlen).toList =
      data.toList.take 56 ++ (List.range 8).map fun i => bitlen.extractLsb' (8 * (7 - i)) 8 := by
  refine List.ext_getElem? fun p => ?_
  have htake : (data.toList.take 56).length = 56 := by rw [List.length_take, Vector.length_toList]; rfl
  rw [Vector.getElem?_toList, storeLength]
  rcases Nat.lt_or_ge p 56 with hbefore | hfrom
  · rw [StoreLoop.getElem?_store_of_ne fun j _ => by omega, List.getElem?_append_left (by omega),
      List.getElem?_take_of_lt hbefore, Vector.getElem?_toList]
  · obtain ⟨i, rfl⟩ := Nat.exists_eq_add_of_le hfrom
    rw [List.getElem?_append_right (by omega), htake, Nat.add_sub_cancel_left, List.getElem?_map]
    rcases Nat.lt_or_ge i 8 with hin | hafter
    · have hstore := @StoreLoop.getElem?_store _ _ 8 (7 - i) (fun j => 63 - j)
        (fun j => (bitlen >>> (8 * j)).setWidth 8) data (fun a ha b hb h => by omega) (by omega) (by omega)
      have hplace : 63 - (7 - i) = 56 + i := by omega
      rw [hplace] at hstore
      rw [hstore, List.getElem?_range hin, BitVec.setWidth_ushiftRight_eq_extractLsb]
      rfl
    · rw [Vector.getElem?_eq_none (by omega), List.getElem?_eq_none (by rw [List.length_range]; omega)]
      rfl

/-- The bytes that remain, the byte that ends the message, and zeros. -/
theorem Absorbed.marked (h : Absorbed ctx message) {stop : ℕ} (hdatalen : ctx.datalen < stop) (hstop : stop ≤ 64) :
    (zeroFill (ctx.data.setIfInBounds ctx.datalen 0x80#8) (ctx.datalen + 1) stop).toList.take stop =
      message.drop (64 * (message.length / 64)) ++
        0x80#8 :: List.replicate (stop - (message.length % 64 + 1)) 0 := by
  have hbytes : (ctx.data.setIfInBounds ctx.datalen 0x80#8).toList.take (ctx.datalen + 1) =
      message.drop (64 * (message.length / 64)) ++ [0x80#8] := by
    rw [take_setIfInBounds (by omega), h.data]
  have hlength : (message.drop (64 * (message.length / 64)) ++ [0x80#8] ++
      List.replicate (stop - (ctx.datalen + 1)) (0 : Byte)).length = stop := by
    rw [List.length_append, List.length_append, List.length_drop, List.length_replicate,
      List.length_singleton, h.datalen]
    have hmod := h.datalen
    omega
  rw [zeroFill_toList hdatalen hstop, hbytes, List.take_left' hlength, List.append_assoc,
    List.singleton_append, h.datalen]

/-- The length of the message in bits. -/
theorem Absorbed.bitlen_eq (h : Absorbed ctx message) :
    ctx.bitlen + BitVec.ofNat 64 (ctx.datalen * 8) = BitVec.ofNat 64 (8 * message.length) := by
  rw [h.bitlen, h.datalen, ← BitVec.ofNat_add]
  congr 1
  omega

theorem pad_bitlen : (pad ctx).bitlen = ctx.bitlen ∧ (pad ctx).datalen = ctx.datalen := by
  unfold pad
  dsimp only
  split <;> exact ⟨rfl, rfl⟩

/-- The last transformation yields the digest. -/
theorem Absorbed.compress_last (h : Absorbed ctx message) :
    Sha256.compress (pad ctx).state
        (storeLength (pad ctx).data ((pad ctx).bitlen + BitVec.ofNat 64 ((pad ctx).datalen * 8))).toList =
      Sha256.digest message := by
  have hmod : ctx.datalen < 64 := by
    rw [h.datalen]
    exact Nat.mod_lt _ (by decide)
  rw [pad_bitlen.1, pad_bitlen.2, h.bitlen_eq, storeLength_toList]
  unfold pad
  dsimp only
  by_cases hshort : ctx.datalen < 56
  · rw [if_pos hshort, h.marked hshort (by decide), h.state]
    rw [h.datalen] at hshort
    have hfill : 56 - (message.length % 64 + 1) = 55 - message.length % 64 := by omega
    rw [Sha256.digest_of_lt hshort, List.append_assoc, hfill, Sha256.lengthField]
  · have hfirst : (zeroFill (ctx.data.setIfInBounds ctx.datalen 0x80#8) (ctx.datalen + 1) 64).toList =
        message.drop (64 * (message.length / 64)) ++
          0x80#8 :: List.replicate (64 - (message.length % 64 + 1)) 0 := by
      rw [← h.marked hmod (le_refl _), List.take_of_length_le (by rw [Vector.length_toList])]
    have hzeros : ∀ data : Vector Byte 64, (zeroFill data 0 56).toList.take 56 = List.replicate 56 0 := by
      intro data
      rw [zeroFill_toList (by decide) (by decide), List.take_zero, List.nil_append]
      exact List.take_left' List.length_replicate
    rw [if_neg hshort, hzeros, sha256Transform_state, hfirst, h.state]
    rw [h.datalen] at hshort
    have hfill : 64 - (message.length % 64 + 1) = 63 - message.length % 64 := by omega
    rw [Sha256.digest_of_le (not_lt.mp hshort), hfill, Sha256.lengthField]

end

/-! ## The hash value in digits -/

section

variable {state : Registers} {hash : Vector Byte 32} {w : Word}

/-- The first bytes of all words, after as many rounds of the loop. -/
theorem getElem?_storeBytes {n i j : ℕ} (hn : n ≤ 4) (hi : i < n) (hj : j < 8) :
    ((List.range n).foldl (storeBytes state) hash)[i + 4 * j]? = some (wordByte (state.toList.getD j 0) i) := by
  induction n with
  | zero => omega
  | succ n ih =>
      rw [List.range_succ, List.foldl_append, List.foldl_cons, List.foldl_nil, storeBytes]
      by_cases hlast : i = n
      · rw [hlast]
        exact @StoreLoop.getElem?_store _ _ 8 j (fun j => n + 4 * j)
          (fun j => wordByte (state.toList.getD j 0) n) _ (fun a _ b _ h => by omega) hj (by omega)
      · rw [StoreLoop.getElem?_store_of_ne fun k _ => by omega]
        exact ih (by omega) (by omega)

theorem storeBytes_toList :
    ((List.range 4).foldl (storeBytes state) hash).toList =
      state.toList.flatMap fun w => (List.range 4).map (wordByte w) := by
  have hrows : (state.toList.flatMap fun w => (List.range 4).map (wordByte w)) =
      (List.range 32).map fun p => wordByte (state.toList.getD (p / 4) 0) (p % 4) := rfl
  rw [hrows]
  refine List.ext_getElem? fun p => ?_
  rw [Vector.getElem?_toList, List.getElem?_map]
  rcases Nat.lt_or_ge p 32 with hin | hafter
  · have hbyte := @getElem?_storeBytes state hash 4 (p % 4) (p / 4) (le_refl _) (by omega) (by omega)
    rw [Nat.mod_add_div] at hbyte
    rw [hbyte, List.getElem?_range hin]
    rfl
  · rw [Vector.getElem?_eq_none hafter, List.getElem?_eq_none (by rw [List.length_range]; exact hafter)]
    rfl

theorem formatByte_eq : ∀ byte : Byte, formatByte byte =
    [Nat.digitChar (byte.toNat / 16), Nat.digitChar (byte.toNat % 16)] := by decide +kernel

theorem wordByte_toNat {i : ℕ} : (wordByte w i).toNat = w.toNat / 2 ^ (24 - i * 8) % 2 ^ 8 := by
  have hmask : (0x000000ff : Word).toNat = 2 ^ 8 - 1 := rfl
  rw [wordByte, BitVec.toNat_setWidth, BitVec.toNat_and, BitVec.toNat_ushiftRight, hmask,
    Nat.and_two_pow_sub_one_eq_mod, Nat.shiftRight_eq_div_pow, Nat.mod_mod]

/-- Two digits for each byte of a word are the digits of the word. -/
theorem flatMap_formatByte : ((List.range 4).map (wordByte w)).flatMap formatByte = Sha256.hexWord w := by
  simp only [List.range_succ, List.range_zero, List.nil_append, List.cons_append, List.map_cons, List.map_nil,
    List.flatMap_cons, List.flatMap_nil, formatByte_eq, wordByte_toNat, Sha256.hexWord, BitVec.extractLsb'_toNat,
    Nat.shiftRight_eq_div_pow, List.append_nil, List.cons.injEq, and_true]
  refine ⟨?_, ?_, ?_, ?_, ?_, ?_, ?_, ?_⟩ <;> congr 1 <;> omega

end

/-- A hash value has 64 digits, and its letters are small ones. -/
theorem hexDigest_digits (message : List Byte) :
    (Sha256.hexDigest message).length = 64 ∧
      ∀ c ∈ Sha256.hexDigest message, c ∈ "0123456789abcdef".toList := by
  have hdigit : ∀ n < 16, Nat.digitChar n ∈ "0123456789abcdef".toList := by decide
  refine ⟨by simp [Sha256.hexDigest, Registers.toList, Sha256.hexWord], fun c hc => ?_⟩
  obtain ⟨w, -, hword⟩ := List.mem_flatMap.mp hc
  obtain ⟨i, -, rfl⟩ := List.mem_map.mp hword
  exact hdigit _ (BitVec.isLt _)

/-- A string of fewer than `2 ^ 32` bytes is hashed to the digits of its SHA-256 digest. -/
theorem sha256HashString_eq (data : Vector Byte 64) (hash : Vector Byte 32) {input : List Byte}
    {outputSize : ℕ} (hinput : input.length < 2 ^ 32) (hsize : 65 ≤ outputSize) :
    sha256HashString data hash input outputSize = some (Sha256.hexDigest input ++ [Char.ofNat 0]) ∧
      (Sha256.hexDigest input).length = 64 ∧
        ∀ c ∈ Sha256.hexDigest input, c ∈ "0123456789abcdef".toList := by
  refine ⟨?_, hexDigest_digits input⟩
  obtain ⟨ctx, hupdate, habsorbed⟩ := @sha256Update_absorbed input data hinput
  have hstate : (sha256Final ctx hash).toList =
      (Sha256.digest input).toList.flatMap fun w => (List.range 4).map (wordByte w) := by
    rw [sha256Final, storeBytes_toList, sha256Transform_state, habsorbed.compress_last]
  rw [sha256HashString, if_neg (not_lt.mpr hsize), hupdate, Option.map_some, hstate, List.flatMap_assoc]
  simp only [flatMap_formatByte]
  rfl

/-- Three letters. -/
theorem sha256HashString_eq_abc :
    sha256HashString (Vector.replicate 64 0) (Vector.replicate 32 0) [0x61, 0x62, 0x63] 65 =
        some (Sha256.hexDigest [0x61, 0x62, 0x63] ++ [Char.ofNat 0]) ∧
      (Sha256.hexDigest [0x61, 0x62, 0x63]).length = 64 ∧
        ∀ c ∈ Sha256.hexDigest [0x61, 0x62, 0x63], c ∈ "0123456789abcdef".toList :=
  sha256HashString_eq _ _ (by decide) (by decide)

end LgxRuntime.Telemetry.Hashing
