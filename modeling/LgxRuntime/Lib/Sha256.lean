import Mathlib.Algebra.Order.Ring.Nat
import Mathlib.Data.List.Basic
import Mathlib.Data.Nat.NthRoot.Defs
import Mathlib.Tactic.Common

/-!
# SHA-256

The hash function of FIPS 180-4 on messages of whole bytes.  Words are bit vectors of 32 bits, which are
added modulo `2 ^ 32`; bytes and words are put together with the most significant part first.  The constants
are given as what they are, the first 32 bits of the fractional parts of roots of primes.
-/

namespace Sha256

abbrev Byte : Type := BitVec 8

abbrev Word : Type := BitVec 32

/-! ## Functions and constants -/

def ch (x y z : Word) : Word := (x &&& y) ^^^ (~~~x &&& z)

def maj (x y z : Word) : Word := (x &&& y) ^^^ (x &&& z) ^^^ (y &&& z)

def bigSigma0 (x : Word) : Word := x.rotateRight 2 ^^^ x.rotateRight 13 ^^^ x.rotateRight 22

def bigSigma1 (x : Word) : Word := x.rotateRight 6 ^^^ x.rotateRight 11 ^^^ x.rotateRight 25

def smallSigma0 (x : Word) : Word := x.rotateRight 7 ^^^ x.rotateRight 18 ^^^ x >>> 3

def smallSigma1 (x : Word) : Word := x.rotateRight 17 ^^^ x.rotateRight 19 ^^^ x >>> 10

/-- The first sixty-four primes. -/
def primes : List ℕ :=
  [2, 3, 5, 7, 11, 13, 17, 19, 23, 29, 31, 37, 41, 43, 47, 53,
    59, 61, 67, 71, 73, 79, 83, 89, 97, 101, 103, 107, 109, 113, 127, 131,
    137, 139, 149, 151, 157, 163, 167, 173, 179, 181, 191, 193, 197, 199, 211, 223,
    227, 229, 233, 239, 241, 251, 257, 263, 269, 271, 277, 281, 283, 293, 307, 311]

/-- The first 32 bits of the fractional part of the `n`-th root of `p`. -/
def rootFraction (n p : ℕ) : Word :=
  BitVec.ofNat 32 (Nat.nthRoot n (p * 2 ^ (32 * n)))

/-- The constants of the rounds: cube roots. -/
def roundConstants : List Word :=
  primes.map (rootFraction 3)

/-- Eight words: a hash value, or the working variables. -/
structure Registers where
  (a b c d e f g h : Word)
  deriving DecidableEq

/-- The words in order. -/
def Registers.toList (r : Registers) : List Word :=
  [r.a, r.b, r.c, r.d, r.e, r.f, r.g, r.h]

/-- The hash value at the start: square roots of the first eight primes. -/
def initialHash : Registers where
  a := rootFraction 2 2
  b := rootFraction 2 3
  c := rootFraction 2 5
  d := rootFraction 2 7
  e := rootFraction 2 11
  f := rootFraction 2 13
  g := rootFraction 2 17
  h := rootFraction 2 19

/-! ## One block -/

/-- Word `t` of a block. -/
def word (block : List Byte) (t : ℕ) : Word :=
  block.getD (4 * t) 0 ++ block.getD (4 * t + 1) 0 ++ block.getD (4 * t + 2) 0 ++ block.getD (4 * t + 3) 0

/-- The message schedule. -/
def schedule (block : List Byte) (t : ℕ) : Word :=
  if t < 16 then word block t
  else smallSigma1 (schedule block (t - 2)) + schedule block (t - 7) +
    smallSigma0 (schedule block (t - 15)) + schedule block (t - 16)

/-- A round, with its constant and its word of the schedule. -/
def round (r : Registers) (constant w : Word) : Registers :=
  let t₁ := r.h + bigSigma1 r.e + ch r.e r.f r.g + constant + w
  let t₂ := bigSigma0 r.a + maj r.a r.b r.c
  { a := t₁ + t₂
    b := r.a
    c := r.b
    d := r.c
    e := r.d + t₁
    f := r.e
    g := r.f
    h := r.g }

/-- The hash value after a block. -/
def compress (hash : Registers) (block : List Byte) : Registers :=
  let r := (List.range 64).foldl (fun r t => round r (roundConstants.getD t 0) (schedule block t)) hash
  { a := hash.a + r.a
    b := hash.b + r.b
    c := hash.c + r.c
    d := hash.d + r.d
    e := hash.e + r.e
    f := hash.f + r.f
    g := hash.g + r.g
    h := hash.h + r.h }

/-! ## Messages -/

/-- The number of zero bytes after the byte that ends a message of `length` bytes. -/
def zeroBytes (length : ℕ) : ℕ :=
  (119 - length % 64) % 64

/-- The length of a message in bits, in 64 bits. -/
def lengthField (length : ℕ) : List Byte :=
  (List.range 8).map fun i => (BitVec.ofNat 64 (8 * length)).extractLsb' (8 * (7 - i)) 8

/-- The end of a message: a bit that is set, zeros, and the length. -/
def padding (length : ℕ) : List Byte :=
  0x80#8 :: List.replicate (zeroBytes length) 0 ++ lengthField length

/-- Block `i` of a message. -/
def block (message : List Byte) (i : ℕ) : List Byte :=
  (message.drop (64 * i)).take 64

/-- The hash value after the first `n` blocks. -/
def absorb (message : List Byte) (n : ℕ) : Registers :=
  (List.range n).foldl (fun hash i => compress hash (block message i)) initialHash

/-- The hash value of a message. -/
def digest (message : List Byte) : Registers :=
  let padded := message ++ padding message.length
  absorb padded (padded.length / 64)

/-- The eight hexadecimal digits of a word. -/
def hexWord (w : Word) : List Char :=
  (List.range 8).map fun i => Nat.digitChar (w.extractLsb' (4 * (7 - i)) 4).toNat

/-- The digest, in hexadecimal digits. -/
def hexDigest (message : List Byte) : List Char :=
  (digest message).toList.flatMap hexWord

/-! ## Blocks of a message -/

section

variable {message rest : List Byte} {n t : ℕ}

theorem schedule_of_lt {block : List Byte} (ht : t < 16) : schedule block t = word block t := by
  rw [schedule, if_pos ht]

theorem schedule_of_le {block : List Byte} (ht : 16 ≤ t) :
    schedule block t = smallSigma1 (schedule block (t - 2)) + schedule block (t - 7) +
      smallSigma0 (schedule block (t - 15)) + schedule block (t - 16) := by
  rw [schedule, if_neg (not_lt.mpr ht)]

theorem absorb_zero : absorb message 0 = initialHash := by
  rw [absorb, List.range_zero, List.foldl_nil]

theorem absorb_succ : absorb message (n + 1) = compress (absorb message n) (block message n) := by
  rw [absorb, List.range_succ, List.foldl_append]
  rfl

/-- What follows a block does not change it. -/
theorem block_append (hn : 64 * (n + 1) ≤ message.length) : block (message ++ rest) n = block message n := by
  rw [block, List.drop_append_of_le_length (by omega), List.take_append_of_le_length, block]
  rw [List.length_drop]
  omega

theorem absorb_append (hn : 64 * n ≤ message.length) : absorb (message ++ rest) n = absorb message n := by
  induction n with
  | zero => rw [absorb_zero, absorb_zero]
  | succ n ih => rw [absorb_succ, absorb_succ, ih (by omega), block_append hn]

/-- The last block of a message of whole blocks. -/
theorem block_eq_drop (hn : message.length = 64 * (n + 1)) : block message n = message.drop (64 * n) := by
  refine List.take_of_length_le ?_
  rw [List.length_drop]
  omega

theorem length_lengthField : (lengthField n).length = 8 := rfl

theorem zeroBytes_of_lt (hn : n % 64 < 56) : zeroBytes n = 55 - n % 64 := by
  unfold zeroBytes
  omega

theorem zeroBytes_of_le (hn : 56 ≤ n % 64) : zeroBytes n = 119 - n % 64 := by
  unfold zeroBytes
  omega

theorem length_padding : (padding n).length = zeroBytes n + 9 := by
  rw [padding, List.length_append, List.length_cons, List.length_replicate, length_lengthField]

/-- A message whose padding fits the last block. -/
theorem digest_of_lt (hlast : message.length % 64 < 56) :
    digest message = compress (absorb message (message.length / 64))
      (message.drop (64 * (message.length / 64)) ++
        (0x80#8 :: List.replicate (55 - message.length % 64) 0 ++ lengthField message.length)) := by
  have hlength : (message ++ padding message.length).length = 64 * (message.length / 64 + 1) := by
    rw [List.length_append, length_padding, zeroBytes_of_lt hlast]
    omega
  rw [digest, hlength, Nat.mul_div_cancel_left _ (by decide), absorb_succ, absorb_append (by omega),
    block_eq_drop hlength, List.drop_append_of_le_length (by omega), padding, zeroBytes_of_lt hlast]

/-- A message whose padding takes another block. -/
theorem digest_of_le (hlast : 56 ≤ message.length % 64) :
    digest message = compress
      (compress (absorb message (message.length / 64))
        (message.drop (64 * (message.length / 64)) ++
          0x80#8 :: List.replicate (63 - message.length % 64) 0))
      (List.replicate 56 0 ++ lengthField message.length) := by
  have hzeros : List.replicate (zeroBytes message.length) (0 : Byte) =
      List.replicate (63 - message.length % 64) 0 ++ List.replicate 56 0 := by
    rw [List.replicate_append_replicate, zeroBytes_of_le hlast]
    congr 1
    omega
  have hpadded : message ++ padding message.length =
      message ++ 0x80#8 :: List.replicate (63 - message.length % 64) 0 ++
        (List.replicate 56 0 ++ lengthField message.length) := by
    rw [padding, hzeros]
    simp only [List.append_assoc, List.cons_append]
  have hfilled : (message ++ 0x80#8 :: List.replicate (63 - message.length % 64) 0).length =
      64 * (message.length / 64 + 1) := by
    rw [List.length_append, List.length_cons, List.length_replicate]
    omega
  have hlength : (message ++ padding message.length).length = 64 * (message.length / 64 + 1 + 1) := by
    rw [hpadded, List.length_append, hfilled, List.length_append, List.length_replicate, length_lengthField]
    omega
  have hlastBlock : block (message ++ padding message.length) (message.length / 64 + 1) =
      List.replicate 56 0 ++ lengthField message.length := by
    rw [block_eq_drop hlength, hpadded, List.drop_left' hfilled]
  have hfirstBlock : block (message ++ 0x80#8 :: List.replicate (63 - message.length % 64) 0)
      (message.length / 64) = message.drop (64 * (message.length / 64)) ++
        0x80#8 :: List.replicate (63 - message.length % 64) 0 := by
    rw [block_eq_drop hfilled, List.drop_append_of_le_length (by omega)]
  rw [digest, hlength, Nat.mul_div_cancel_left _ (by decide), absorb_succ, hlastBlock, hpadded,
    absorb_append (by omega), absorb_succ, hfirstBlock, absorb_append (by omega)]

end

end Sha256
