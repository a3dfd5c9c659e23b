import Mathlib.Algebra.Order.Ring.Nat
import Mathlib.Tactic.Common

/-!
# Little-endian fields

A 16-bit count stored as its low byte followed by its high byte, and a 32-bit value stored as four
bytes, written with masks and shifts and read back with shifts and ors.
-/

namespace LittleEndian

/-- `(uint8_t)(n & 0xFF)`. -/
def lowByte (n : ℕ) : UInt8 :=
  UInt8.ofNat (n &&& 0xFF)

/-- `(uint8_t)((n >> 8) & 0xFF)`. -/
def highByte (n : ℕ) : UInt8 :=
  UInt8.ofNat ((n >>> 8) &&& 0xFF)

/-- `lo | ((uint16_t)hi << 8)`. -/
def u16 (lo hi : UInt8) : ℕ :=
  lo.toNat ||| (hi.toNat <<< 8)

theorem toNat_lowByte (n : ℕ) : (lowByte n).toNat = n % 256 := by
  have hmask : n &&& 0xFF = n % 256 := Nat.and_two_pow_sub_one_eq_mod n 8
  rw [lowByte, UInt8.toNat_ofNat', hmask]
  omega

theorem toNat_highByte (n : ℕ) : (highByte n).toNat = n / 256 % 256 := by
  have hmask : (n >>> 8) &&& 0xFF = (n >>> 8) % 256 := Nat.and_two_pow_sub_one_eq_mod _ 8
  rw [highByte, UInt8.toNat_ofNat', hmask, Nat.shiftRight_eq_div_pow]
  omega

theorem u16_eq (lo hi : UInt8) : u16 lo hi = hi.toNat * 256 + lo.toNat := by
  rw [u16, Nat.or_comm, ← Nat.shiftLeft_add_eq_or_of_lt lo.toNat_lt, Nat.shiftLeft_eq]

theorem u16_lt (lo hi : UInt8) : u16 lo hi < 2 ^ 16 := by
  have hlo := lo.toNat_lt
  have hhi := hi.toNat_lt
  rw [u16_eq]
  omega

/-- A count that fits 16 bits is read back as written. -/
theorem u16_bytes {n : ℕ} (hn : n < 2 ^ 16) : u16 (lowByte n) (highByte n) = n := by
  rw [u16_eq, toNat_lowByte, toNat_highByte]
  omega

/-! ## 32 bits -/

/-- `(uint8_t)((n >> 8 * k) & 0xFF)`. -/
def byteAt (n k : ℕ) : UInt8 :=
  UInt8.ofNat ((n >>> (8 * k)) &&& 0xFF)

/-- `b0 | ((uint32_t)b1 << 8) | ((uint32_t)b2 << 16) | ((uint32_t)b3 << 24)`. -/
def u32 (b0 b1 b2 b3 : UInt8) : ℕ :=
  b0.toNat ||| (b1.toNat <<< 8) ||| (b2.toNat <<< 16) ||| (b3.toNat <<< 24)

theorem toNat_byteAt (n k : ℕ) : (byteAt n k).toNat = n / 2 ^ (8 * k) % 256 := by
  have hmask : (n >>> (8 * k)) &&& 0xFF = (n >>> (8 * k)) % 256 := Nat.and_two_pow_sub_one_eq_mod _ 8
  rw [byteAt, UInt8.toNat_ofNat', hmask, Nat.shiftRight_eq_div_pow]
  omega

theorem u32_eq (b0 b1 b2 b3 : UInt8) :
    u32 b0 b1 b2 b3 = b0.toNat + b1.toNat * 2 ^ 8 + b2.toNat * 2 ^ 16 + b3.toNat * 2 ^ 24 := by
  have h0 := b0.toNat_lt
  have h1 := b1.toNat_lt
  have h2 := b2.toNat_lt
  -- every shifted byte lies above the sum of the ones before it
  have hone : b0.toNat ||| (b1.toNat <<< 8) = b0.toNat + b1.toNat * 2 ^ 8 := by
    rw [Nat.or_comm, ← Nat.shiftLeft_add_eq_or_of_lt h0, Nat.shiftLeft_eq, Nat.add_comm]
  have htwo : (b0.toNat + b1.toNat * 2 ^ 8) ||| (b2.toNat <<< 16) =
      b0.toNat + b1.toNat * 2 ^ 8 + b2.toNat * 2 ^ 16 := by
    rw [Nat.or_comm, ← Nat.shiftLeft_add_eq_or_of_lt (by omega), Nat.shiftLeft_eq, Nat.add_comm]
  rw [u32, hone, htwo, Nat.or_comm, ← Nat.shiftLeft_add_eq_or_of_lt (by omega), Nat.shiftLeft_eq,
    Nat.add_comm]

/-- A value that fits 32 bits is read back as written. -/
theorem u32_bytes {n : ℕ} (hn : n < 2 ^ 32) :
    u32 (byteAt n 0) (byteAt n 1) (byteAt n 2) (byteAt n 3) = n := by
  simp only [u32_eq, toNat_byteAt]
  omega

theorem u32_lt (b0 b1 b2 b3 : UInt8) : u32 b0 b1 b2 b3 < 2 ^ 32 := by
  have h0 := b0.toNat_lt
  have h1 := b1.toNat_lt
  have h2 := b2.toNat_lt
  have h3 := b3.toNat_lt
  rw [u32_eq]
  omega

/-- The four bytes of a value. -/
def u32Bytes (n : ℕ) : List UInt8 :=
  [byteAt n 0, byteAt n 1, byteAt n 2, byteAt n 3]

/-- Four bytes are those of the value that they make. -/
theorem u32Bytes_u32 (b0 b1 b2 b3 : UInt8) : u32Bytes (u32 b0 b1 b2 b3) = [b0, b1, b2, b3] := by
  have h0 := b0.toNat_lt
  have h1 := b1.toNat_lt
  have h2 := b2.toNat_lt
  have h3 := b3.toNat_lt
  have hbyte : ∀ {b : UInt8} {k : ℕ}, u32 b0 b1 b2 b3 / 2 ^ (8 * k) % 256 = b.toNat →
      byteAt (u32 b0 b1 b2 b3) k = b := by
    intro b k hb
    apply UInt8.toNat_inj.mp
    rw [toNat_byteAt, hb]
  rw [u32Bytes, hbyte (k := 0) (b := b0), hbyte (k := 1) (b := b1), hbyte (k := 2) (b := b2),
    hbyte (k := 3) (b := b3)]
  all_goals rw [u32_eq]; omega

end LittleEndian
