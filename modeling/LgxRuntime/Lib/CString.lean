import Mathlib.Data.List.TakeDrop

/-!
# C strings

The characters of a C string are the bytes in front of its terminating zero.  `truncate n` is what
`strncpy` leaves of a string in a buffer of `n + 1` bytes whose last byte is zero.
-/

/-- The bytes of a C string in front of its terminating zero. -/
structure CString where
  bytes : List UInt8
  noZero : (0 : UInt8) ∉ bytes
  deriving DecidableEq

namespace CString

/-- `strlen`. -/
def length (s : CString) : ℕ :=
  s.bytes.length

/-- The first `n` characters. -/
def truncate (n : ℕ) (s : CString) : CString where
  bytes := s.bytes.take n
  noZero := fun h => s.noZero (List.mem_of_mem_take h)

/-- A string of `n` equal characters. -/
def replicate (n : ℕ) (c : UInt8) (hc : (c == 0) = false) : CString where
  bytes := List.replicate n c
  noZero := fun h => ne_of_beq_false hc (List.eq_of_mem_replicate h).symm

/-- No byte of the empty string. -/
theorem zero_notMem_nil : (0 : UInt8) ∉ [] := List.not_mem_nil

/-- The character `a`. -/
theorem beq_zero_a : ((97 : UInt8) == 0) = false := rfl

/-- The character `b`. -/
theorem beq_zero_b : ((98 : UInt8) == 0) = false := rfl

theorem ext_iff {s t : CString} : s = t ↔ s.bytes = t.bytes := by
  cases s
  cases t
  simp

/-- A string that fits is kept as it is, and no other. -/
theorem truncate_eq_self_iff {n : ℕ} {s : CString} : s.truncate n = s ↔ s.length ≤ n := by
  rw [ext_iff]
  exact List.take_eq_self_iff s.bytes

end CString
