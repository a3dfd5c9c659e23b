import Mathlib.Data.List.Basic

/-!
# UTF-8

The bytes of a list of characters.  A byte below 128 is a character of its own, wherever it is found, since the
bytes of all other characters are larger: an encoding can be cut at such a byte.
-/

namespace Utf8

/-- The bytes of some characters. -/
def encode (chars : List Char) : List UInt8 :=
  chars.flatMap String.utf8EncodeChar

/-- The character is encoded as it is. -/
def IsAscii (c : Char) : Prop :=
  c.toNat < 128

instance : DecidablePred IsAscii := fun c => inferInstanceAs (Decidable (c.toNat < 128))

/-- All characters are encoded as they are. -/
def AllAscii (chars : List Char) : Prop :=
  ∀ c ∈ chars, IsAscii c

instance : DecidablePred AllAscii := fun chars => List.decidableBAll IsAscii chars

@[simp] theorem encode_nil : encode [] = [] := rfl

@[simp] theorem encode_cons (c : Char) (chars : List Char) :
    encode (c :: chars) = String.utf8EncodeChar c ++ encode chars := rfl

@[simp] theorem encode_append (chars chars' : List Char) :
    encode (chars ++ chars') = encode chars ++ encode chars' :=
  List.flatMap_append

/-! ## One character -/

theorem encodeChar_of_isAscii {c : Char} (h : IsAscii c) : String.utf8EncodeChar c = [UInt8.ofNat c.toNat] :=
  if_pos (Nat.le_of_lt_succ h)

/-- The bytes of a character that is not encoded as it is are not less than 128. -/
theorem encodeChar_of_not_isAscii {c : Char} (h : ¬ IsAscii c) :
    ∀ b ∈ String.utf8EncodeChar c, 128 ≤ b.toNat := by
  have hbyte (n m : ℕ) (hn : 128 ≤ n) (hm : m < 256 - n) : 128 ≤ (UInt8.ofNat (m + n)).toNat := by
    rw [UInt8.toNat_ofNat_of_lt' (by unfold UInt8.size; omega)]
    omega
  have hlarge : ¬ c.val.toNat ≤ 0x7f := fun hle => h (Nat.lt_succ_of_le hle)
  unfold String.utf8EncodeChar
  dsimp only
  rw [if_neg hlarge]
  split_ifs <;> simp only [List.forall_mem_cons, List.not_mem_nil, false_implies, implies_true, and_true]
  all_goals
    refine ⟨hbyte _ _ (by decide) (by omega), ?_⟩
  · exact hbyte _ _ (by decide) (by omega)
  · exact ⟨hbyte _ _ (by decide) (by omega), hbyte _ _ (by decide) (by omega)⟩
  · exact ⟨hbyte _ _ (by decide) (by omega), hbyte _ _ (by decide) (by omega), hbyte _ _ (by decide) (by omega)⟩

theorem encode_of_allAscii {chars : List Char} (h : AllAscii chars) :
    encode chars = chars.map fun c => UInt8.ofNat c.toNat := by
  induction chars with
  | nil => rfl
  | cons c chars ih =>
      rw [encode_cons, encodeChar_of_isAscii (h c List.mem_cons_self), ih fun c hc => h c (List.mem_cons_of_mem _ hc)]
      rfl

theorem AllAscii.append {chars chars' : List Char} (h : AllAscii chars) (h' : AllAscii chars') :
    AllAscii (chars ++ chars') :=
  List.forall_mem_append.mpr ⟨h, h'⟩

theorem length_encode_singleton_le (c : Char) : (encode [c]).length ≤ 4 := by
  rw [encode_cons, encode_nil, List.append_nil, String.length_utf8EncodeChar]
  exact c.utf8Size_le_four

theorem length_encode_singleton {c : Char} (h : IsAscii c) : (encode [c]).length = 1 := by
  rw [encode_cons, encode_nil, List.append_nil, encodeChar_of_isAscii h, List.length_singleton]

theorem length_encode_cons (c : Char) (chars : List Char) :
    (encode (c :: chars)).length = (encode [c]).length + (encode chars).length := by
  rw [encode_cons, encode_cons, encode_nil, List.append_nil, List.length_append]

theorem length_le_length_encode (chars : List Char) : chars.length ≤ (encode chars).length := by
  induction chars with
  | nil => exact Nat.le_refl 0
  | cons c chars ih =>
      have hpos := c.utf8Size_pos
      rw [encode_cons, List.length_append, String.length_utf8EncodeChar, List.length_cons]
      omega

theorem encode_eq_nil_iff {chars : List Char} : encode chars = [] ↔ chars = [] := by
  constructor
  · intro h
    have hle := length_le_length_encode chars
    rw [h, List.length_nil, Nat.le_zero] at hle
    exact List.length_eq_zero_iff.mp hle
  · rintro rfl
    rfl

/-- The character of a small byte. -/
theorem eq_of_mem_encodeChar {b : UInt8} {c c' : Char} (hc' : IsAscii c') (hb : b = UInt8.ofNat c'.toNat)
    (hmem : b ∈ String.utf8EncodeChar c) : c = c' ∧ String.utf8EncodeChar c = [b] := by
  have hnat : b.toNat = c'.toNat := by
    unfold IsAscii at hc'
    rw [hb, UInt8.toNat_ofNat_of_lt' (by unfold UInt8.size; omega)]
  have hc : IsAscii c := by
    by_contra hc
    have hlarge := encodeChar_of_not_isAscii hc b hmem
    unfold IsAscii at hc'
    omega
  rw [encodeChar_of_isAscii hc, List.mem_singleton] at hmem
  have hnat' : b.toNat = c.toNat := by
    unfold IsAscii at hc
    rw [hmem, UInt8.toNat_ofNat_of_lt' (by unfold UInt8.size; omega)]
  refine ⟨?_, ?_⟩
  · rw [← Char.ofNat_toNat c, ← hnat', hnat, Char.ofNat_toNat]
  · rw [encodeChar_of_isAscii hc, hmem]

/-! ## Cutting an encoding -/

/-- An encoding is cut at a character that is encoded as it is. -/
theorem cut {chars : List Char} (c : Char) (left : List UInt8) {right : List UInt8} (hc : IsAscii c)
    (h : encode chars = left ++ UInt8.ofNat c.toNat :: right) :
    ∃ before after, chars = before ++ c :: after ∧ encode before = left ∧ encode after = right := by
  induction chars generalizing left with
  | nil => simp at h
  | cons first chars ih =>
      rw [encode_cons, List.append_eq_append_iff] at h
      obtain ⟨left', hleft, h⟩ | ⟨bytes, hbytes, h⟩ := h
      · obtain ⟨before, after, rfl, hbefore, hafter⟩ := ih left' h
        exact ⟨first :: before, after, rfl, by rw [encode_cons, hbefore, hleft], hafter⟩
      · cases bytes with
        | nil =>
            rw [List.nil_append] at h
            rw [List.append_nil] at hbytes
            obtain ⟨before, after, rfl, hbefore, hafter⟩ := ih [] (by rw [← h, List.nil_append])
            exact ⟨first :: before, after, rfl, by rw [encode_cons, hbefore, hbytes, List.append_nil], hafter⟩
        | cons b bytes =>
            rw [List.cons_append, List.cons.injEq] at h
            obtain ⟨hb, hright⟩ := h
            obtain ⟨rfl, hone⟩ := eq_of_mem_encodeChar hc hb.symm (hbytes ▸ List.mem_append_right _ List.mem_cons_self)
            rw [hone] at hbytes
            have hlength := congrArg List.length hbytes
            rw [List.length_singleton, List.length_append, List.length_cons] at hlength
            have hleft : left = [] := List.length_eq_zero_iff.mp (by omega)
            have hnone : bytes = [] := List.length_eq_zero_iff.mp (by omega)
            exact ⟨[], chars, rfl, hleft.symm, by rw [hright, hnone, List.nil_append]⟩

/-- An encoding that begins with characters that are encoded as they are. -/
theorem cut_front {chars : List Char} (front : List Char) {right : List UInt8} (hfront : AllAscii front)
    (h : encode chars = encode front ++ right) :
    ∃ after, chars = front ++ after ∧ encode after = right := by
  induction front generalizing chars with
  | nil => exact ⟨chars, rfl, h⟩
  | cons c front ih =>
      have hc := hfront c List.mem_cons_self
      rw [encode_cons, encodeChar_of_isAscii hc] at h
      obtain ⟨before, after, rfl, hbefore, hafter⟩ := cut c [] hc h
      obtain ⟨rest, rfl, hrest⟩ := ih (fun c hc => hfront c (List.mem_cons_of_mem _ hc)) hafter
      rw [encode_eq_nil_iff] at hbefore
      exact ⟨rest, by rw [hbefore]; rfl, hrest⟩

end Utf8
