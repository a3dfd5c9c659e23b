import LgxRuntime.Lib.Utf8
import Mathlib.Data.List.TakeDrop

/-!
# JSON

The grammar of RFC 8259.  `ReadsValue v input rest` says that the value `v` is read off the front of `input` and
that `rest` remains; spaces, numbers and strings are read as far as they go, so that what is read is determined.
The name of a string is the list of its characters, with the escapes resolved; one half of a surrogate pair
stands for U+FFFD.
-/

namespace Json

/-- A JSON value.  A number is kept as it is written. -/
inductive Value
  | null
  | bool (b : Bool)
  | number (text : List Char)
  | string (chars : List Char)
  | array (elements : List Value)
  | object (members : List (List Char × Value))

/-! ## Spaces, strings and numbers -/

/-- The insignificant characters. -/
def isSpace (c : Char) : Bool :=
  c = ' ' || c = '\t' || c = '\n' || c = '\r'

/-- The input behind its spaces. -/
def skip (input : List Char) : List Char :=
  input.dropWhile isSpace

/-- The value of a hexadecimal digit. -/
def hexDigit (c : Char) : Option ℕ :=
  if '0' ≤ c ∧ c ≤ '9' then some (c.toNat - 48)
  else if 'a' ≤ c ∧ c ≤ 'f' then some (c.toNat - 87)
  else if 'A' ≤ c ∧ c ≤ 'F' then some (c.toNat - 55)
  else none

/-- The code unit that is written with four hexadecimal digits. -/
def codeUnit : List Char → Option (ℕ × List Char)
  | a :: b :: c :: d :: rest =>
      match hexDigit a, hexDigit b, hexDigit c, hexDigit d with
      | some a, some b, some c, some d => some (((a * 16 + b) * 16 + c) * 16 + d, rest)
      | _, _, _, _ => none
  | _ => none

/-- U+FFFD. -/
def replacement : Char := Char.ofNat 0xFFFD

/-- The low half of a surrogate pair, if one is written here. -/
def lowHalf : List Char → Option (ℕ × List Char)
  | '\\' :: 'u' :: input =>
      match codeUnit input with
      | some (low, rest) => if 0xDC00 ≤ low ∧ low < 0xE000 then some (low, rest) else none
      | none => none
  | _ => none

/-- The character of an escape, without its backslash. -/
def escape : List Char → Option (Char × List Char)
  | '"' :: rest => some ('"', rest)
  | '\\' :: rest => some ('\\', rest)
  | '/' :: rest => some ('/', rest)
  | 'b' :: rest => some (Char.ofNat 8, rest)
  | 'f' :: rest => some (Char.ofNat 12, rest)
  | 'n' :: rest => some ('\n', rest)
  | 'r' :: rest => some ('\r', rest)
  | 't' :: rest => some ('\t', rest)
  | 'u' :: input =>
      match codeUnit input with
      | none => none
      | some (unit, rest) =>
          if 0xD800 ≤ unit ∧ unit < 0xDC00 then
            match lowHalf rest with
            | some (low, rest) => some (Char.ofNat (0x10000 + (unit - 0xD800) * 0x400 + (low - 0xDC00)), rest)
            | none => some (replacement, rest)
          else if 0xDC00 ≤ unit ∧ unit < 0xE000 then some (replacement, rest)
          else some (Char.ofNat unit, rest)
  | _ => none

/-- The characters of a string may be written as they are. -/
def IsPlain (c : Char) : Prop :=
  0x20 ≤ c.toNat ∧ c ≠ '"' ∧ c ≠ '\\'

instance : DecidablePred IsPlain := fun c => inferInstanceAs (Decidable (0x20 ≤ c.toNat ∧ c ≠ '"' ∧ c ≠ '\\'))

/-- The characters may all be written as they are. -/
def AllPlain (chars : List Char) : Prop :=
  ∀ c ∈ chars, IsPlain c

instance : DecidablePred AllPlain := fun chars => List.decidableBAll IsPlain chars

/-- The characters of a string, behind its opening quotation mark. -/
inductive ReadsString : List Char → List Char → List Char → Prop
  | close {rest : List Char} : ReadsString [] ('"' :: rest) rest
  | plain {c : Char} {chars input rest : List Char} (hc : IsPlain c) (h : ReadsString chars input rest) :
      ReadsString (c :: chars) (c :: input) rest
  | escaped {c : Char} {chars input input' rest : List Char} (hc : escape input = some (c, input'))
      (h : ReadsString chars input' rest) : ReadsString (c :: chars) ('\\' :: input) rest

/-- One digit or more. -/
def digits (input : List Char) : Option (List Char × List Char) :=
  match input.span Char.isDigit with
  | ([], _) => none
  | (text, rest) => some (text, rest)

/-- The integer part of a number, which has no leading zero. -/
def integer : List Char → Option (List Char × List Char)
  | '0' :: rest => some (['0'], rest)
  | input => digits input

/-- The fraction of a number, if there is one. -/
def fraction : List Char → Option (List Char × List Char)
  | '.' :: input => (digits input).map fun p => ('.' :: p.1, p.2)
  | input => some ([], input)

/-- The sign of an exponent, if there is one. -/
def sign : List Char → List Char × List Char
  | '+' :: input => (['+'], input)
  | '-' :: input => (['-'], input)
  | input => ([], input)

/-- The exponent of a number, if there is one. -/
def exponent : List Char → Option (List Char × List Char)
  | [] => some ([], [])
  | c :: input =>
      if c = 'e' ∨ c = 'E' then (digits (sign input).2).map fun p => (c :: (sign input).1 ++ p.1, p.2)
      else some ([], c :: input)

/-- The parts of a number behind its minus sign. -/
def unsigned (input : List Char) : Option (List Char × List Char) :=
  match integer input with
  | none => none
  | some (whole, input) =>
      match fraction input with
      | none => none
      | some (part, input) => (exponent input).map fun p => (whole ++ part ++ p.1, p.2)

/-- A number. -/
def number : List Char → Option (List Char × List Char)
  | '-' :: input => (unsigned input).map fun p => ('-' :: p.1, p.2)
  | input => unsigned input

/-! ## Values -/

mutual

/-- A value is read. -/
inductive ReadsValue : Value → List Char → List Char → Prop
  | null {rest : List Char} : ReadsValue .null ('n' :: 'u' :: 'l' :: 'l' :: rest) rest
  | true {rest : List Char} : ReadsValue (.bool true) ('t' :: 'r' :: 'u' :: 'e' :: rest) rest
  | false {rest : List Char} : ReadsValue (.bool false) ('f' :: 'a' :: 'l' :: 's' :: 'e' :: rest) rest
  | number {text input rest : List Char} (h : number input = some (text, rest)) :
      ReadsValue (.number text) input rest
  | string {chars input rest : List Char} (h : ReadsString chars input rest) :
      ReadsValue (.string chars) ('"' :: input) rest
  | emptyArray {input rest : List Char} (h : skip input = ']' :: rest) : ReadsValue (.array []) ('[' :: input) rest
  | array {elements : List Value} {input rest : List Char} (h : ReadsElements elements (skip input) rest) :
      ReadsValue (.array elements) ('[' :: input) rest
  | emptyObject {input rest : List Char} (h : skip input = '}' :: rest) :
      ReadsValue (.object []) ('{' :: input) rest
  | object {members : List (List Char × Value)} {input rest : List Char}
      (h : ReadsMembers members (skip input) rest) : ReadsValue (.object members) ('{' :: input) rest

/-- The elements of an array are read, with the bracket behind them. -/
inductive ReadsElements : List Value → List Char → List Char → Prop
  | last {v : Value} {input after rest : List Char} (hv : ReadsValue v input after)
      (hclose : skip after = ']' :: rest) : ReadsElements [v] input rest
  | more {v : Value} {elements : List Value} {input after next rest : List Char} (hv : ReadsValue v input after)
      (hcomma : skip after = ',' :: next) (h : ReadsElements elements (skip next) rest) :
      ReadsElements (v :: elements) input rest

/-- The members of an object are read, with the brace behind them. -/
inductive ReadsMembers : List (List Char × Value) → List Char → List Char → Prop
  | last {key : List Char} {v : Value} {input colon text after rest : List Char}
      (hkey : ReadsString key input colon) (hcolon : skip colon = ':' :: text) (hv : ReadsValue v (skip text) after)
      (hclose : skip after = '}' :: rest) : ReadsMembers [(key, v)] ('"' :: input) rest
  | more {key : List Char} {v : Value} {members : List (List Char × Value)}
      {input colon text after next rest : List Char} (hkey : ReadsString key input colon)
      (hcolon : skip colon = ':' :: text) (hv : ReadsValue v (skip text) after) (hcomma : skip after = ',' :: next)
      (h : ReadsMembers members (skip next) rest) : ReadsMembers ((key, v) :: members) ('"' :: input) rest

end

/-- A JSON text: one value, with spaces around it. -/
def IsText (v : Value) (text : List Char) : Prop :=
  ∃ rest, ReadsValue v (skip text) rest ∧ skip rest = []

/-- The values of the members of an object with this key. -/
def Value.get (key : List Char) : Value → List Value
  | .object members => (members.filter fun m => m.1 = key).map Prod.snd
  | _ => []

/-! ## Strings -/

variable {c : Char} {chars s input after next rest key text : List Char}

theorem codeUnit_consumes {unit : ℕ} (h : codeUnit input = some (unit, rest)) :
    ∃ escaped, input = escaped ++ rest ∧ escaped.length = 4 ∧ '"' ∉ escaped := by
  have hquote : hexDigit '"' = none := by decide
  unfold codeUnit at h
  split at h
  · next a b c d rest' =>
      split at h
      · next ha hb hc hd =>
          obtain ⟨-, rfl⟩ := Prod.mk.inj (Option.some.inj h)
          refine ⟨[a, b, c, d], rfl, rfl, fun hmem => ?_⟩
          simp only [List.mem_cons, List.not_mem_nil, or_false] at hmem
          obtain rfl | rfl | rfl | rfl := hmem
          · exact absurd (hquote.symm.trans ha) (by simp)
          · exact absurd (hquote.symm.trans hb) (by simp)
          · exact absurd (hquote.symm.trans hc) (by simp)
          · exact absurd (hquote.symm.trans hd) (by simp)
      · cases h
  · cases h

theorem lowHalf_consumes {low : ℕ} (h : lowHalf input = some (low, rest)) :
    ∃ escaped, input = escaped ++ rest ∧ '"' ∉ escaped := by
  unfold lowHalf at h
  split at h
  · next input =>
      split at h
      · next low' rest' hunit =>
          split_ifs at h
          obtain ⟨-, rfl⟩ := Prod.mk.inj (Option.some.inj h)
          obtain ⟨escaped, rfl, -, hquote⟩ := codeUnit_consumes hunit
          exact ⟨'\\' :: 'u' :: escaped, rfl, by simp [hquote]⟩
      · cases h
  · cases h

/-- An escape is at least as long as its character, and there is no quotation mark in it but one of its own. -/
theorem escape_consumes (h : escape input = some (c, rest)) :
    ∃ escaped, input = escaped ++ rest ∧ (Utf8.encode [c]).length ≤ escaped.length ∧
      (escaped = ['"'] ∨ '"' ∉ escaped) := by
  have hone (d c : Char) (rest : List Char) (hc : Utf8.IsAscii c) (hd : d = '"' ∨ d ≠ '"') :
      ∃ escaped, d :: rest = escaped ++ rest ∧ (Utf8.encode [c]).length ≤ escaped.length ∧
        (escaped = ['"'] ∨ '"' ∉ escaped) := by
    refine ⟨[d], rfl, Nat.le_of_eq (Utf8.length_encode_singleton hc), hd.imp (by rintro rfl; rfl) fun hd hmem => ?_⟩
    exact hd (List.mem_singleton.mp hmem).symm
  unfold escape at h
  split at h
  iterate 8
    · obtain ⟨rfl, rfl⟩ := Prod.mk.inj (Option.some.inj h)
      exact hone _ _ _ (by decide) (by decide)
  · next input =>
      split at h
      · cases h
      · next unit middle hunit =>
          obtain ⟨escaped, rfl, hlength, hquote⟩ := codeUnit_consumes hunit
          have hle (c : Char) : (Utf8.encode [c]).length ≤ ('u' :: escaped).length := by
            have hfour := Utf8.length_encode_singleton_le c
            rw [List.length_cons]
            omega
          have hquote' : '"' ∉ 'u' :: escaped := by simp [hquote]
          split_ifs at h
          · split at h
            · next low rest' hlow =>
                obtain ⟨rfl, rfl⟩ := Prod.mk.inj (Option.some.inj h)
                obtain ⟨escaped', rfl, hquote''⟩ := lowHalf_consumes hlow
                refine ⟨'u' :: escaped ++ escaped', by simp, ?_, Or.inr (by simp [hquote, hquote''])⟩
                rw [List.length_append]
                exact Nat.le_add_right_of_le (hle _)
            · obtain ⟨rfl, rfl⟩ := Prod.mk.inj (Option.some.inj h)
              exact ⟨'u' :: escaped, rfl, hle _, Or.inr hquote'⟩
          · obtain ⟨rfl, rfl⟩ := Prod.mk.inj (Option.some.inj h)
            exact ⟨'u' :: escaped, rfl, hle _, Or.inr hquote'⟩
          · obtain ⟨rfl, rfl⟩ := Prod.mk.inj (Option.some.inj h)
            exact ⟨'u' :: escaped, rfl, hle _, Or.inr hquote'⟩
  · cases h

theorem not_isPlain_quote : ¬ IsPlain '"' := by decide

theorem not_isPlain_backslash : ¬ IsPlain '\\' := by decide

/-- Plain characters are read as they are. -/
theorem readsString_iff (hs : AllPlain s) :
    ReadsString chars (s ++ '"' :: after) rest ↔ chars = s ∧ rest = after := by
  induction s generalizing chars with
  | nil =>
      constructor
      · intro h
        cases h with
        | close => exact ⟨rfl, rfl⟩
        | plain hc _ => exact absurd hc not_isPlain_quote
      · rintro ⟨rfl, rfl⟩
        exact .close
  | cons c s ih =>
      have hc := hs c List.mem_cons_self
      have hs' : AllPlain s := fun c hc => hs c (List.mem_cons_of_mem _ hc)
      rw [List.cons_append]
      constructor
      · intro h
        cases h with
        | close => exact absurd hc not_isPlain_quote
        | plain _ h =>
            obtain ⟨rfl, rfl⟩ := (ih hs').mp h
            exact ⟨rfl, rfl⟩
        | escaped _ _ => exact absurd hc not_isPlain_backslash
      · rintro ⟨rfl, rfl⟩
        exact .plain hc ((ih hs').mpr ⟨rfl, rfl⟩)

/-- No characters of a string go on behind a comma that ends its line. -/
theorem not_readsString_comma : ¬ ReadsString chars (',' :: '\n' :: after) rest := by
  intro h
  cases h with
  | plain _ h =>
      cases h with
      | plain hc _ => exact absurd hc (by decide)

/-- An escape ends in front of the next quotation mark, or is one. -/
theorem escape_ends (h : escape (s ++ '"' :: after) = some (c, rest)) :
    (∃ escaped s', s = escaped ++ s' ∧ rest = s' ++ '"' :: after ∧
      (Utf8.encode [c]).length ≤ escaped.length) ∨ rest = after := by
  obtain ⟨escaped, hinput, hlength, hquote⟩ := escape_consumes h
  rw [List.append_eq_append_iff] at hinput
  obtain ⟨left, rfl, hrest⟩ | ⟨left, rfl, hrest⟩ := hinput
  · cases left with
    | nil =>
        rw [List.append_nil] at hlength
        exact Or.inl ⟨s, [], (List.append_nil s).symm, hrest.symm, hlength⟩
    | cons d left =>
        rw [List.cons_append] at hrest
        obtain ⟨rfl, hafter⟩ := List.cons.inj hrest
        obtain hone | hnone := hquote
        · have hcount := congrArg List.length hone
          rw [List.length_append, List.length_cons, List.length_singleton] at hcount
          have hleft : left = [] := List.length_eq_zero_iff.mp (by omega)
          rw [hleft, List.nil_append] at hafter
          exact Or.inr hafter.symm
        · exact absurd (List.mem_append_right _ List.mem_cons_self) hnone
  · exact Or.inl ⟨escaped, left, rfl, hrest, hlength⟩

/-- What is read in front of a quotation mark is not longer than the text. -/
theorem ReadsString.length_le (h : ReadsString chars (s ++ '"' :: after) rest)
    (hs : AllPlain s ∨ (Utf8.encode chars).length < (Utf8.encode s).length) :
    (Utf8.encode chars).length ≤ (Utf8.encode s).length := by
  obtain hplain | hlt := hs
  · exact Nat.le_of_eq (congrArg (fun s => (Utf8.encode s).length) ((readsString_iff hplain).mp h).1)
  · exact Nat.le_of_lt hlt

/-- An escape makes what is read shorter than the text. -/
theorem length_escaped_lt {escaped : List Char} (hlength : (Utf8.encode [c]).length ≤ escaped.length)
    (hle : (Utf8.encode chars).length ≤ (Utf8.encode s).length) :
    (Utf8.encode (c :: chars)).length < (Utf8.encode ('\\' :: (escaped ++ s))).length := by
  have hescaped := Utf8.length_le_length_encode escaped
  have hone : (Utf8.encode ['\\']).length = 1 := Utf8.length_encode_singleton (by decide)
  rw [Utf8.length_encode_cons, Utf8.length_encode_cons _ (escaped ++ s), Utf8.encode_append, List.length_append,
    hone]
  omega

/-- A text in quotation marks is read as it is if it is plain; otherwise something shorter is read, if
anything is. -/
theorem ReadsString.plain_or_shorter (h : ReadsString chars input rest) (hinput : input = s ++ '"' :: after)
    (hafter : ∀ chars rest, ¬ ReadsString chars after rest) :
    AllPlain s ∨ (Utf8.encode chars).length < (Utf8.encode s).length := by
  induction h generalizing s with
  | close =>
      cases s with
      | nil => exact Or.inl (List.forall_mem_nil _)
      | cons c s =>
          refine Or.inr (Nat.lt_of_lt_of_le ?_ (Utf8.length_le_length_encode _))
          exact Nat.succ_pos _
  | plain hc h ih =>
      cases s with
      | nil =>
          obtain ⟨rfl, -⟩ := List.cons.inj hinput
          exact absurd hc not_isPlain_quote
      | cons c' s =>
          rw [List.cons_append] at hinput
          obtain ⟨rfl, htail⟩ := List.cons.inj hinput
          refine (ih htail).imp (fun hs => List.forall_mem_cons.mpr ⟨hc, hs⟩) fun hlt => ?_
          rw [Utf8.length_encode_cons, Utf8.length_encode_cons _ s]
          exact Nat.add_lt_add_left hlt _
  | escaped hescape h ih =>
      cases s with
      | nil => exact absurd (List.cons.inj hinput).1 (by decide)
      | cons c' s =>
          rw [List.cons_append] at hinput
          obtain ⟨rfl, rfl⟩ := List.cons.inj hinput
          obtain ⟨escaped, s', rfl, rfl, hlength⟩ | rfl := escape_ends hescape
          · exact Or.inr (length_escaped_lt hlength (h.length_le (ih rfl)))
          · exact absurd h (hafter _ _)

/-! ## Numbers -/

/-- A number ends in front of the character. -/
def EndsNumber (c : Char) : Prop :=
  c.isDigit = false ∧ c ≠ '.' ∧ c ≠ 'e' ∧ c ≠ 'E'

instance : DecidablePred EndsNumber := fun c =>
  inferInstanceAs (Decidable (c.isDigit = false ∧ c ≠ '.' ∧ c ≠ 'e' ∧ c ≠ 'E'))

theorem span_digits (after : List Char) (hdigits : ∀ d ∈ text, d.isDigit = true) (hc : c.isDigit = false) :
    (text ++ c :: after).span Char.isDigit = (text, c :: after) := by
  rw [List.span_eq_takeWhile_dropWhile, List.takeWhile_append_of_pos hdigits, List.dropWhile_append_of_pos hdigits,
    List.takeWhile_cons_of_neg (by simp [hc]), List.dropWhile_cons_of_neg (by simp [hc]), List.append_nil]

/-- The first digit of a number is not zero, unless it is the only one. -/
theorem toDigits_head (n : ℕ) :
    n = 0 ∨ ∃ d ds, Nat.toDigits 10 n = d :: ds ∧ d ≠ '0' := by
  induction n using Nat.strongRecOn with
  | ind n ih =>
      by_cases hsmall : n < 10
      · refine n.eq_zero_or_pos.imp_right fun hpos => ⟨n.digitChar, [], Nat.toDigits_of_lt_base hsmall, ?_⟩
        rw [ne_eq, Nat.digitChar_eq_zero]
        exact Nat.ne_of_gt hpos
      · have hlarge : 10 ≤ n := Nat.not_lt.mp hsmall
        obtain hzero | ⟨d, ds, hdigits, hd⟩ := ih (n / 10) (by omega)
        · omega
        · refine Or.inr ⟨d, ds ++ [(n % 10).digitChar], ?_, hd⟩
          rw [Nat.toDigits_of_base_le (by decide) hlarge, hdigits, List.cons_append]

theorem integer_toDigits (n : ℕ) (after : List Char) (hc : EndsNumber c) :
    integer (Nat.toDigits 10 n ++ c :: after) = some (Nat.toDigits 10 n, c :: after) := by
  obtain rfl | ⟨d, ds, hdigits, hd⟩ := toDigits_head n
  · rfl
  · have hall : ∀ d ∈ Nat.toDigits 10 n, d.isDigit = true :=
      fun d hd => Nat.isDigit_of_mem_toDigits (by decide) (by decide) hd
    have hspan := span_digits after hall hc.1
    rw [hdigits] at hspan ⊢
    rw [List.cons_append] at hspan ⊢
    unfold integer
    split
    · next heq => exact absurd (List.cons.inj heq).1 hd
    · unfold digits
      rw [hspan]

theorem number_toDigits (n : ℕ) (after : List Char) (hc : EndsNumber c) :
    number (Nat.toDigits 10 n ++ c :: after) = some (Nat.toDigits 10 n, c :: after) := by
  have hinteger := integer_toDigits n after hc
  have hfraction : fraction (c :: after) = some ([], c :: after) := by
    unfold fraction
    split
    · next heq => exact absurd (List.cons.inj heq).1 hc.2.1
    · rfl
  have hexponent : exponent (c :: after) = some ([], c :: after) :=
    if_neg (not_or.mpr hc.2.2)
  have hunsigned : unsigned (Nat.toDigits 10 n ++ c :: after) = some (Nat.toDigits 10 n, c :: after) := by
    unfold unsigned
    rw [hinteger]
    dsimp only
    rw [hfraction]
    dsimp only
    rw [hexponent, Option.map_some, List.append_nil, List.append_nil]
  unfold number
  split
  · next heq =>
      obtain ⟨d, ds, hdigits⟩ := List.exists_cons_of_ne_nil (Nat.toDigits_ne_nil (n := n) (b := 10))
      have hd : d.isDigit = true :=
        Nat.isDigit_of_mem_toDigits (b := 10) (n := n) (by decide) (by decide) (hdigits ▸ List.mem_cons_self)
      rw [hdigits, List.cons_append] at heq
      rw [(List.cons.inj heq).1] at hd
      exact absurd hd (by decide)
  · exact hunsigned

theorem number_eq_none (hdigit : c.isDigit = false) (hminus : c ≠ '-') : number (c :: input) = none := by
  have hdigits : digits (c :: input) = none := by
    unfold digits
    rw [List.span_eq_takeWhile_dropWhile, List.takeWhile_cons_of_neg (by simp [hdigit])]
  have hinteger : integer (c :: input) = none := by
    unfold integer
    split
    · next heq =>
        rw [(List.cons.inj heq).1] at hdigit
        exact absurd hdigit (by decide)
    · exact hdigits
  unfold number
  split
  · next heq => exact absurd (List.cons.inj heq).1 hminus
  · unfold unsigned
    rw [hinteger]

/-! ## Values that can be read in one way only -/

/-- The value is read, and no other can be. -/
def ReadsOnly (v : Value) (input after : List Char) : Prop :=
  ∀ v' after', ReadsValue v' input after' ↔ v' = v ∧ after' = after

/-- The members are read, and no others can be. -/
def ReadsOnlyMembers (members : List (List Char × Value)) (input after : List Char) : Prop :=
  ∀ members' after', ReadsMembers members' input after' ↔ members' = members ∧ after' = after

variable {v : Value} {elements : List Value} {members : List (List Char × Value)}

/-- A string. -/
theorem ReadsValue.string_inv (h : ReadsValue v ('"' :: input) rest) :
    ∃ chars, v = .string chars ∧ ReadsString chars input rest := by
  cases h with
  | number h => exact absurd ((number_eq_none (by decide) (by decide)).symm.trans h) (by simp)
  | string h => exact ⟨_, rfl, h⟩

theorem readsOnly_string (hs : AllPlain s) : ReadsOnly (.string s) ('"' :: (s ++ '"' :: after)) after := by
  intro v' after'
  constructor
  · intro h
    obtain ⟨chars, rfl, hchars⟩ := h.string_inv
    obtain ⟨rfl, rfl⟩ := (readsString_iff hs).mp hchars
    exact ⟨rfl, rfl⟩
  · rintro ⟨rfl, rfl⟩
    exact .string ((readsString_iff hs).mpr ⟨rfl, rfl⟩)

/-- A number that is not negative. -/
theorem readsOnly_toDigits (n : ℕ) (after : List Char) (hc : EndsNumber c) :
    ReadsOnly (.number (Nat.toDigits 10 n)) (Nat.toDigits 10 n ++ c :: after) (c :: after) := by
  have hnumber := number_toDigits n after hc
  obtain ⟨d, ds, hdigits⟩ := List.exists_cons_of_ne_nil (Nat.toDigits_ne_nil (n := n) (b := 10))
  have hd : d.isDigit = true :=
    Nat.isDigit_of_mem_toDigits (b := 10) (n := n) (by decide) (by decide) (hdigits ▸ List.mem_cons_self)
  intro v' after'
  constructor
  · intro h
    generalize hinput : Nat.toDigits 10 n ++ c :: after = input at h hnumber
    rw [hdigits, List.cons_append] at hinput
    cases h with
    | number h =>
        obtain ⟨rfl, rfl⟩ := Prod.mk.inj (Option.some.inj (hnumber.symm.trans h))
        exact ⟨rfl, rfl⟩
    | _ =>
        rw [(List.cons.inj hinput).1] at hd
        exact absurd hd (by decide)
  · rintro ⟨rfl, rfl⟩
    exact .number hnumber

/-- The first member of an object. -/
theorem ReadsMembers.first (key : List Char) (hkey : AllPlain key)
    (h : ReadsMembers members ('"' :: (key ++ '"' :: ':' :: input)) rest) :
    ∃ v members' after, members = (key, v) :: members' ∧ ReadsValue v (skip input) after ∧
      (members' = [] ∧ skip after = '}' :: rest ∨
        ∃ next, skip after = ',' :: next ∧ ReadsMembers members' (skip next) rest) := by
  cases h with
  | last hread hcolon hv hclose =>
      obtain ⟨rfl, rfl⟩ := (readsString_iff hkey).mp hread
      obtain rfl : input = _ := (List.cons.inj hcolon).2
      exact ⟨_, _, _, rfl, hv, Or.inl ⟨rfl, hclose⟩⟩
  | more hread hcolon hv hcomma h =>
      obtain ⟨rfl, rfl⟩ := (readsString_iff hkey).mp hread
      obtain rfl : input = _ := (List.cons.inj hcolon).2
      exact ⟨_, _, _, rfl, hv, Or.inr ⟨_, hcomma, h⟩⟩

/-- The first member is found under its key. -/
theorem Value.get_cons (key : List Char) (v : Value) (members : List (List Char × Value)) :
    (Value.object ((key, v) :: members)).get key = v :: (Value.object members).get key := by
  have hkey : decide (key = key) = true := decide_eq_true rfl
  exact congrArg (List.map Prod.snd) (List.filter_cons_of_pos hkey)

/-- The last member of an object. -/
theorem ReadsOnly.lastMember (key input : List Char) (hkey : AllPlain key)
    (hv : ReadsOnly v (skip input) after) (hclose : skip after = '}' :: next) :
    ReadsOnlyMembers [(key, v)] ('"' :: (key ++ '"' :: ':' :: input)) next := by
  intro members' after'
  constructor
  · intro h
    obtain ⟨v', members'', after'', rfl, hread, h⟩ := h.first key hkey
    obtain ⟨rfl, rfl⟩ := (hv v' after'').mp hread
    obtain ⟨rfl, hclose'⟩ | ⟨next', hcomma, -⟩ := h
    · exact ⟨rfl, (List.cons.inj (hclose'.symm.trans hclose)).2⟩
    · exact absurd (List.cons.inj (hcomma.symm.trans hclose)).1 (by decide)
  · rintro ⟨rfl, rfl⟩
    exact .last ((readsString_iff hkey).mpr ⟨rfl, rfl⟩) rfl ((hv _ _).mpr ⟨rfl, rfl⟩) hclose

/-- A member with others behind it. -/
theorem ReadsOnlyMembers.more (hmembers : ReadsOnlyMembers members (skip next) rest) (hkey : AllPlain key)
    (hv : ReadsOnly v (skip input) after) (hcomma : skip after = ',' :: next) :
    ReadsOnlyMembers ((key, v) :: members) ('"' :: (key ++ '"' :: ':' :: input)) rest := by
  intro members' after'
  constructor
  · intro h
    obtain ⟨v', members'', after'', rfl, hread, h⟩ := h.first key hkey
    obtain ⟨rfl, rfl⟩ := (hv v' after'').mp hread
    obtain ⟨-, hclose⟩ | ⟨next', hcomma', h⟩ := h
    · exact absurd (List.cons.inj (hclose.symm.trans hcomma)).1 (by decide)
    · obtain rfl : next' = next := (List.cons.inj (hcomma'.symm.trans hcomma)).2
      obtain ⟨rfl, rfl⟩ := (hmembers _ _).mp h
      exact ⟨rfl, rfl⟩
  · rintro ⟨rfl, rfl⟩
    exact .more ((readsString_iff hkey).mpr ⟨rfl, rfl⟩) rfl ((hv _ _).mpr ⟨rfl, rfl⟩) hcomma
      ((hmembers _ _).mpr ⟨rfl, rfl⟩)

/-- An object with members. -/
theorem ReadsValue.object_inv (input : List Char) (h : ReadsValue v ('{' :: input) rest)
    (hinput : skip input = '"' :: text) :
    ∃ members, v = .object members ∧ ReadsMembers members (skip input) rest := by
  cases h with
  | number h => exact absurd ((number_eq_none (by decide) (by decide)).symm.trans h) (by simp)
  | emptyObject h => exact absurd (List.cons.inj (h.symm.trans hinput)).1 (by decide)
  | object h => exact ⟨_, rfl, h⟩

theorem ReadsOnlyMembers.object (input : List Char) (h : ReadsOnlyMembers members ('"' :: text) rest)
    (hinput : skip input = '"' :: text) : ReadsOnly (.object members) ('{' :: input) rest := by
  intro v' after'
  constructor
  · intro hread
    obtain ⟨members', rfl, hmembers⟩ := hread.object_inv input hinput
    rw [hinput] at hmembers
    obtain ⟨rfl, rfl⟩ := (h _ _).mp hmembers
    exact ⟨rfl, rfl⟩
  · rintro ⟨rfl, rfl⟩
    refine .object ?_
    rw [hinput]
    exact (h _ _).mpr ⟨rfl, rfl⟩

/-- An array with elements. -/
theorem ReadsValue.array_inv (input : List Char) (h : ReadsValue v ('[' :: input) rest)
    (hinput : skip input = '{' :: text) :
    ∃ elements, v = .array elements ∧ ReadsElements elements (skip input) rest := by
  cases h with
  | number h => exact absurd ((number_eq_none (by decide) (by decide)).symm.trans h) (by simp)
  | emptyArray h => exact absurd (List.cons.inj (h.symm.trans hinput)).1 (by decide)
  | array h => exact ⟨_, rfl, h⟩

/-- The first element of an array. -/
theorem ReadsElements.first (h : ReadsElements elements input rest) :
    ∃ v elements' after, elements = v :: elements' ∧ ReadsValue v input after ∧
      (elements' = [] ∨ ∃ next, skip after = ',' :: next ∧ ReadsElements elements' (skip next) rest) := by
  cases h with
  | last hv hclose => exact ⟨_, _, _, rfl, hv, Or.inl rfl⟩
  | more hv hcomma h => exact ⟨_, _, _, rfl, hv, Or.inr ⟨_, hcomma, h⟩⟩

/-! ## Arrays that can be read in one way only -/

/-- The elements are read, and no others can be. -/
def ReadsOnlyElements (elements : List Value) (input after : List Char) : Prop :=
  ∀ elements' after', ReadsElements elements' input after' ↔ elements' = elements ∧ after' = after

/-- The last element of an array. -/
theorem ReadsOnly.lastElement (hv : ReadsOnly v input after) (hclose : skip after = ']' :: rest) :
    ReadsOnlyElements [v] input rest := by
  intro elements' after'
  constructor
  · intro h
    cases h with
    | last hread hclose' =>
        obtain ⟨rfl, rfl⟩ := (hv _ _).mp hread
        exact ⟨rfl, (List.cons.inj (hclose'.symm.trans hclose)).2⟩
    | more hread hcomma =>
        obtain ⟨rfl, rfl⟩ := (hv _ _).mp hread
        exact absurd (List.cons.inj (hcomma.symm.trans hclose)).1 (by decide)
  · rintro ⟨rfl, rfl⟩
    exact .last ((hv _ _).mpr ⟨rfl, rfl⟩) hclose

/-- An element with others behind it. -/
theorem ReadsOnlyElements.more (h : ReadsOnlyElements elements (skip next) rest) (hv : ReadsOnly v input after)
    (hcomma : skip after = ',' :: next) : ReadsOnlyElements (v :: elements) input rest := by
  intro elements' after'
  constructor
  · intro hread
    cases hread with
    | last hfirst hclose =>
        obtain ⟨rfl, rfl⟩ := (hv _ _).mp hfirst
        exact absurd (List.cons.inj (hclose.symm.trans hcomma)).1 (by decide)
    | more hfirst hcomma' hrest =>
        obtain ⟨rfl, rfl⟩ := (hv _ _).mp hfirst
        rw [(List.cons.inj (hcomma'.symm.trans hcomma)).2] at hrest
        obtain ⟨rfl, rfl⟩ := (h _ _).mp hrest
        exact ⟨rfl, rfl⟩
  · rintro ⟨rfl, rfl⟩
    exact .more ((hv _ _).mpr ⟨rfl, rfl⟩) hcomma ((h _ _).mpr ⟨rfl, rfl⟩)

theorem ReadsOnlyElements.array (input : List Char) (h : ReadsOnlyElements elements ('{' :: text) rest)
    (hinput : skip input = '{' :: text) : ReadsOnly (.array elements) ('[' :: input) rest := by
  intro v' after'
  constructor
  · intro hread
    obtain ⟨elements', rfl, helements⟩ := hread.array_inv input hinput
    rw [hinput] at helements
    obtain ⟨rfl, rfl⟩ := (h _ _).mp helements
    exact ⟨rfl, rfl⟩
  · rintro ⟨rfl, rfl⟩
    refine .array ?_
    rw [hinput]
    exact (h _ _).mpr ⟨rfl, rfl⟩

/-- Nothing is read from a bracket that closes. -/
theorem not_readsValue_bracket : ¬ ReadsValue v (']' :: input) rest := by
  intro h
  cases h with
  | number h => exact absurd ((number_eq_none (by decide) (by decide)).symm.trans h) (by simp)

theorem readsOnly_emptyArray (input : List Char) (hclose : skip input = ']' :: rest) :
    ReadsOnly (.array []) ('[' :: input) rest := by
  intro v' after'
  constructor
  · intro hread
    cases hread with
    | number h => exact absurd ((number_eq_none (by decide) (by decide)).symm.trans h) (by simp)
    | emptyArray h => exact ⟨rfl, (List.cons.inj (h.symm.trans hclose)).2⟩
    | array h =>
        rw [hclose] at h
        obtain ⟨v, -, after, -, hv, -⟩ := h.first
        exact absurd hv not_readsValue_bracket
  · rintro ⟨rfl, rfl⟩
    exact .emptyArray hclose

/-- A text in which one value can be read is a text of this value only. -/
theorem ReadsOnly.isText_iff {v' : Value} (h : ReadsOnly v (skip input) after) (hend : skip after = []) :
    IsText v' input ↔ v' = v := by
  constructor
  · rintro ⟨rest, hread, -⟩
    exact ((h _ _).mp hread).1
  · rintro rfl
    exact ⟨after, (h _ _).mpr ⟨rfl, rfl⟩, hend⟩

/-! ## Members that are strings or numbers -/

theorem skip_space (hc : isSpace c = true) (input : List Char) : skip (c :: input) = skip input :=
  List.dropWhile_cons_of_pos hc

theorem skip_of_not_space (hc : isSpace c = false) (input : List Char) : skip (c :: input) = c :: input :=
  List.dropWhile_cons_of_neg (by simp [hc])

theorem skip_toDigits (n : ℕ) (input : List Char) :
    skip (' ' :: (Nat.toDigits 10 n ++ input)) = Nat.toDigits 10 n ++ input := by
  obtain ⟨d, ds, hdigits⟩ := List.exists_cons_of_ne_nil (Nat.toDigits_ne_nil (n := n) (b := 10))
  have hd : d.isDigit = true :=
    Nat.isDigit_of_mem_toDigits (b := 10) (n := n) (by decide) (by decide) (hdigits ▸ List.mem_cons_self)
  have hspace : isSpace d = false := by
    by_contra hspace
    simp only [isSpace, Bool.not_eq_false, Bool.or_eq_true, decide_eq_true_eq] at hspace
    obtain ((rfl | rfl) | rfl) | rfl := hspace <;> exact absurd hd (by decide)
  rw [hdigits, List.cons_append, skip_space rfl, skip_of_not_space hspace]

theorem ReadsOnlyMembers.string (key next : List Char) (h : ReadsOnlyMembers members (skip next) rest)
    (hkey : AllPlain key) (hs : AllPlain s) :
    ReadsOnlyMembers ((key, .string s) :: members)
      ('"' :: (key ++ '"' :: ':' :: ' ' :: '"' :: (s ++ '"' :: ',' :: next))) rest :=
  h.more hkey (readsOnly_string hs) rfl

theorem ReadsOnlyMembers.number (key next : List Char) (h : ReadsOnlyMembers members (skip next) rest)
    (hkey : AllPlain key) (n : ℕ) :
    ReadsOnlyMembers ((key, .number (Nat.toDigits 10 n)) :: members)
      ('"' :: (key ++ '"' :: ':' :: ' ' :: (Nat.toDigits 10 n ++ ',' :: next))) rest := by
  have hnumber := readsOnly_toDigits n next (show EndsNumber ',' by decide)
  rw [← skip_toDigits] at hnumber
  exact h.more hkey hnumber rfl

/-- A number as the last member. -/
theorem readsOnlyMembers_number (key after : List Char) (hkey : AllPlain key) (n : ℕ) (hc : EndsNumber c)
    (hclose : skip (c :: after) = '}' :: rest) :
    ReadsOnlyMembers [(key, .number (Nat.toDigits 10 n))]
      ('"' :: (key ++ '"' :: ':' :: ' ' :: (Nat.toDigits 10 n ++ c :: after))) rest := by
  have hnumber := readsOnly_toDigits n after hc
  rw [← skip_toDigits] at hnumber
  exact hnumber.lastMember _ _ hkey hclose

/-! ## Members without spaces -/

theorem readsOnly_skip_toDigits (n : ℕ) (after : List Char) (hc : EndsNumber c) :
    ReadsOnly (.number (Nat.toDigits 10 n)) (skip (Nat.toDigits 10 n ++ c :: after)) (c :: after) := by
  have hskip := skip_toDigits n (c :: after)
  rw [skip_space rfl] at hskip
  rw [hskip]
  exact readsOnly_toDigits n after hc

theorem ReadsOnlyMembers.compactString (key s next : List Char) (h : ReadsOnlyMembers members ('"' :: next) rest)
    (hkey : AllPlain key) (hs : AllPlain s) :
    ReadsOnlyMembers ((key, .string s) :: members)
      ('"' :: (key ++ '"' :: ':' :: '"' :: (s ++ '"' :: ',' :: '"' :: next))) rest :=
  h.more hkey (readsOnly_string hs) rfl

theorem ReadsOnlyMembers.compactNumber (key next : List Char) (h : ReadsOnlyMembers members ('"' :: next) rest)
    (hkey : AllPlain key) (n : ℕ) :
    ReadsOnlyMembers ((key, .number (Nat.toDigits 10 n)) :: members)
      ('"' :: (key ++ '"' :: ':' :: (Nat.toDigits 10 n ++ ',' :: '"' :: next))) rest := by
  have hnumber := readsOnly_skip_toDigits n ('"' :: next) (show EndsNumber ',' by decide)
  exact h.more hkey hnumber rfl

end Json
