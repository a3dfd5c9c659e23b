import Mathlib.Data.List.TakeWhile
import Mathlib.Data.UInt
import Mathlib.Tactic.Common

/-!
# Reading numbers from lines

`fgets` reads a line into a buffer, `strtok` cuts it into tokens, and `sscanf` with `%u` reads a number at the start
of a text.  What has been written in decimal is read again, as long as the line fits into the buffer and the numbers
fit into 32 bits.
-/

namespace Scanf

/-- `isspace`. -/
def isSpace (c : Char) : Bool :=
  c = ' ' || 9 ≤ c.toNat && c.toNat ≤ 13

/-- A sign, if there is one: whether it is a minus, and what is behind it. -/
def sign : List Char → Bool × List Char
  | [] => (false, [])
  | c :: text => if c = '-' then (true, text) else if c = '+' then (false, text) else (false, c :: text)

/-- What is stored of a number: `strtoul` answers with the largest number if there is no room for it, and the lower
half of the answer is kept. -/
def stored (negative : Bool) (n : ℕ) : UInt32 :=
  if 2 ^ 64 ≤ n then UInt32.ofNat (2 ^ 32 - 1) else if negative then -UInt32.ofNat n else UInt32.ofNat n

/-- `%u`: the number at the start of the text and what is behind it, or nothing if there is no digit. -/
def scanUnsigned (text : List Char) : Option (UInt32 × List Char) :=
  let signed := sign (text.dropWhile isSpace)
  let digits := signed.2.takeWhile Char.isDigit
  if digits = [] then none
  else some (stored signed.1 (Nat.ofDigitChars 10 digits 0), signed.2.dropWhile Char.isDigit)

/-- The token that has been read so far, if it is not empty. -/
def emit : List Char → List (List Char)
  | [] => []
  | c :: token => [c :: token]

/-- The tokens of a text behind what has been read of the first one. -/
def tokensFrom (isDelimiter : Char → Bool) : List Char → List Char → List (List Char)
  | token, [] => emit token
  | token, c :: text =>
      if isDelimiter c then emit token ++ tokensFrom isDelimiter [] text
      else tokensFrom isDelimiter (token ++ [c]) text

/-- All tokens that `strtok` finds one after the other. -/
def tokens (isDelimiter : Char → Bool) (text : List Char) : List (List Char) :=
  tokensFrom isDelimiter [] text

/-- `fgets` with a buffer of so many characters: what it reads, as the string that is then in the buffer. -/
def fgets (size : ℕ) (file : List Char) : Option (List Char) :=
  if file = [] then none
  else
    let front := file.take (size - 1)
    some ((front.takeWhile (· ≠ '\n') ++ (front.dropWhile (· ≠ '\n')).take 1).takeWhile (· ≠ Char.ofNat 0))

/-! ## Numbers -/

variable {n : ℕ} {after text token : List Char} {isDelimiter : Char → Bool}

theorem isDigit_toDigits (n : ℕ) : ∀ c ∈ Nat.toDigits 10 n, c.isDigit = true :=
  fun _ hc => Nat.isDigit_of_mem_toDigits (b := 10) (by decide) (by decide) hc

/-- In front of a digit there is neither a blank nor a sign. -/
theorem sign_of_isDigit {c : Char} (hc : c.isDigit = true) (text : List Char) :
    sign ((c :: text).dropWhile isSpace) = (false, c :: text) := by
  have hrange : 48 ≤ c.toNat ∧ c.toNat ≤ 57 := by simpa [Char.isDigit, UInt32.le_iff_toNat_le] using hc
  have hne : ∀ d : Char, d.toNat < 48 → c ≠ d := by
    rintro d hd rfl
    omega
  have hspace : isSpace c = false := by
    have hblank : c ≠ ' ' := hne ' ' (by decide)
    simp [isSpace, hblank]
    omega
  rw [List.dropWhile_cons_of_neg (by simp [hspace]), sign, if_neg (hne '-' (by decide)), if_neg (hne '+' (by decide))]

/-- A number that has been written is read again. -/
theorem scanUnsigned_toDigits (hn : n < 2 ^ 32) (hafter : ∀ c ∈ after.head?, c.isDigit = false) :
    scanUnsigned (Nat.toDigits 10 n ++ after) = some (UInt32.ofNat n, after) := by
  obtain ⟨c, digits, hcons⟩ := List.exists_cons_of_ne_nil (Nat.toDigits_ne_nil (b := 10) (n := n))
  have hc : c.isDigit = true := isDigit_toDigits n c (by rw [hcons]; exact List.mem_cons_self)
  have hsign : sign ((Nat.toDigits 10 n ++ after).dropWhile isSpace) = (false, Nat.toDigits 10 n ++ after) := by
    rw [hcons]
    exact sign_of_isDigit hc _
  have hempty : after.takeWhile Char.isDigit = [] := by
    cases after with
    | nil => rfl
    | cons d rest => exact List.takeWhile_cons_of_neg (by simp [hafter d rfl])
  have hrest : after.dropWhile Char.isDigit = after := by
    cases after with
    | nil => rfl
    | cons d rest => exact List.dropWhile_cons_of_neg (by simp [hafter d rfl])
  unfold scanUnsigned
  dsimp only
  rw [hsign, List.takeWhile_append_of_pos (isDigit_toDigits n), List.dropWhile_append_of_pos (isDigit_toDigits n),
    hempty, hrest, List.append_nil, if_neg Nat.toDigits_ne_nil, Nat.ofDigitChars_ten_toDigits, stored,
    if_neg (by omega), if_neg Bool.false_ne_true]

/-! ## Tokens -/

theorem tokensFrom_append (htext : ∀ c ∈ text, isDelimiter c = false) (token after : List Char) :
    tokensFrom isDelimiter token (text ++ after) = tokensFrom isDelimiter (token ++ text) after := by
  induction text generalizing token with
  | nil => rw [List.nil_append, List.append_nil]
  | cons c text ih =>
      rw [List.forall_mem_cons] at htext
      rw [List.cons_append, tokensFrom, htext.1, if_neg Bool.false_ne_true, ih htext.2, List.append_assoc]
      rfl

theorem emit_of_ne_nil (h : text ≠ []) : emit text = [text] := by
  obtain ⟨c, rest, rfl⟩ := List.exists_cons_of_ne_nil h
  rfl

/-- A piece without delimiters in front of one is a token. -/
theorem tokens_piece (hne : text ≠ []) (htext : ∀ c ∈ text, isDelimiter c = false) {d : Char}
    (hd : isDelimiter d = true) : tokens isDelimiter (text ++ d :: after) = text :: tokens isDelimiter after := by
  rw [tokens, tokensFrom_append htext, List.nil_append, tokensFrom, if_pos hd, emit_of_ne_nil hne]
  rfl

/-- So it is at the end. -/
theorem tokens_last (hne : text ≠ []) (htext : ∀ c ∈ text, isDelimiter c = false) :
    tokens isDelimiter text = [text] := by
  have hlast := tokensFrom_append htext [] []
  rw [List.append_nil, List.nil_append] at hlast
  rw [tokens, hlast]
  exact emit_of_ne_nil hne

/-- Pieces with a delimiter between them, and perhaps another at the end, are the tokens. -/
theorem tokens_intercalate {pieces : List (List Char)} (hne : ∀ piece ∈ pieces, piece ≠ [])
    (hpieces : ∀ piece ∈ pieces, ∀ c ∈ piece, isDelimiter c = false) {d e : Char} (hd : isDelimiter d = true)
    (he : isDelimiter e = true) (closed : Bool) :
    tokens isDelimiter ([d].intercalate pieces ++ if closed then [e] else []) = pieces := by
  induction pieces with
  | nil => cases closed <;> simp [tokens, tokensFrom, he, emit]
  | cons piece pieces ih =>
      rw [List.forall_mem_cons] at hne hpieces
      cases pieces with
      | nil =>
          rw [List.intercalate_singleton]
          cases closed with
          | false => simpa using tokens_last hne.1 hpieces.1
          | true =>
              rw [if_pos rfl, tokens_piece hne.1 hpieces.1 he]
              rfl
      | cons next pieces =>
          rw [List.intercalate_cons_cons, List.append_assoc, List.append_assoc, List.singleton_append,
            tokens_piece hne.1 hpieces.1 hd, ih hne.2 hpieces.2]

/-! ## Lines -/

/-- A line of which all but its end fits into the buffer is read, perhaps without its end. -/
theorem fgets_line {size : ℕ} (hfits : text.length ≤ size - 1) (htext : ∀ c ∈ text, c ≠ '\n' ∧ c ≠ Char.ofNat 0) :
    ∃ closed : Bool, fgets size (text ++ ['\n']) = some (text ++ if closed then ['\n'] else []) := by
  have hline : ∀ c ∈ text, decide (c ≠ '\n') = true := fun c hc => decide_eq_true (htext c hc).1
  have hstring : ∀ c ∈ text, decide (c ≠ Char.ofNat 0) = true := fun c hc => decide_eq_true (htext c hc).2
  have hne : text ++ ['\n'] ≠ [] := by simp
  rcases Nat.lt_or_eq_of_le hfits with hlt | heq
  · refine ⟨true, ?_⟩
    have hall : (text ++ ['\n']).take (size - 1) = text ++ ['\n'] := by
      apply List.take_of_length_le
      rw [List.length_append]
      exact hlt
    rw [fgets, if_neg hne, if_pos rfl]
    dsimp only
    rw [hall, List.takeWhile_append_of_pos hline, List.dropWhile_append_of_pos hline, List.append_assoc,
      List.takeWhile_append_of_pos hstring]
    rfl
  · refine ⟨false, ?_⟩
    have hall : (text ++ ['\n']).take (size - 1) = text := List.take_left' heq
    rw [fgets, if_neg hne, if_neg Bool.false_ne_true, List.append_nil]
    dsimp only
    rw [hall, List.takeWhile_eq_self_iff.mpr hline, List.dropWhile_eq_nil_iff.mpr hline, List.take_nil,
      List.append_nil, List.takeWhile_eq_self_iff.mpr hstring]

end Scanf
