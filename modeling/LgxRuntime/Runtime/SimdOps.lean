import LgxRuntime.Lib.BlockedLoop
import LgxRuntime.GpuPool.Buddy
import Mathlib.Data.Fin.VecNotation

/-!
# Searching slots with AVX2

`lgx_simd_ops.c` has three questions about an array of pointers, each with an AVX2 answer and a scalar one:
which slot is the first that is not `NULL`, whether all are `NULL`, and how many are not.  The AVX2 code
loads four pointers at a time, compares them with zero and looks at the sign bits of the result; the slots
that are left at the end are read one by one.

The model has the slots in a list, and to read past its end is to be stuck.  Results are `int`s, and so are
the indices: the largest that is computed is `i + 3` for a multiple `i` of four up to `count`, which is at
most `INT_MAX`.
-/

namespace LgxRuntime.Runtime.SimdOps

open BlockedLoop

/-- `void*`. -/
abbrev Pointer : Type := BitVec 64

/-- `NULL`. -/
def null : Pointer := 0

variable {ρ σ : Type}

/-- `slots[i]`. -/
def load (slots : List Pointer) (i : ℕ) : Code ρ Pointer :=
  match slots[i]? with
  | some p => pure p
  | none => .stuck

/-! ## Vectors -/

/-- `__m256i`, as four lanes of 64 bits. -/
structure M256i where
  lane : Fin 4 → BitVec 64

/-- `_mm256_setzero_si256`. -/
def mm256SetzeroSi256 : M256i :=
  ⟨fun _ => 0⟩

/-- `_mm256_loadu_si256(&slots[i])`. -/
def mm256LoaduSi256 (slots : List Pointer) (i : ℕ) : Code ρ M256i := do
  let p₀ ← load slots i
  let p₁ ← load slots (i + 1)
  let p₂ ← load slots (i + 2)
  let p₃ ← load slots (i + 3)
  pure ⟨![p₀, p₁, p₂, p₃]⟩

/-- `_mm256_cmpeq_epi64`: all bits of a lane are set if the operands agree there, and no bit otherwise. -/
def mm256CmpeqEpi64 (a b : M256i) : M256i :=
  ⟨fun j => if a.lane j = b.lane j then BitVec.allOnes 64 else 0⟩

/-- `_mm256_movemask_pd`: the sign bits of the lanes. -/
def mm256MovemaskPd (a : M256i) : ℕ :=
  (a.lane 0).msb.toNat + 2 * (a.lane 1).msb.toNat + 4 * (a.lane 2).msb.toNat + 8 * (a.lane 3).msb.toNat

/-- `__builtin_popcount`, of an `unsigned int`. -/
def builtinPopcount (mask : ℕ) : ℕ :=
  (List.range 32).countP fun bit => mask.testBit bit

/-- The mask that the AVX2 loops compute for the four slots from `i` on. -/
def nullMask (slots : List Pointer) (i : ℕ) : Code ρ ℕ := do
  let zero := mm256SetzeroSi256
  let ptrs ← mm256LoaduSi256 slots i
  let cmp := mm256CmpeqEpi64 ptrs zero
  pure (mm256MovemaskPd cmp)

/-- The body of the scalar loops that leave at a slot that is not `NULL`. -/
def leaveSlot (result : ℕ → ρ) (slots : List Pointer) (i : ℕ) (s : Unit) : Code ρ Unit := do
  if (← load slots i) ≠ null then .ret (result i) else pure s

/-! ## The first slot that is not `NULL` -/

/-- The body of the scalar loops: leave with the index. -/
def findSlot (slots : List Pointer) : ℕ → Unit → Code ℤ Unit :=
  leaveSlot (fun i => (i : ℤ)) slots

/-- The body of the AVX2 loop. -/
def findBlock (slots : List Pointer) (count i : ℕ) (s : Unit) : Code ℤ Unit := do
  let mask ← nullMask slots i
  if mask ≠ 0xF then
    let (_, s) ← loop (fun j => j < 4 ∧ i + j < count) 1 (fun j s => findSlot slots (i + j) s) 5 0 s
    pure s
  else pure s

/-- `lgx_simd_find_nonempty_slot_avx2`. -/
def lgxSimdFindNonemptySlotAvx2 (slots : List Pointer) (count : ℕ) : Option ℤ :=
  Code.result do
    blocked 4 (findBlock slots count) (findSlot slots) count ()
    pure (-1)

/-- `lgx_simd_find_nonempty_slot_scalar`. -/
def lgxSimdFindNonemptySlotScalar (slots : List Pointer) (count : ℕ) : Option ℤ :=
  Code.result do
    plain (findSlot slots) count ()
    pure (-1)

/-- `lgx_simd_find_nonempty_slot`. -/
def lgxSimdFindNonemptySlot (hasAvx2 : Bool) (slots : List Pointer) (count : ℕ) : Option ℤ :=
  if hasAvx2 then lgxSimdFindNonemptySlotAvx2 slots count
  else lgxSimdFindNonemptySlotScalar slots count

/-! ## Whether all slots are `NULL` -/

/-- The body of the scalar loops. -/
def nullSlot (slots : List Pointer) : ℕ → Unit → Code Bool Unit :=
  leaveSlot (fun _ => false) slots

/-- The body of the AVX2 loop. -/
def nullBlock (slots : List Pointer) (i : ℕ) (s : Unit) : Code Bool Unit := do
  let mask ← nullMask slots i
  if mask ≠ 0xF then .ret false else pure s

/-- `lgx_simd_all_null_avx2`. -/
def lgxSimdAllNullAvx2 (slots : List Pointer) (count : ℕ) : Option Bool :=
  Code.result do
    blocked 4 (nullBlock slots) (nullSlot slots) count ()
    pure true

/-- `lgx_simd_all_null_scalar`. -/
def lgxSimdAllNullScalar (slots : List Pointer) (count : ℕ) : Option Bool :=
  Code.result do
    plain (nullSlot slots) count ()
    pure true

/-! ## The number of slots that are not `NULL` -/

/-- The body of the scalar loops. -/
def countSlot (slots : List Pointer) (i : ℕ) (total : ℤ) : Code ℤ ℤ := do
  if (← load slots i) ≠ null then pure (total + 1) else pure total

/-- The body of the AVX2 loop. -/
def countBlock (slots : List Pointer) (i : ℕ) (total : ℤ) : Code ℤ ℤ := do
  let mask ← nullMask slots i
  pure (total + (4 - (builtinPopcount mask : ℤ)))

/-- `lgx_simd_count_nonempty_avx2`. -/
def lgxSimdCountNonemptyAvx2 (slots : List Pointer) (count : ℕ) : Option ℤ :=
  (blocked 4 (countBlock slots) (countSlot slots) count 0).result

/-- `lgx_simd_count_nonempty_scalar`. -/
def lgxSimdCountNonemptyScalar (slots : List Pointer) (count : ℕ) : Option ℤ :=
  (plain (countSlot slots) count 0).result

/-! ## Masks -/

/-- A mask with the given bits. -/
def bitMask (b₀ b₁ b₂ b₃ : Bool) : ℕ :=
  b₀.toNat + 2 * b₁.toNat + 4 * b₂.toNat + 8 * b₃.toNat

theorem bitMask_eq_full_iff (b₀ b₁ b₂ b₃ : Bool) :
    bitMask b₀ b₁ b₂ b₃ = 0xF ↔ b₀ = true ∧ b₁ = true ∧ b₂ = true ∧ b₃ = true := by
  revert b₀ b₁ b₂ b₃
  decide

theorem builtinPopcount_bitMask (b₀ b₁ b₂ b₃ : Bool) :
    builtinPopcount (bitMask b₀ b₁ b₂ b₃) = b₀.toNat + b₁.toNat + b₂.toNat + b₃.toNat := by
  revert b₀ b₁ b₂ b₃
  decide

theorem msb_cmpeq (p q : BitVec 64) :
    (if p = q then BitVec.allOnes 64 else (0 : BitVec 64)).msb = decide (p = q) := by
  by_cases h : p = q
  · rw [if_pos h, decide_eq_true h]
    rfl
  · rw [if_neg h, decide_eq_false h]
    rfl

/-- A bit of the mask is set if the slot is `NULL`. -/
theorem mm256MovemaskPd_cmpeq (a : M256i) :
    mm256MovemaskPd (mm256CmpeqEpi64 a mm256SetzeroSi256) =
      bitMask (decide (a.lane 0 = null)) (decide (a.lane 1 = null)) (decide (a.lane 2 = null))
        (decide (a.lane 3 = null)) := by
  unfold mm256MovemaskPd mm256CmpeqEpi64 mm256SetzeroSi256
  rw [msb_cmpeq, msb_cmpeq, msb_cmpeq, msb_cmpeq]
  rfl

/-! ## Slots -/

variable {slots : List Pointer} {i n count : ℕ}

/-- The slots from `i` on. -/
def segment (slots : List Pointer) (i n : ℕ) : List Pointer :=
  (slots.drop i).take n

theorem segment_succ (h : i + (n + 1) ≤ slots.length) :
    ∃ p, slots[i]? = some p ∧ segment slots i (n + 1) = p :: segment slots (i + 1) n := by
  have hlt : i < slots.length := by omega
  refine ⟨slots[i], List.getElem?_eq_getElem hlt, ?_⟩
  rw [segment, List.drop_eq_getElem_cons hlt, List.take_succ_cons, segment]

theorem load_eq {p : Pointer} (h : slots[i]? = some p) : (load slots i : Code ρ Pointer) = pure p := by
  rw [load, h]

/-- The mask of four slots is full if all of them are `NULL`, and counts those that are. -/
theorem nullMask_spec (ρ : Type) (h : i + 4 ≤ slots.length) :
    ∃ mask, (nullMask slots i : Code ρ ℕ) = pure mask ∧
      (mask = 0xF ↔ ∀ p ∈ segment slots i 4, p = null) ∧
      builtinPopcount mask = (segment slots i 4).countP fun p => p = null := by
  obtain ⟨p₀, h₀, hs₀⟩ := segment_succ (i := i) (n := 3) h
  obtain ⟨p₁, h₁, hs₁⟩ := segment_succ (i := i + 1) (n := 2) (by omega)
  obtain ⟨p₂, h₂, hs₂⟩ := segment_succ (i := i + 2) (n := 1) (by omega)
  obtain ⟨p₃, h₃, hs₃⟩ := segment_succ (i := i + 3) (n := 0) (by omega)
  have hsegment : segment slots i 4 = [p₀, p₁, p₂, p₃] := by
    rw [hs₀, hs₁, hs₂, hs₃, segment, List.take_zero]
  have htoNat : ∀ b : Bool, b.toNat = if b then 1 else 0 := by decide
  refine ⟨bitMask (decide (p₀ = null)) (decide (p₁ = null)) (decide (p₂ = null)) (decide (p₃ = null)),
    ?_, ?_, ?_⟩
  · rw [nullMask, mm256LoaduSi256, load_eq h₀, load_eq h₁, load_eq h₂, load_eq h₃]
    simp only [pure_bind, mm256MovemaskPd_cmpeq]
    rfl
  · rw [bitMask_eq_full_iff, hsegment]
    simp
  · rw [builtinPopcount_bitMask, hsegment]
    simp only [List.countP_cons, List.countP_nil, htoNat]
    omega

/-! ## Loops that leave -/

/-- Leave with the index that has been found, counted from `i`. -/
def leaveAt (result : ℕ → ρ) (i : ℕ) : Option ℕ → Code ρ Unit
  | some j => .ret (result (i + j))
  | none => pure ()

theorem leaveSlot_eq (result : ℕ → ρ) {p : Pointer} (h : slots[i]? = some p) (s : Unit) :
    leaveSlot result slots i s = if p ≠ null then .ret (result i) else pure s := by
  rw [leaveSlot, load_eq h, pure_bind]

/-- The loop leaves at the first slot that is not `NULL`. -/
theorem each_leaveSlot (result : ℕ → ρ) (h : i + n ≤ slots.length) :
    each (leaveSlot result slots) n i () =
      leaveAt result i ((segment slots i n).findIdx? fun p => p ≠ null) := by
  induction n generalizing i with
  | zero => rfl
  | succ n ih =>
      obtain ⟨p, hp, hsegment⟩ := segment_succ h
      rw [each, leaveSlot_eq result hp, hsegment, List.findIdx?_cons]
      by_cases hnull : p = null
      · rw [if_neg (not_not.mpr hnull), pure_bind, ih (by omega), if_neg (by simp [hnull])]
        cases (segment slots (i + 1) n).findIdx? fun p => p ≠ null with
        | none => rfl
        | some j =>
            have hindex : i + 1 + j = i + (j + 1) := by omega
            rw [Option.map_some, leaveAt, leaveAt, hindex]
      · rw [if_pos hnull, if_pos (decide_eq_true hnull)]
        rfl

theorem findBlock_eq_each (hcount : count ≤ slots.length) (i : ℕ) (s : Unit) (h : i + 4 ≤ count) :
    findBlock slots count i s = each (findSlot slots) 4 i s := by
  obtain ⟨mask, hmask, hfull, -⟩ := nullMask_spec ℤ (h.trans hcount)
  rw [findBlock, hmask, pure_bind]
  by_cases hall : mask = 0xF
  · have hnone : (segment slots i 4).findIdx? (fun p => p ≠ null) = none := by
      rw [List.findIdx?_eq_none_iff]
      intro p hp
      exact decide_eq_false (not_not.mpr (hfull.mp hall p hp))
    rw [if_neg (not_not.mpr hall), findSlot, each_leaveSlot _ (h.trans hcount), hnone]
    rfl
  · have hcond : ∀ j, j < 4 ∧ i + j < count ↔ j < 4 := by
      intro j
      omega
    rw [if_pos hall, loop_one_eq_each hcond (Nat.zero_le _) (by decide), Nat.sub_zero, bind_assoc]
    simp only [pure_bind, bind_pure]
    exact each_shift i 4 0 s

theorem nullBlock_eq_each (hcount : count ≤ slots.length) (i : ℕ) (s : Unit) (h : i + 4 ≤ count) :
    nullBlock slots i s = each (nullSlot slots) 4 i s := by
  obtain ⟨mask, hmask, hfull, -⟩ := nullMask_spec Bool (h.trans hcount)
  rw [nullBlock, hmask, pure_bind, nullSlot, each_leaveSlot _ (h.trans hcount)]
  cases hfound : (segment slots i 4).findIdx? fun p => p ≠ null with
  | none =>
      have hall : mask = 0xF := by
        rw [hfull]
        intro p hp
        exact not_not.mp (of_decide_eq_false (List.findIdx?_eq_none_iff.mp hfound p hp))
      rw [if_neg (not_not.mpr hall)]
      rfl
  | some j =>
      have hall : mask ≠ 0xF := by
        intro hall
        obtain ⟨hlt, hj, -⟩ := List.findIdx?_eq_some_iff_getElem.mp hfound
        exact of_decide_eq_true hj (hfull.mp hall _ (List.getElem_mem hlt))
      rw [if_pos hall]
      rfl

/-! ## The loop that counts -/

theorem countSlot_eq {p : Pointer} (h : slots[i]? = some p) (total : ℤ) :
    countSlot slots i total = if p ≠ null then pure (total + 1) else pure total := by
  rw [countSlot, load_eq h, pure_bind]

theorem each_countSlot (h : i + n ≤ slots.length) (total : ℤ) :
    each (countSlot slots) n i total =
      pure (total + ((segment slots i n).countP fun p => p ≠ null : ℕ)) := by
  induction n generalizing i total with
  | zero => simp [each, segment]
  | succ n ih =>
      obtain ⟨p, hp, hsegment⟩ := segment_succ h
      rw [each, countSlot_eq hp, hsegment, List.countP_cons]
      by_cases hnull : p = null
      · rw [if_neg (not_not.mpr hnull), pure_bind, ih (by omega), if_neg (by simp [hnull])]
        rfl
      · rw [if_pos hnull, pure_bind, ih (by omega), if_pos (decide_eq_true hnull)]
        exact congrArg pure (by omega)

theorem countBlock_eq_each (hcount : count ≤ slots.length) (i : ℕ) (total : ℤ) (h : i + 4 ≤ count) :
    countBlock slots i total = each (countSlot slots) 4 i total := by
  obtain ⟨mask, hmask, -, hpopcount⟩ := nullMask_spec ℤ (h.trans hcount)
  have hlength : (segment slots i 4).length = 4 := by
    rw [segment, List.length_take, List.length_drop]
    omega
  have hsum : ((segment slots i 4).countP fun p => p = null) +
      ((segment slots i 4).countP fun p => p ≠ null) = 4 := by
    rw [List.length_eq_countP_add_countP fun p => decide (p = null)] at hlength
    simpa only [decide_eq_true_eq] using hlength
  rw [countBlock, hmask, pure_bind, each_countSlot (h.trans hcount), hpopcount]
  exact congrArg pure (by omega)

/-! ## Agreement -/

/-- The index of the first slot that is not `NULL`, or -1. -/
def firstNonempty (slots : List Pointer) : ℤ :=
  match slots.findIdx? fun p => p ≠ null with
  | some i => i
  | none => -1

/-- The answers about the first `count` slots, and that they are all the same. -/
structure Agree (slots : List Pointer) (count : ℕ) : Prop where
  find_scalar : lgxSimdFindNonemptySlotScalar slots count = some (firstNonempty (slots.take count))
  find_avx2 : lgxSimdFindNonemptySlotAvx2 slots count = some (firstNonempty (slots.take count))
  null_scalar : lgxSimdAllNullScalar slots count = some ((slots.take count).all fun p => p = null)
  null_avx2 : lgxSimdAllNullAvx2 slots count = some ((slots.take count).all fun p => p = null)
  count_scalar : lgxSimdCountNonemptyScalar slots count =
    some ((slots.take count).countP fun p => p ≠ null : ℕ)
  count_avx2 : lgxSimdCountNonemptyAvx2 slots count =
    some ((slots.take count).countP fun p => p ≠ null : ℕ)

theorem lgxSimdFindNonemptySlotScalar_eq (hcount : count ≤ slots.length) :
    lgxSimdFindNonemptySlotScalar slots count = some (firstNonempty (slots.take count)) := by
  have hlen : 0 + count ≤ slots.length := by rwa [Nat.zero_add]
  rw [lgxSimdFindNonemptySlotScalar, plain_eq_each, findSlot, each_leaveSlot _ hlen, firstNonempty,
    segment, List.drop_zero]
  cases (slots.take count).findIdx? fun p => p ≠ null with
  | none => rfl
  | some i =>
      rw [leaveAt, Nat.zero_add]
      rfl

theorem lgxSimdAllNullScalar_eq (hcount : count ≤ slots.length) :
    lgxSimdAllNullScalar slots count = some ((slots.take count).all fun p => p = null) := by
  have hlen : 0 + count ≤ slots.length := by rwa [Nat.zero_add]
  rw [lgxSimdAllNullScalar, plain_eq_each, nullSlot, each_leaveSlot _ hlen, segment, List.drop_zero]
  cases hfound : (slots.take count).findIdx? fun p => p ≠ null with
  | none =>
      have hall : ((slots.take count).all fun p => p = null) = true := by
        rw [List.all_eq_true]
        intro p hp
        have hnull := List.findIdx?_eq_none_iff.mp hfound p hp
        exact decide_eq_true (not_not.mp (of_decide_eq_false hnull))
      rw [hall]
      rfl
  | some i =>
      have hall : ((slots.take count).all fun p => p = null) = false := by
        obtain ⟨hlt, hi, -⟩ := List.findIdx?_eq_some_iff_getElem.mp hfound
        rw [List.all_eq_false]
        exact ⟨_, List.getElem_mem hlt, by simpa using hi⟩
      rw [hall]
      rfl

theorem lgxSimdCountNonemptyScalar_eq (hcount : count ≤ slots.length) :
    lgxSimdCountNonemptyScalar slots count = some ((slots.take count).countP fun p => p ≠ null : ℕ) := by
  have hlen : 0 + count ≤ slots.length := by rwa [Nat.zero_add]
  rw [lgxSimdCountNonemptyScalar, plain_eq_each, each_countSlot hlen, segment, List.drop_zero, zero_add]
  rfl

theorem Agree.of_le (hcount : count ≤ slots.length) : Agree slots count := by
  have hfind : lgxSimdFindNonemptySlotAvx2 slots count = lgxSimdFindNonemptySlotScalar slots count := by
    rw [lgxSimdFindNonemptySlotAvx2, blocked_eq_plain (by decide) (findBlock_eq_each hcount)]
    rfl
  have hnull : lgxSimdAllNullAvx2 slots count = lgxSimdAllNullScalar slots count := by
    rw [lgxSimdAllNullAvx2, blocked_eq_plain (by decide) (nullBlock_eq_each hcount)]
    rfl
  have hnonempty : lgxSimdCountNonemptyAvx2 slots count = lgxSimdCountNonemptyScalar slots count := by
    rw [lgxSimdCountNonemptyAvx2, blocked_eq_plain (by decide) (countBlock_eq_each hcount)]
    rfl
  rw [lgxSimdFindNonemptySlotScalar_eq hcount] at hfind
  rw [lgxSimdAllNullScalar_eq hcount] at hnull
  rw [lgxSimdCountNonemptyScalar_eq hcount] at hnonempty
  exact ⟨lgxSimdFindNonemptySlotScalar_eq hcount, hfind, lgxSimdAllNullScalar_eq hcount, hnull,
    lgxSimdCountNonemptyScalar_eq hcount, hnonempty⟩

/-- The AVX2 code gives the answers of the scalar code, and can do so when nothing but the first `count`
slots may be read. -/
theorem simd_agrees (slots : List Pointer) (count : ℕ) (hcount : count ≤ slots.length) :
    Agree slots count ∧ Agree (slots.take count) count := by
  have hlen : count ≤ (slots.take count).length := by
    rw [List.length_take, Nat.min_eq_left hcount]
  exact ⟨.of_le hcount, .of_le hlen⟩

/-- Seven slots, of which the last two are not `NULL`. -/
def sevenSlots : List Pointer :=
  [0, 0, 0, 0, 0, 0x1000, 0x2000]

/-- A block of four and two single slots. -/
theorem simd_agrees_six : lgxSimdFindNonemptySlotAvx2 sevenSlots 6 = some 5 ∧
    lgxSimdAllNullAvx2 sevenSlots 5 = some true ∧ lgxSimdCountNonemptyAvx2 sevenSlots 6 = some 1 ∧
    Agree sevenSlots 6 ∧ Agree (sevenSlots.take 6) 6 :=
  ⟨by decide, by decide, by decide, simd_agrees sevenSlots 6 (by decide)⟩

/-! ## The levels of the GPU pool -/

theorem findIdx?_map_range {α : Type} (f : ℕ → α) (p : α → Bool) (count : ℕ) :
    ((List.range count).map f).findIdx? p = (List.range count).find? fun i => p (f i) := by
  cases hfound : (List.range count).find? fun i => p (f i) with
  | none =>
      rw [List.findIdx?_eq_none_iff]
      intro x hx
      obtain ⟨i, hi, rfl⟩ := List.mem_map.mp hx
      exact Bool.eq_false_iff.mpr (List.find?_eq_none.mp hfound i hi)
  | some i =>
      obtain ⟨hi, hmem, hbefore⟩ := List.find?_range_eq_some.mp hfound
      rw [List.findIdx?_eq_some_iff_getElem]
      refine ⟨by simpa using hmem, by simpa using hi, fun j hj => ?_⟩
      simpa using hbefore j hj

/-- `buddy_find_free_block` finds the same level on every processor: the smallest that has a free block. -/
theorem lgxSimdFindNonemptySlot_freeLists (hasAvx2 : Bool) (freeLists : ℕ → Option ℕ) (count : ℕ)
    {pointer : Option ℕ → Pointer} (hpointer : ∀ head, pointer head = null ↔ head = none) :
    lgxSimdFindNonemptySlot hasAvx2 ((List.range count).map fun i => pointer (freeLists i)) count =
      some (match GpuPool.findNonemptySlot freeLists count with
        | some i => (i : ℤ)
        | none => -1) := by
  have hlength : ((List.range count).map fun i => pointer (freeLists i)).length = count := by
    rw [List.length_map, List.length_range]
  have hagree := Agree.of_le hlength.ge
  have hfirst : firstNonempty (((List.range count).map fun i => pointer (freeLists i)).take count) =
      (match GpuPool.findNonemptySlot freeLists count with
        | some i => (i : ℤ)
        | none => -1) := by
    have hsome : ∀ head, decide (pointer head ≠ null) = head.isSome := by
      intro head
      cases head <;> simp [hpointer]
    rw [List.take_of_length_le hlength.le, firstNonempty, findIdx?_map_range, GpuPool.findNonemptySlot]
    simp only [hsome]
  unfold lgxSimdFindNonemptySlot
  split
  · rw [hagree.find_avx2, hfirst]
  · rw [hagree.find_scalar, hfirst]

end LgxRuntime.Runtime.SimdOps
