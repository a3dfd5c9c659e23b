import Mathlib.Data.Nat.Bitwise
import Mathlib.Order.Interval.Finset.Nat
import Mathlib.Algebra.Order.BigOperators.Group.Finset
import Mathlib.Data.Set.Insert
import Mathlib.Algebra.Ring.Divisibility.Basic
import Mathlib.Tactic.Ring

/-!
# Tilings of an interval by aligned blocks

A family of blocks, each with an offset and a size, tiles `[0, N)` when every block lies at a multiple
of its own size and every point below `N` lies in exactly one block.  The family is indexed by an
arbitrary type, so that a block may be identified by its address or by its slot in a table.

The two operations of a buddy system are `Tiling.split`, which replaces a block by its two halves, and
`Tiling.merge`, which replaces two neighbouring halves by their union; `xor_two_pow_cases` says that the
exclusive or of an offset with a power-of-two size finds the other half.
-/

variable {ι : Type*}

/-- The blocks `[off i, off i + size i)`, for `i ∈ S`, are aligned and tile `[0, N)`. -/
structure Tiling (S : Set ι) (off size : ι → ℕ) (N : ℕ) : Prop where
  pos : ∀ i ∈ S, 0 < size i
  aligned : ∀ i ∈ S, size i ∣ off i
  inside : ∀ i ∈ S, off i + size i ≤ N
  disjoint : ∀ i ∈ S, ∀ j ∈ S, i ≠ j → off i + size i ≤ off j ∨ off j + size j ≤ off i
  cover : ∀ x < N, ∃ i ∈ S, off i ≤ x ∧ x < off i + size i

namespace Tiling

variable {S : Set ι} {off size off' size' : ι → ℕ} {N : ℕ} {i j : ι}

/-- One block covers the whole interval. -/
theorem single (hoff : off i = 0) (hsize : size i = N) (hN : 0 < N) :
    Tiling {i} off size N := by
  constructor
  · rintro _ rfl
    omega
  · rintro _ rfl
    rw [hoff]
    exact Nat.dvd_zero _
  · rintro _ rfl
    omega
  · rintro _ rfl _ rfl hne
    exact absurd rfl hne
  · exact fun x hx => ⟨i, rfl, by omega, by omega⟩

theorem congr (h : Tiling S off size N) (hoff : ∀ k ∈ S, off' k = off k)
    (hsize : ∀ k ∈ S, size' k = size k) : Tiling S off' size' N := by
  constructor
  · exact fun k hk => by rw [hsize k hk]; exact h.pos k hk
  · exact fun k hk => by rw [hsize k hk, hoff k hk]; exact h.aligned k hk
  · exact fun k hk => by rw [hsize k hk, hoff k hk]; exact h.inside k hk
  · intro k hk l hl hne
    rw [hsize k hk, hsize l hl, hoff k hk, hoff l hl]
    exact h.disjoint k hk l hl hne
  · intro x hx
    obtain ⟨k, hk, hle, hlt⟩ := h.cover x hx
    exact ⟨k, hk, by rwa [hoff k hk], by rwa [hoff k hk, hsize k hk]⟩

/-- The block that contains a point is unique. -/
theorem eq_of_mem (h : Tiling S off size N) (hi : i ∈ S) (hj : j ∈ S) {x : ℕ}
    (hix : off i ≤ x ∧ x < off i + size i) (hjx : off j ≤ x ∧ x < off j + size j) : i = j := by
  by_contra hne
  have := h.disjoint i hi j hj hne
  omega

/-- Blocks at the same offset are the same block. -/
theorem off_injOn (h : Tiling S off size N) (hi : i ∈ S) (hj : j ∈ S) (hoff : off i = off j) :
    i = j := by
  have hipos := h.pos i hi
  have hjpos := h.pos j hj
  exact h.eq_of_mem hi hj ⟨le_rfl, by omega⟩ ⟨hoff.ge, by omega⟩

/-- A block as long as the interval is the only block. -/
theorem eq_of_size_eq (h : Tiling S off size N) (hi : i ∈ S) (hj : j ∈ S) (hsize : size i = N) :
    j = i := by
  have hin := h.inside i hi
  have hjn := h.inside j hj
  have hjpos := h.pos j hj
  exact h.eq_of_mem hj hi ⟨le_rfl, by omega⟩ ⟨by omega, by omega⟩

/-- A block of size `2 * half` is replaced by its two halves, the upper one under a new index. -/
theorem split (h : Tiling S off size N) {half : ℕ} (hi : i ∈ S) (hj : j ∉ S)
    (hdouble : size i = 2 * half) (hoff : ∀ k ∈ S, off' k = off k) (hoffj : off' j = off i + half)
    (hsizei : size' i = half) (hsizej : size' j = half)
    (hsize : ∀ k ∈ S, k ≠ i → size' k = size k) : Tiling (insert j S) off' size' N := by
  have hipos := h.pos i hi
  have hiin := h.inside i hi
  have hoffi := hoff i hi
  have hhalf : half ∣ off i := (Dvd.intro_left 2 hdouble.symm).trans (h.aligned i hi)
  -- A block of the new family is the upper half, the lower half, or an old block beside `i`.
  have hcases : ∀ k ∈ insert j S, k = j ∨ k = i ∨
      k ∈ S ∧ off' k = off k ∧ size' k = size k ∧
        (off i + size i ≤ off k ∨ off k + size k ≤ off i) := by
    intro k hk
    rcases Set.mem_insert_iff.mp hk with rfl | hk
    · exact Or.inl rfl
    · by_cases hki : k = i
      · exact Or.inr (Or.inl hki)
      · exact Or.inr (Or.inr ⟨hk, hoff k hk, hsize k hk hki, h.disjoint i hi k hk (Ne.symm hki)⟩)
  constructor
  · intro k hk
    rcases hcases k hk with rfl | rfl | ⟨hkS, -, hks, -⟩
    · omega
    · omega
    · rw [hks]
      exact h.pos k hkS
  · intro k hk
    rcases hcases k hk with rfl | rfl | ⟨hkS, hko, hks, -⟩
    · rw [hoffj, hsizej]
      exact dvd_add hhalf dvd_rfl
    · rwa [hoffi, hsizei]
    · rw [hko, hks]
      exact h.aligned k hkS
  · intro k hk
    rcases hcases k hk with rfl | rfl | ⟨hkS, hko, hks, -⟩
    · omega
    · omega
    · rw [hko, hks]
      exact h.inside k hkS
  · intro k hk l hl hne
    rcases hcases k hk with rfl | rfl | ⟨hkS, hko, hks, hki⟩ <;>
      rcases hcases l hl with rfl | rfl | ⟨hlS, hlo, hls, hli⟩
    · exact absurd rfl hne
    · omega
    · omega
    · omega
    · exact absurd rfl hne
    · omega
    · omega
    · omega
    · rw [hko, hks, hlo, hls]
      exact h.disjoint k hkS l hlS hne
  · intro x hx
    obtain ⟨k, hk, hle, hlt⟩ := h.cover x hx
    by_cases hki : k = i
    · subst hki
      by_cases hlow : x < off k + half
      · exact ⟨k, Set.mem_insert_of_mem _ hk, by omega, by omega⟩
      · exact ⟨j, Set.mem_insert _ _, by omega, by omega⟩
    · exact ⟨k, Set.mem_insert_of_mem _ hk, by rwa [hoff k hk], by rwa [hoff k hk, hsize k hk hki]⟩

/-- Two neighbouring blocks of one size are replaced by their union, under the index of the lower
one. -/
theorem merge (h : Tiling S off size N) (hi : i ∈ S) (hj : j ∈ S) (hij : i ≠ j)
    (hnext : off j = off i + size i) (hequal : size j = size i) (halign : 2 * size i ∣ off i)
    (hoff : ∀ k ∈ S, k ≠ j → off' k = off k) (hsizei : size' i = 2 * size i)
    (hsize : ∀ k ∈ S, k ≠ i → k ≠ j → size' k = size k) : Tiling (S \ {j}) off' size' N := by
  have hipos := h.pos i hi
  have hjin := h.inside j hj
  have hoffi := hoff i hi hij
  -- A block of the new family is the union or an old block beside both halves.
  have hcases : ∀ k ∈ S \ {j}, k = i ∨
      k ∈ S ∧ off' k = off k ∧ size' k = size k ∧
        (off i + 2 * size i ≤ off k ∨ off k + size k ≤ off i) := by
    rintro k ⟨hk, hkj⟩
    by_cases hki : k = i
    · exact Or.inl hki
    · have hbi := h.disjoint i hi k hk (Ne.symm hki)
      have hbj := h.disjoint j hj k hk (Ne.symm hkj)
      have hkpos := h.pos k hk
      exact Or.inr ⟨hk, hoff k hk hkj, hsize k hk hki hkj, by omega⟩
  constructor
  · intro k hk
    rcases hcases k hk with rfl | ⟨hkS, -, hks, -⟩
    · omega
    · rw [hks]
      exact h.pos k hkS
  · intro k hk
    rcases hcases k hk with rfl | ⟨hkS, hko, hks, -⟩
    · rwa [hoffi, hsizei]
    · rw [hko, hks]
      exact h.aligned k hkS
  · intro k hk
    rcases hcases k hk with rfl | ⟨hkS, hko, hks, -⟩
    · omega
    · rw [hko, hks]
      exact h.inside k hkS
  · intro k hk l hl hne
    rcases hcases k hk with rfl | ⟨hkS, hko, hks, hki⟩ <;>
      rcases hcases l hl with rfl | ⟨hlS, hlo, hls, hli⟩
    · exact absurd rfl hne
    · omega
    · omega
    · rw [hko, hks, hlo, hls]
      exact h.disjoint k hkS l hlS hne
  · intro x hx
    obtain ⟨k, hk, hle, hlt⟩ := h.cover x hx
    by_cases hki : k = i ∨ k = j
    · refine ⟨i, ⟨hi, hij⟩, ?_⟩
      rcases hki with rfl | rfl <;> omega
    · push Not at hki
      exact ⟨k, ⟨hk, hki.2⟩, by rwa [hoff k hk hki.2], by
        rwa [hoff k hk hki.2, hsize k hk hki.1 hki.2]⟩

/-- The sizes of the blocks add up to the length of the interval. -/
theorem sum_size [DecidableEq ι] {s : Finset ι} (h : Tiling (s : Set ι) off size N) :
    ∑ i ∈ s, size i = N := by
  have hunion : s.biUnion (fun i => Finset.Ico (off i) (off i + size i)) = Finset.range N := by
    ext x
    simp only [Finset.mem_biUnion, Finset.mem_Ico, Finset.mem_range]
    constructor
    · rintro ⟨i, hi, -, hlt⟩
      exact hlt.trans_le (h.inside i hi)
    · exact fun hx => h.cover x hx
  have hcard := congrArg Finset.card hunion
  rw [Finset.card_biUnion, Finset.card_range] at hcard
  · simpa using hcard
  · intro i hi j hj hne
    refine Finset.disjoint_left.mpr fun x hxi hxj => hne ?_
    rw [Finset.mem_Ico] at hxi hxj
    exact h.eq_of_mem hi hj hxi hxj

end Tiling

/-- The exclusive or of an aligned offset with the block size is the offset of the other half of the
block of twice the size. -/
theorem xor_two_pow_cases {offset k : ℕ} (h : 2 ^ k ∣ offset) :
    (2 * 2 ^ k ∣ offset ∧ offset ^^^ 2 ^ k = offset + 2 ^ k) ∨
      (2 ^ k ≤ offset ∧ offset ^^^ 2 ^ k = offset - 2 ^ k ∧ 2 * 2 ^ k ∣ offset - 2 ^ k) := by
  obtain ⟨m, rfl⟩ := h
  have hxor : 2 ^ k * m ^^^ 2 ^ k = 2 ^ k * (m ^^^ 1) := by
    have hdistrib := @Nat.shiftLeft_xor_distrib k m 1
    simp only [Nat.shiftLeft_eq, one_mul] at hdistrib
    rw [Nat.mul_comm _ m, Nat.mul_comm _ (m ^^^ 1), hdistrib]
  rw [hxor]
  rcases Nat.even_or_odd m with heven | hodd
  · left
    obtain ⟨q, rfl⟩ := heven.two_dvd
    rw [Nat.xor_one_of_even heven]
    exact ⟨⟨q, by ring⟩, by ring⟩
  · right
    obtain ⟨q, rfl⟩ := hodd
    have hsub : 2 ^ k * (2 * q + 1) - 2 ^ k = 2 ^ k * (2 * q) := by
      rw [Nat.mul_add, Nat.mul_one, Nat.add_sub_cancel]
    rw [Nat.xor_one_of_odd ⟨q, rfl⟩, Nat.add_sub_cancel, hsub]
    exact ⟨Nat.le_mul_of_pos_right _ (by omega), rfl, ⟨q, by ring⟩⟩

theorem add_le_of_dvd_of_lt {d m n : ℕ} (hm : d ∣ m) (hn : d ∣ n) (hlt : m < n) : m + d ≤ n := by
  have hle := Nat.le_of_dvd (by omega) (Nat.dvd_sub hn hm)
  omega

/-- In a tiling by powers of two the other half of a block begins where a block begins that is not larger:
a larger one would contain both halves. -/
theorem Tiling.exists_buddy {S : Set ι} {off size : ι → ℕ} {N : ℕ} (h : Tiling S off size N)
    (hpow : ∀ j ∈ S, ∃ p, size j = 2 ^ p) {i : ι} (hi : i ∈ S) (hdouble : 2 * size i ∣ N) :
    ∃ j ∈ S, off j = off i ^^^ size i ∧ size j ≤ size i := by
  obtain ⟨p, hp⟩ := hpow i hi
  have hin := h.inside i hi
  have hpos := h.pos i hi
  have hboth : ∃ base, 2 * 2 ^ p ∣ base ∧
      ((off i = base ∧ off i ^^^ size i = base + 2 ^ p) ∨
        (off i = base + 2 ^ p ∧ off i ^^^ size i = base)) := by
    have halign := h.aligned i hi
    rw [hp] at halign ⊢
    rcases xor_two_pow_cases halign with ⟨hdvd, hxor⟩ | ⟨hge, hxor, hdvd⟩
    · exact ⟨off i, hdvd, Or.inl ⟨rfl, hxor⟩⟩
    · exact ⟨off i - 2 ^ p, hdvd, Or.inr ⟨by omega, hxor⟩⟩
  obtain ⟨base, hbase, hhalves⟩ := hboth
  rw [hp] at hdouble
  have hend := add_le_of_dvd_of_lt hbase hdouble (show base < N by omega)
  obtain ⟨j, hj, hle, hlt⟩ := h.cover (off i ^^^ size i) (by omega)
  obtain ⟨r, hr⟩ := hpow j hj
  have halign := h.aligned j hj
  rw [hr] at halign
  refine ⟨j, hj, ?_⟩
  by_cases hrp : r ≤ p
  · have hpr : 2 ^ r ∣ 2 ^ p := pow_dvd_pow 2 hrp
    have hdvd : 2 ^ r ∣ off i ^^^ size i := by
      have hbase' : 2 ^ r ∣ base := (hpr.trans (Dvd.intro_left 2 rfl)).trans hbase
      rcases hhalves with ⟨-, hoff⟩ | ⟨-, hoff⟩ <;> rw [hoff]
      · exact dvd_add hbase' hpr
      · exact hbase'
    refine ⟨?_, ?_⟩
    · by_contra hne
      have hfull := add_le_of_dvd_of_lt halign hdvd (by omega)
      omega
    · rw [hr, hp]
      exact Nat.pow_le_pow_right (by omega) hrp
  · -- the block contains the whole pair, and with it the block `i`
    have hpr : 2 * 2 ^ p ∣ 2 ^ r := by
      rw [← Nat.pow_succ']
      exact pow_dvd_pow 2 (by omega)
    have hlow : off j ≤ base := by
      by_contra hlt'
      have hfull := add_le_of_dvd_of_lt hbase (hpr.trans halign) (by omega)
      omega
    have hhigh := add_le_of_dvd_of_lt hbase (dvd_add (hpr.trans halign) hpr) (by omega)
    have heq : i = j := by
      refine h.eq_of_mem hi hj (x := off i) ⟨le_rfl, by omega⟩ ⟨by omega, by omega⟩
    rw [heq, hr] at hp
    have hne := Nat.pow_lt_pow_right (a := 2) (by omega) (show p < r by omega)
    omega

/-- If no two blocks of one size are the halves of a block, there is only one block. -/
theorem Tiling.size_eq_of_apart {S : Set ι} {off size : ι → ℕ} {n : ℕ} (h : Tiling S off size (2 ^ n))
    (hpow : ∀ j ∈ S, ∃ p, size j = 2 ^ p)
    (hapart : ∀ i ∈ S, ∀ j ∈ S, size i < 2 ^ n → size j = size i → off j ≠ off i ^^^ size i) {i : ι}
    (hi : i ∈ S) : size i = 2 ^ n := by
  induction hsize : size i using Nat.strongRecOn generalizing i with
  | _ s ih =>
      obtain ⟨p, hp⟩ := hpow i hi
      have hin := h.inside i hi
      by_contra hne
      have hlt : size i < 2 ^ n := by omega
      have hpn : p < n := by
        rw [hp] at hlt
        exact (Nat.pow_lt_pow_iff_right (by omega)).mp hlt
      have hdouble : 2 * size i ∣ 2 ^ n := by
        rw [hp, ← Nat.pow_succ']
        exact pow_dvd_pow 2 hpn
      obtain ⟨j, hj, hoff, hle⟩ := h.exists_buddy hpow hi hdouble
      rcases Nat.lt_or_eq_of_le hle with hless | heq
      · have htop := ih (size j) (hsize ▸ hless) hj rfl
        omega
      · exact hapart i hi j hj hlt heq hoff

/-- An offset at a multiple of twice the size of a half is the offset of a lower half. -/
theorem xor_eq_add_of_dvd {offset k : ℕ} (h : 2 * 2 ^ k ∣ offset) : offset ^^^ 2 ^ k = offset + 2 ^ k := by
  rcases xor_two_pow_cases ((Dvd.intro_left 2 rfl).trans h) with ⟨-, hxor⟩ | ⟨hle, -, hdvd⟩
  · exact hxor
  · have hpos := Nat.two_pow_pos k
    have hhalf : 2 * 2 ^ k ∣ 2 ^ k := by
      have hsub := Nat.dvd_sub h hdvd
      rwa [Nat.sub_sub_self hle] at hsub
    have := Nat.le_of_dvd hpos hhalf
    omega
