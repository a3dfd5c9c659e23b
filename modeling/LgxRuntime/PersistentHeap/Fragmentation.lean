import LgxRuntime.PersistentHeap.BuddyCompleteness
import Mathlib.Algebra.BigOperators.Group.Finset.Basic
import Mathlib.Data.List.Nodup
import Mathlib.Data.Rat.Cast.Order
import Mathlib.Tactic.NormNum

/-!
# The fragmentation of the persistent heap

`buddy_get_fragmentation` adds up the free blocks and looks for the largest one.  What it finds is what is left of the
region beside the blocks of the live pointers, and the largest request that can be met; the fragmentation that it
computes from that is zero if there is at most one free block.

The heap warns when an allocation finds the fragmentation above a threshold, and not again before a deallocation has
found it below.
-/

namespace LgxRuntime.PersistentHeap

open FreeLists (taken)

/-! ## The scan -/

/-- The sum of the free blocks and the largest one, with one more block. -/
def addFree (acc : ℕ × ℕ) (blockSize : ℕ) : ℕ × ℕ :=
  (acc.1 + blockSize, if blockSize > acc.2 then blockSize else acc.2)

/-- The walk of `buddy_get_fragmentation` along one free list. -/
def scanList (b : Buddy) (blockSize : ℕ) : ℕ → Option ℕ → ℕ × ℕ → Option (ℕ × ℕ)
  | 0, _, _ => none
  | _ + 1, none, acc => some acc
  | fuel + 1, some block, acc => scanList b blockSize fuel (b.block block).next (addFree acc blockSize)

/-- The loop of `buddy_get_fragmentation`: the sum of the free blocks, and the largest one. -/
def scanFree (b : Buddy) : Option (ℕ × ℕ) :=
  (List.range buddyNumOrders).foldlM
    (fun acc order => scanList b (orderToSize order) (walkFuel b) (b.freeLists order) acc) (0, 0)

/-- `buddy_get_fragmentation`, with numbers of any type in place of `float`. -/
def buddyGetFragmentation (Ratio : Type) [Zero Ratio] [One Ratio] [Sub Ratio] [Div Ratio] [NatCast Ratio] (b : Buddy) :
    Option Ratio :=
  (scanFree b).map fun result => if result.1 = 0 then 0 else 1 - (result.2 : Ratio) / (result.1 : Ratio)

/-! ## Sums and maxima -/

theorem foldl_addFree (sizes : List ℕ) (acc : ℕ × ℕ) :
    sizes.foldl addFree acc = (acc.1 + sizes.sum, sizes.foldl max acc.2) := by
  induction sizes generalizing acc with
  | nil => simp
  | cons size sizes ih =>
      have hmax : (addFree acc size).2 = max acc.2 size := by
        rw [addFree]
        split_ifs <;> omega
      rw [List.foldl_cons, ih, hmax, List.sum_cons, List.foldl_cons, addFree, Nat.add_assoc]

theorem le_foldl_max_iff (sizes : List ℕ) (x start : ℕ) :
    x ≤ sizes.foldl max start ↔ x ≤ start ∨ ∃ size ∈ sizes, x ≤ size := by
  induction sizes generalizing start with
  | nil => simp
  | cons size sizes ih =>
      rw [List.foldl_cons, ih, le_max_iff, or_assoc]
      simp

theorem foldl_max_le_sum (sizes : List ℕ) : sizes.foldl max 0 ≤ sizes.sum := by
  rcases (le_foldl_max_iff sizes _ 0).mp le_rfl with hzero | ⟨size, hsize, hle⟩
  · omega
  · exact hle.trans (List.single_le_sum (fun _ _ => Nat.zero_le _) size hsize)

/-- A sum of positive numbers is their maximum only if there is at most one of them. -/
theorem sum_eq_max_iff {sizes : List ℕ} (hpos : ∀ size ∈ sizes, 0 < size) :
    sizes.sum = sizes.foldl max 0 ↔ sizes.length ≤ 1 := by
  match sizes, hpos with
  | [], _ => simp
  | [size], _ => simp
  | size :: size' :: sizes, hpos =>
      refine iff_of_false (fun heq => ?_) (by simp)
      obtain hzero | ⟨largest, hlargest, hle⟩ :=
        (le_foldl_max_iff (size :: size' :: sizes) _ 0).mp heq.le
      · have hsize := hpos size (List.mem_cons_self ..)
        rw [List.sum_cons] at hzero
        omega
      · -- the others are positive, so that no one is as large as the sum
        have hsize := hpos size (List.mem_cons_self ..)
        have hsize' := hpos size' (by simp)
        rw [List.sum_cons, List.sum_cons] at hle
        rcases List.mem_cons.mp hlargest with rfl | hlargest
        · omega
        · rcases List.mem_cons.mp hlargest with rfl | hlargest
          · omega
          · have := List.single_le_sum (fun _ _ => Nat.zero_le _) largest hlargest
            omega

/-! ## What the scan finds -/

/-- The free blocks, list after list. -/
def freeBlocks (free : ℕ → List ℕ) : List ℕ :=
  (List.range buddyNumOrders).flatMap free

theorem scanList_eq {b : Buddy} {blockSize fuel : ℕ} {head : Option ℕ} {l : List ℕ}
    (hlinked : Linked (fun a => (b.block a).next) head l) (hfuel : l.length < fuel) (acc : ℕ × ℕ) :
    scanList b blockSize fuel head acc = some ((l.map fun _ => blockSize).foldl addFree acc) := by
  induction l generalizing fuel head acc with
  | nil =>
      obtain ⟨fuel, rfl⟩ := Nat.exists_eq_succ_of_ne_zero (Nat.ne_of_gt hfuel)
      rw [Linked.nil_iff] at hlinked
      rw [hlinked]
      rfl
  | cons a l ih =>
      obtain ⟨fuel, rfl⟩ := Nat.exists_eq_succ_of_ne_zero (Nat.ne_of_gt (Nat.zero_lt_of_lt hfuel))
      obtain ⟨rfl, htail⟩ := hlinked
      exact ih htail (by simpa using hfuel) _

namespace Rep

variable {b : Buddy} {free : ℕ → List ℕ} {S : Set ℕ}

theorem scanOrders_eq (h : Rep b free S) (orders : List ℕ) (acc : ℕ × ℕ) :
    orders.foldlM (fun acc order => scanList b (orderToSize order) (walkFuel b) (b.freeLists order) acc) acc =
      some (((orders.flatMap free).map fun a => orderToSize (b.block a).order).foldl addFree acc) := by
  induction orders generalizing acc with
  | nil => rfl
  | cons order orders ih =>
      have hsizes : ((free order).map fun _ => orderToSize order) =
          (free order).map fun a => orderToSize (b.block a).order :=
        List.map_congr_left fun a ha => by rw [(h.free_mem order a ha).2.2]
      rw [List.foldlM_cons, scanList_eq (h.linked order) (h.length_free_lt order), hsizes]
      change orders.foldlM _ _ = _
      rw [ih, List.flatMap_cons, List.map_append, List.foldl_append]

/-- The scan finds the sum and the maximum of the sizes of the free blocks. -/
theorem scanFree_eq (h : Rep b free S) :
    scanFree b = some
      (((freeBlocks free).map fun a => orderToSize (b.block a).order).sum,
        ((freeBlocks free).map fun a => orderToSize (b.block a).order).foldl max 0) := by
  rw [scanFree, h.scanOrders_eq, foldl_addFree, Nat.zero_add]
  rfl

theorem mem_freeBlocks (h : Rep b free S) {a : ℕ} : a ∈ freeBlocks free ↔ ∃ k, a ∈ free k := by
  rw [freeBlocks, List.mem_flatMap]
  constructor
  · rintro ⟨k, -, ha⟩
    exact ⟨k, ha⟩
  · rintro ⟨k, ha⟩
    obtain ⟨haS, -, rfl⟩ := h.free_mem k a ha
    exact ⟨_, List.mem_range.mpr (h.order_lt a haS), ha⟩

theorem nodup_freeBlocks (h : Rep b free S) : (freeBlocks free).Nodup := by
  refine List.nodup_flatMap.mpr ⟨fun k _ => (h.linked k).nodup, ?_⟩
  refine List.nodup_range.imp fun {j k} hne => ?_
  exact List.disjoint_left.mpr fun a hj => h.not_mem_of_ne hj hne.symm

/-- A block of some order or a larger one is free if and only if the largest free block is as large. -/
theorem le_largest_iff (h : Rep b free S) (order : ℕ) :
    orderToSize order ≤ ((freeBlocks free).map fun a => orderToSize (b.block a).order).foldl max 0 ↔
      ∃ k ≥ order, free k ≠ [] := by
  have hpos := orderToSize_pos order
  rw [le_foldl_max_iff, or_iff_right (by omega)]
  constructor
  · rintro ⟨size, hsize, hle⟩
    obtain ⟨a, ha, rfl⟩ := List.mem_map.mp hsize
    obtain ⟨k, hk⟩ := h.mem_freeBlocks.mp ha
    rw [(h.free_mem k a hk).2.2] at hle
    refine ⟨k, ?_, List.ne_nil_of_mem hk⟩
    by_contra hlt
    have hdouble := orderToSize_le (show k + 1 ≤ order by omega)
    rw [orderToSize_succ] at hdouble
    have := orderToSize_pos k
    omega
  · rintro ⟨k, hle, hne⟩
    obtain ⟨a, ha⟩ := List.exists_mem_of_ne_nil _ hne
    refine ⟨_, List.mem_map_of_mem (h.mem_freeBlocks.mpr ⟨k, ha⟩), ?_⟩
    rw [(h.free_mem k a ha).2.2]
    exact orderToSize_le hle

end Rep

/-- The bytes of the blocks of the live pointers. -/
def liveBlockBytes (live : List (ℕ × ℕ)) : ℕ :=
  (live.map fun p => orderToSize (sizeToOrder (p.2 + buddyHeaderSize))).sum

namespace Owned

variable {b : Buddy} {live : List (ℕ × ℕ)} {free : ℕ → List ℕ} {S : Set ℕ}

/-- The free blocks and the blocks of the live pointers make up the region. -/
theorem sum_free_add_liveBlockBytes (h : Owned b live free S) :
    ((freeBlocks free).map fun a => orderToSize (b.block a).order).sum + liveBlockBytes live = 2 ^ 26 := by
  let taken := live.map fun p => p.1 - buddyHeaderSize
  have hptr : ∀ p ∈ live, ∃ a ∈ FreeLists.taken free S, p.1 - buddyHeaderSize = a ∧ p.1 = a + buddyHeaderSize ∧
      (b.block a).order = sizeToOrder (p.2 + buddyHeaderSize) := by
    rintro ⟨ptr, size⟩ hp
    obtain ⟨a, ha, rfl, -, horder⟩ := h.of_live ptr size hp
    exact ⟨a, ha, by simp, rfl, horder⟩
  have hlive : liveBlockBytes live = (taken.map fun a => orderToSize (b.block a).order).sum := by
    rw [liveBlockBytes, List.map_map]
    refine congrArg List.sum (List.map_congr_left fun p hp => ?_)
    obtain ⟨a, -, hsub, -, horder⟩ := hptr p hp
    rw [Function.comp_apply, hsub, horder]
  have htaken : taken.Nodup := by
    refine List.Nodup.map_on (fun p hp q hq heq => ?_) (h.nodup.of_map _)
    obtain ⟨a, -, hsub, hadd, -⟩ := hptr p hp
    obtain ⟨a', -, hsub', hadd', -⟩ := hptr q hq
    refine List.inj_on_of_nodup_map h.nodup hp hq ?_
    rw [hadd, hadd', ← hsub, ← hsub', heq]
  have hapart : List.Disjoint (freeBlocks free) taken := by
    refine List.disjoint_left.mpr fun a ha hmem => ?_
    obtain ⟨k, hk⟩ := h.rep.mem_freeBlocks.mp ha
    obtain ⟨p, hp, rfl⟩ := List.mem_map.mp hmem
    obtain ⟨a, ha, hsub, -⟩ := hptr p hp
    rw [hsub] at hk
    exact ha.2 k hk
  have hnodup : (freeBlocks free ++ taken).Nodup := h.rep.nodup_freeBlocks.append htaken hapart
  have hblocks : ((freeBlocks free ++ taken).toFinset : Set ℕ) = S := by
    ext a
    rw [List.coe_toFinset, Set.mem_ofPred_eq, List.mem_append]
    constructor
    · rintro (ha | ha)
      · obtain ⟨k, hk⟩ := h.rep.mem_freeBlocks.mp ha
        exact (h.rep.free_mem k a hk).1
      · obtain ⟨p, hp, rfl⟩ := List.mem_map.mp ha
        obtain ⟨a, ha, hsub, -⟩ := hptr p hp
        rw [hsub]
        exact ha.1
    · intro haS
      by_cases hfree : ∃ k, a ∈ free k
      · exact .inl (h.rep.mem_freeBlocks.mpr hfree)
      · obtain ⟨size, hsize⟩ := h.of_taken a ⟨haS, fun k hk => hfree ⟨k, hk⟩⟩
        exact .inr (List.mem_map.mpr ⟨_, hsize, by simp⟩)
  have htiling := h.rep.tiling
  rw [← hblocks] at htiling
  have hsum := htiling.sum_size
  rw [List.sum_toFinset _ hnodup, List.map_append, List.sum_append, regionSize_eq] at hsum
  rw [hlive, hsum]

end Owned

/-- There is at most one free block if and only if the scan finds the sum to be the largest one. -/
theorem Rep.sum_eq_largest_iff {b : Buddy} {free : ℕ → List ℕ} {S : Set ℕ} (h : Rep b free S) :
    ((freeBlocks free).map fun a => orderToSize (b.block a).order).sum =
        ((freeBlocks free).map fun a => orderToSize (b.block a).order).foldl max 0 ↔
      ∀ j k a a', b.OnFreeList j a → b.OnFreeList k a' → a = a' := by
  have hpos : ∀ size ∈ (freeBlocks free).map fun a => orderToSize (b.block a).order, 0 < size := by
    intro size hsize
    obtain ⟨a, -, rfl⟩ := List.mem_map.mp hsize
    exact orderToSize_pos _
  rw [sum_eq_max_iff hpos, List.length_map, ← List.toFinset_card_of_nodup h.nodup_freeBlocks, Finset.card_le_one]
  simp only [List.mem_toFinset, h.mem_freeBlocks, h.onFreeList_iff]
  exact ⟨fun hone j k a a' ha ha' => hone a ⟨j, ha⟩ a' ⟨k, ha'⟩, fun hone a ⟨j, ha⟩ a' ⟨k, ha'⟩ => hone j k a a' ha ha'⟩

/-- The quotient is one if and only if the sum is the largest block. -/
theorem fragmentation_eq_zero_iff {total largest : ℕ} (hle : largest ≤ total) :
    (if total = 0 then (0 : ℚ) else 1 - (largest : ℚ) / (total : ℚ)) = 0 ↔ total = largest := by
  split_ifs with htotal
  · exact iff_of_true rfl (by omega)
  · have hne : (total : ℚ) ≠ 0 := Nat.cast_ne_zero.mpr htotal
    rw [sub_eq_zero, eq_div_iff hne, one_mul, Nat.cast_inj]

/-- In every run, what the scan finds free is what is left of the region beside the blocks of the live pointers; the
largest free block tells which requests can be met; and the two are the same, so that the fragmentation is zero, if and
only if there is at most one free block. -/
theorem scan_of_reachable {memory : ℕ} {r : BuddyRun} (h : BuddyReachable memory r) :
    ∃ total largest, scanFree r.buddy = some (total, largest) ∧ total + liveBlockBytes r.live = 2 ^ 26 ∧
      (∀ size, 0 < size → size + buddyHeaderSize ≤ 2 ^ 26 →
        ((buddyAlloc r.buddy size).1.isSome ↔ orderToSize (sizeToOrder (size + buddyHeaderSize)) ≤ largest)) ∧
      (buddyGetFragmentation ℚ r.buddy = some 0 ↔
        ∀ j k a a', r.buddy.OnFreeList j a → r.buddy.OnFreeList k a' → a = a') := by
  obtain ⟨free, S, howned⟩ := h.owned
  have hscan := howned.rep.scanFree_eq
  refine ⟨_, _, hscan, howned.sum_free_add_liveBlockBytes, fun size hpos hle => ?_, ?_⟩
  · rw [howned.rep.buddyAlloc_isSome_iff hpos hle, howned.rep.le_largest_iff]
  · rw [← howned.rep.sum_eq_largest_iff, buddyGetFragmentation, hscan, Option.map_some, Option.some.injEq]
    exact fragmentation_eq_zero_iff (foldl_max_le_sum _)

/-- One allocation of 5000 bytes takes 8 KB, and leaves a block of 32 MB and smaller ones. -/
theorem scan_after_first_alloc : ∃ r : BuddyRun, BuddyReachable 4096 r ∧
    scanFree r.buddy = some (2 ^ 26 - 2 ^ 13, 2 ^ 25) ∧
    ((buddyAlloc r.buddy (2 ^ 25)).1.isSome ↔ orderToSize (sizeToOrder (2 ^ 25 + buddyHeaderSize)) ≤ 2 ^ 25) := by
  have hreach := BuddyReachable.step (.init (fun _ => ⟨none, 0, false⟩) (by decide : 4096 ≠ 0)) (.alloc _ 5000)
  obtain ⟨total, largest, hscan, -, halloc, -⟩ := scan_of_reachable hreach
  have hresult : scanFree (buddyAlloc (buddyInit 4096 fun _ => ⟨none, 0, false⟩) 5000).2 =
      some (2 ^ 26 - 2 ^ 13, 2 ^ 25) := by
    decide +kernel
  obtain ⟨rfl, rfl⟩ := Prod.mk.inj (Option.some.inj (hscan.symm.trans hresult))
  exact ⟨_, hreach, hresult, halloc (2 ^ 25) (by decide) (by decide)⟩

/-! ## Warnings -/

/-- What is printed about the fragmentation. -/
inductive FragmentationWarning
  | warning
  | critical
  deriving DecidableEq

/-- `FRAGMENTATION_WARNING_THRESHOLD` and `FRAGMENTATION_CRITICAL_THRESHOLD`. -/
structure FragmentationThresholds (Ratio : Type) [LE Ratio] where
  warning : Ratio
  critical : Ratio
  warning_le : warning ≤ critical

/-- 25 % and 50 %. -/
def fragmentationThresholds : FragmentationThresholds ℚ :=
  ⟨1 / 4, 1 / 2, by norm_num⟩

/-- `fragmentation_warning_issued` and `fragmentation_critical_issued`. -/
structure FragmentationFlags where
  warningIssued : Bool
  criticalIssued : Bool

section

variable {Ratio : Type} [LinearOrder Ratio] (thresholds : FragmentationThresholds Ratio)

/-- The end of `lgx_heap_alloc`: what is printed, and the flags. -/
def checkFragmentation (flags : FragmentationFlags) (frag : Ratio) :
    Option FragmentationWarning × FragmentationFlags :=
  if thresholds.critical ≤ frag ∧ flags.criticalIssued = false then
    (some .critical, { flags with criticalIssued := true })
  else if thresholds.warning ≤ frag ∧ flags.warningIssued = false then
    (some .warning, { flags with warningIssued := true })
  else (none, flags)

/-- The end of `lgx_heap_free`. -/
def resetFragmentation (flags : FragmentationFlags) (frag : Ratio) : FragmentationFlags :=
  if frag < thresholds.warning then { flags with warningIssued := false, criticalIssued := false }
  else if frag < thresholds.critical then { flags with criticalIssued := false }
  else flags

/-- An allocation or a deallocation, and the fragmentation after it. -/
inductive FragmentationOp (Ratio : Type)
  | alloc (frag : Ratio)
  | free (frag : Ratio)

/-- What has happened, and what was printed. -/
inductive FragmentationEvent (Ratio : Type)
  | alloc (frag : Ratio) (printed : Option FragmentationWarning)
  | free (frag : Ratio)
  deriving DecidableEq

/-- One operation, on the flags and what has happened, the latest first. -/
def fragmentationStep (s : FragmentationFlags × List (FragmentationEvent Ratio)) :
    FragmentationOp Ratio → FragmentationFlags × List (FragmentationEvent Ratio)
  | .alloc frag =>
      let r := checkFragmentation thresholds s.1 frag
      (r.2, .alloc frag r.1 :: s.2)
  | .free frag => (resetFragmentation thresholds s.1 frag, .free frag :: s.2)

/-- The flags and what has happened since `lgx_persistent_heap_init`. -/
def fragmentationRun (ops : List (FragmentationOp Ratio)) : FragmentationFlags × List (FragmentationEvent Ratio) :=
  ops.foldl (fragmentationStep thresholds) (⟨false, false⟩, [])

/-- The threshold of a warning. -/
def FragmentationThresholds.limit : FragmentationWarning → Ratio
  | .warning => thresholds.warning
  | .critical => thresholds.critical

/-- The flag of a warning. -/
def FragmentationFlags.issued (flags : FragmentationFlags) : FragmentationWarning → Bool
  | .warning => flags.warningIssued
  | .critical => flags.criticalIssued

/-- The warning has been printed, and no deallocation has found less than the limit afterwards. -/
def IssuedSince (limit : Ratio) (kind : FragmentationWarning) : List (FragmentationEvent Ratio) → Prop
  | [] => False
  | .alloc _ printed :: events => printed = some kind ∨ IssuedSince limit kind events
  | .free frag :: events => limit ≤ frag ∧ IssuedSince limit kind events

variable {thresholds} {flags : FragmentationFlags} {frag : Ratio} {kind : FragmentationWarning}

/-- An allocation prints a warning that is not issued yet, and then it is. -/
theorem checkFragmentation_issued :
    ((checkFragmentation thresholds flags frag).2.issued kind = true ↔
        (checkFragmentation thresholds flags frag).1 = some kind ∨ flags.issued kind = true) ∧
      ((checkFragmentation thresholds flags frag).1 = some kind →
        thresholds.limit kind ≤ frag ∧ flags.issued kind = false) := by
  rw [checkFragmentation]
  split_ifs with hcritical hwarning
  · cases kind with
    | warning => exact ⟨⟨.inr, fun h => h.resolve_left (by simp)⟩, fun h => nomatch h⟩
    | critical => exact ⟨iff_of_true rfl (.inl rfl), fun _ => hcritical⟩
  · cases kind with
    | warning => exact ⟨iff_of_true rfl (.inl rfl), fun _ => hwarning⟩
    | critical => exact ⟨⟨.inr, fun h => h.resolve_left (by simp)⟩, fun h => nomatch h⟩
  · exact ⟨⟨.inr, fun h => h.resolve_left (by simp)⟩, fun h => nomatch h⟩

/-- A deallocation takes back a warning if it finds less than the threshold. -/
theorem resetFragmentation_issued :
    (resetFragmentation thresholds flags frag).issued kind = true ↔
      thresholds.limit kind ≤ frag ∧ flags.issued kind = true := by
  have hle := thresholds.warning_le
  rw [resetFragmentation]
  split_ifs with hwarning hcritical
  · cases kind with
    | warning => exact iff_of_false Bool.false_ne_true fun h => absurd h.1 (not_le.mpr hwarning)
    | critical => exact iff_of_false Bool.false_ne_true fun h => absurd (hle.trans h.1) (not_le.mpr hwarning)
  · cases kind with
    | warning => exact (and_iff_right (not_lt.mp hwarning)).symm
    | critical => exact iff_of_false Bool.false_ne_true fun h => absurd h.1 (not_le.mpr hcritical)
  · cases kind with
    | warning => exact (and_iff_right (not_lt.mp hwarning)).symm
    | critical => exact (and_iff_right (not_lt.mp hcritical)).symm

theorem fragmentationRun_concat (ops : List (FragmentationOp Ratio)) (op : FragmentationOp Ratio) :
    fragmentationRun thresholds (ops ++ [op]) = fragmentationStep thresholds (fragmentationRun thresholds ops) op := by
  rw [fragmentationRun, List.foldl_append]
  rfl

/-- The flags say what has been printed and not taken back. -/
theorem issued_iff (ops : List (FragmentationOp Ratio)) (kind : FragmentationWarning) :
    (fragmentationRun thresholds ops).1.issued kind = true ↔
      IssuedSince (thresholds.limit kind) kind (fragmentationRun thresholds ops).2 := by
  induction ops using List.reverseRecOn with
  | nil => cases kind <;> exact iff_of_false Bool.false_ne_true id
  | append_singleton ops op ih =>
      rw [fragmentationRun_concat]
      cases op with
      | alloc frag => exact checkFragmentation_issued.1.trans (or_congr_right ih)
      | free frag => exact resetFragmentation_issued.trans (and_congr_right fun _ => ih)

/-- An allocation that prints nothing finds little fragmentation, or a warning that is issued. -/
theorem checkFragmentation_none (hnone : (checkFragmentation thresholds flags frag).1 = none) :
    frag < thresholds.warning ∨ flags.issued .warning = true := by
  rw [checkFragmentation] at hnone
  split_ifs at hnone with hcritical hwarning
  by_contra hnot
  rw [not_or, not_lt, Bool.not_eq_true] at hnot
  exact hwarning hnot

/-- What an allocation printed, and the events before it. -/
theorem printed_of_run (ops : List (FragmentationOp Ratio)) {later earlier : List (FragmentationEvent Ratio)}
    {printed : Option FragmentationWarning}
    (hevents : (fragmentationRun thresholds ops).2 = later ++ .alloc frag printed :: earlier) :
    (∀ kind, printed = some kind → thresholds.limit kind ≤ frag ∧ ¬ IssuedSince (thresholds.limit kind) kind earlier) ∧
      (printed = none → frag < thresholds.warning ∨ IssuedSince thresholds.warning .warning earlier) := by
  induction ops using List.reverseRecOn generalizing later with
  | nil => exact absurd hevents.symm (by simp [fragmentationRun])
  | append_singleton ops op ih =>
      have hissued : ∀ kind, (fragmentationRun thresholds ops).1.issued kind = true ↔
          IssuedSince (thresholds.limit kind) kind (fragmentationRun thresholds ops).2 := issued_iff ops
      rw [fragmentationRun_concat] at hevents
      cases later with
      | nil =>
          cases op with
          | alloc frag =>
              obtain ⟨hevent, rfl⟩ := List.cons.inj hevents
              obtain ⟨rfl, rfl⟩ := FragmentationEvent.alloc.inj hevent
              refine ⟨fun kind hkind => ?_, fun hnone => ?_⟩
              · obtain ⟨hlimit, hnot⟩ := checkFragmentation_issued.2 hkind
                refine ⟨hlimit, fun hsince => ?_⟩
                rw [(hissued kind).mpr hsince] at hnot
                exact nomatch hnot
              · exact (checkFragmentation_none hnone).imp_right (hissued .warning).mp
          | free frag => exact nomatch (List.cons.inj hevents).1
      | cons event later =>
          have htail : (fragmentationRun thresholds ops).2 = later ++ .alloc frag printed :: earlier := by
            cases op <;> exact (List.cons.inj hevents).2
          exact ih htail

omit thresholds in
/-- A warning stays issued as long as no deallocation finds less than the limit. -/
theorem IssuedSince.append {limit : Ratio} {events : List (FragmentationEvent Ratio)} (h : IssuedSince limit kind events)
    (later : List (FragmentationEvent Ratio)) (hlater : ∀ frag, .free frag ∈ later → limit ≤ frag) :
    IssuedSince limit kind (later ++ events) := by
  induction later with
  | nil => exact h
  | cons event later ih =>
      have htail := ih fun frag hmem => hlater frag (List.mem_cons_of_mem _ hmem)
      cases event with
      | alloc frag printed => exact .inr htail
      | free frag => exact ⟨hlater frag (List.mem_cons_self ..), htail⟩

/-- In every run, a warning is printed only when an allocation finds the fragmentation at its threshold or above, and
not again before a deallocation has found it below; and an allocation that finds it at 25 % or above prints a warning
unless that of 25 % has been printed and not taken back. -/
theorem warnings_of_run (thresholds : FragmentationThresholds Ratio) (ops : List (FragmentationOp Ratio))
    {later earlier : List (FragmentationEvent Ratio)} {frag : Ratio} {printed : Option FragmentationWarning}
    (hevents : (fragmentationRun thresholds ops).2 = later ++ .alloc frag printed :: earlier) :
    (∀ kind, printed = some kind → thresholds.limit kind ≤ frag ∧
        ∀ between before frag', earlier = between ++ .alloc frag' (some kind) :: before →
          ∃ frag'', .free frag'' ∈ between ∧ frag'' < thresholds.limit kind) ∧
      (printed = none → thresholds.warning ≤ frag → IssuedSince thresholds.warning .warning earlier) := by
  obtain ⟨hprinted, hnone⟩ := printed_of_run ops hevents
  refine ⟨fun kind hkind => ⟨(hprinted kind hkind).1, fun between before frag' hearlier => ?_⟩,
    fun hprinted hle => (hnone hprinted).resolve_left (not_lt.mpr hle)⟩
  by_contra hnot
  refine (hprinted kind hkind).2 ?_
  have hissued : IssuedSince (thresholds.limit kind) kind (.alloc frag' (some kind) :: before) := Or.inl rfl
  rw [hearlier]
  exact hissued.append between fun frag'' hmem => not_lt.mp fun hlt => hnot ⟨frag'', hmem, hlt⟩

/-- Both warnings are printed, the second one is taken back, and printed again. -/
theorem warnings_of_run_recovered :
    ∃ frag, FragmentationEvent.free frag ∈ [.free (3 / 10 : ℚ), .alloc (1 / 2) (some .warning)] ∧
      frag < fragmentationThresholds.critical := by
  have hevents : (fragmentationRun fragmentationThresholds
      [.alloc (1 / 2), .alloc (1 / 2), .free (3 / 10), .alloc (3 / 5)]).2 =
      [] ++ .alloc (3 / 5) (some .critical) ::
        [.free (3 / 10), .alloc (1 / 2) (some .warning), .alloc (1 / 2) (some .critical)] := by
    decide +kernel
  exact ((warnings_of_run fragmentationThresholds _ hevents).1 .critical rfl).2 _ [] (1 / 2) rfl

end

end LgxRuntime.PersistentHeap
