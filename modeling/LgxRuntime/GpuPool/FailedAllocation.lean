import LgxRuntime.GpuPool.BlockSizes
import LgxRuntime.GpuPool.SlotRecycling
import Mathlib.Combinatorics.Colex

/-!
# What a failed allocation costs

When the table is full and cannot grow, the loop of `buddy_find_free_block` gives up in the middle: the block
that it has begun to split stays split, and the slots for its parts are used up.  `costsNothing_iff` says
when no request is worse off afterwards.

Whether a request succeeds only depends on which lists are empty and on the number of splits that the table
has room for (`Valid.serves_iff`).
-/

namespace LgxRuntime.GpuPool

open Function (update)
open Allocator

/-! ## What a chain of splits does -/

namespace SplitChain

variable {m n n' i : ℕ} {a a' : Allocator} {v v' : View} {realloc : ℕ → Option Moved}

theorem le (h : SplitChain m realloc i a v n a' v' n') : n' ≤ n := by
  induction h with
  | refl => exact le_rfl
  | step _ _ _ _ ih => exact ih.trans (Nat.le_succ _)

/-- The lists after the splits: the block itself, an upper half for each level, and the other blocks. -/
theorem mem_free_iff (h : SplitChain m realloc i a v n a' v' n') (hvalid : Valid m a v)
    (hmem : i ∈ v.free n) : ∃ upper : ℕ → ℕ, (∀ l, n' ≤ l → l < n → upper l ≠ i) ∧
      ∀ l x, x ∈ v'.free l ↔
        l = n' ∧ x = i ∨ (n' ≤ l ∧ l < n) ∧ x = upper l ∨ x ≠ i ∧ x ∈ v.free l := by
  induction h with
  | refl a v n =>
      refine ⟨id, fun l hle hlt => by omega, fun l x => ?_⟩
      by_cases hx : x = i
      · subst hx
        have honly : x ∈ v.free l ↔ l = n :=
          ⟨fun hl => hvalid.rep.family.disjoint l n x hl hmem, fun hl => hl ▸ hmem⟩
        simp [honly]
      · simp [hx]
  | @step a a₁ a' v v₁ v' k n' j hsplit _ hvalid₁ htail ih =>
      obtain ⟨upper, hne, hiff⟩ := ih hvalid₁ (hsplit.mem_free hvalid hvalid₁)
      have hle := htail.le
      have hji : j ≠ i := by
        rintro rfl
        exact hsplit.fresh (hvalid.rep.free_mem _ j hmem).1
      refine ⟨update upper k j, fun l hl hlt => ?_, fun l x => ?_⟩
      · by_cases hlk : l = k
        · rw [hlk, Function.update_self]
          exact hji
        · rw [Function.update_of_ne hlk]
          exact hne l hl (by omega)
      · rw [hiff, hsplit.mem_free_iff hvalid hvalid₁]
        by_cases hlk : l = k
        · subst hlk
          rw [Function.update_self]
          by_cases hxi : x = i
          · simp [hxi, hji.symm]
          · simp [hxi, hle]
        · rw [Function.update_of_ne hlk]
          have hlt : l < k + 1 ↔ l < k := by omega
          by_cases hxi : x = i
          · simp [hlk, hlt, hxi]
          · simp [hlk, hlt, hxi]

/-- Each split uses up room for one, unless the table grows. -/
theorem spare_eq (h : SplitChain m realloc i a v n a' v' n') (hvalid : Valid m a v) :
    spare a v = spare a' v' + (n - n') ∧ a'.maxBlocks = a.maxBlocks ∨
      (∃ k, (realloc k).isSome) ∧ a.maxBlocks ≤ spare a' v' + (n - n') := by
  induction h with
  | refl => exact Or.inl ⟨by omega, rfl⟩
  | @step a a₁ a' v v₁ v' k n' j hsplit hroom hvalid₁ htail ih =>
      have hle := htail.le
      have hmax := hsplit.maxBlocks
      have hcapacity := hvalid.rep.capacity
      have hslot : spare a v = 0 ∧ spare a₁ v₁ + 1 = a.maxBlocks ∧ a₁.maxBlocks = a.maxBlocks * 2 ∨
          spare a v = spare a₁ v₁ + 1 ∧ a₁.maxBlocks = a.maxBlocks := by
        unfold spare at hmax ⊢
        rcases hsplit.slot with ⟨hdead, hnum⟩ | ⟨hdead, hdead', hnum⟩
        · rw [hdead, List.length_cons] at hmax ⊢
          rw [if_neg (by omega)] at hmax
          omega
        · rw [hdead, List.length_nil] at hmax ⊢
          rw [hdead', List.length_nil]
          split at hmax
          · omega
          · omega
      rcases hslot with ⟨hzero, hspare₁, hmax₁⟩ | ⟨hspare₁, hmax₁⟩
      · have hgrows : ∃ k, (realloc k).isSome := ⟨k + 1, hroom.resolve_left (by omega)⟩
        rcases ih hvalid₁ with ⟨heq, -⟩ | ⟨-, hge⟩
        · exact Or.inr ⟨hgrows, by omega⟩
        · exact Or.inr ⟨hgrows, by omega⟩
      · rcases ih hvalid₁ with ⟨heq, hmax'⟩ | ⟨hgrows, hge⟩
        · exact Or.inl ⟨by omega, hmax'.trans hmax₁⟩
        · exact Or.inr ⟨hgrows, by omega⟩

theorem maxBlocks_le (h : SplitChain m realloc i a v n a' v' n') : a.maxBlocks ≤ a'.maxBlocks := by
  induction h with
  | refl => exact le_rfl
  | step hsplit _ _ _ ih =>
      have hmax := hsplit.maxBlocks
      split at hmax <;> omega

end SplitChain

/-! ## The requests that succeed -/

/-- The lowest level from `l` on with a block on its list. -/
def FirstLevel (a : Allocator) (l n : ℕ) : Prop :=
  l ≤ n ∧ a.freeLists n ≠ none ∧ ∀ j, l ≤ j → j < n → a.freeLists j = none

/-- The request succeeds when every attempt to grow the table ends like `growth`. -/
def Serves (a : Allocator) (growth : Option Moved) (size alignment : ℕ) : Prop :=
  ∃ block a', buddyAlloc a (fun _ => growth) size alignment = some (some block, a')

/-- Every request that would have succeeded still does. -/
def CostsNothing (a a' : Allocator) : Prop :=
  ∀ growth size alignment, Serves a growth size alignment → Serves a' growth size alignment

theorem FirstLevel.unique {a : Allocator} {l n n' : ℕ} (h : FirstLevel a l n) (h' : FirstLevel a l n') :
    n = n' := by
  obtain ⟨hle, hne, hbelow⟩ := h
  obtain ⟨hle', hne', hbelow'⟩ := h'
  by_contra hdiff
  rcases Nat.lt_or_gt_of_ne hdiff with hlt | hlt
  · exact hne (hbelow' n hle hlt)
  · exact hne' (hbelow n' hle' hlt)

theorem exists_firstLevel {a : Allocator} {l n : ℕ} (hle : l ≤ n) (hne : a.freeLists n ≠ none) :
    ∃ n', FirstLevel a l n' ∧ n' ≤ n := by
  classical
  have hex : ∃ k, l ≤ k ∧ a.freeLists k ≠ none := ⟨n, hle, hne⟩
  refine ⟨Nat.find hex, ⟨(Nat.find_spec hex).1, (Nat.find_spec hex).2, fun j hj hlt => ?_⟩,
    Nat.find_min' hex ⟨hle, hne⟩⟩
  by_contra hsome
  exact Nat.find_min hex hlt ⟨hj, hsome⟩

namespace Valid

variable {m : ℕ} {a a' : Allocator} {v v' : View} {l n i : ℕ}

theorem firstLevel_of_mem (h : Valid m a v) (hle : l ≤ n) (hbelow : ∀ j, l ≤ j → j < n → v.free j = [])
    (hmem : i ∈ v.free n) : FirstLevel a l n := by
  refine ⟨hle, fun hnone => ?_, fun j hj hlt => h.free_eq_nil_iff.mp (hbelow j hj hlt)⟩
  rw [h.free_eq_nil_iff.mpr hnone] at hmem
  cases hmem

/-- A request succeeds when there is a block that is large enough, and the table has room for the splits or
can grow. -/
theorem serves_iff (h : Valid m a v) {growth : Option Moved} {size alignment : ℕ} :
    Serves a growth size alignment ↔ (size ≤ maxBlockSize ∧ alignment ≤ maxBlockSize) ∧
      ∃ n, FirstLevel a (requestLevel size alignment) n ∧
        (growth.isSome ∨ n - requestLevel size alignment ≤ spare a v) := by
  obtain ⟨result, a', v', heq, hvalid', hsteps⟩ := h.buddyAlloc_steps (fun _ => growth) size alignment
  have hserves : Serves a growth size alignment ↔ result.isSome := by
    constructor
    · rintro ⟨block, a₁, hsome⟩
      obtain ⟨rfl, -⟩ := Prod.mk.inj (Option.some.inj (heq.symm.trans hsome))
      rfl
    · intro hsome
      obtain ⟨block, rfl⟩ := Option.isSome_iff_exists.mp hsome
      exact ⟨block, a', heq⟩
  rw [hserves]
  cases hsteps with
  | refused hlarge =>
      simp only [Option.isSome_none, Bool.false_eq_true, false_iff, not_and]
      omega
  | failed hsize halignment hfound =>
      simp only [Option.isSome_none, Bool.false_eq_true, false_iff, not_and, hsize, halignment]
      rintro - ⟨n, hfirst, hroom⟩
      cases hfound with
      | @stuck l k i _ _ hle hlt hbelow hmem hchain hspare hrealloc =>
          obtain rfl := hfirst.unique (h.firstLevel_of_mem (by omega) hbelow hmem)
          rw [hrealloc] at hroom
          rcases hchain.spare_eq h with ⟨heq, -⟩ | ⟨⟨_, hgrows⟩, -⟩
          · have := hroom.resolve_left (by simp)
            omega
          · rw [hrealloc] at hgrows
            cases hgrows
      | nothing hempty =>
          exact hfirst.2.1 (h.free_eq_nil_iff.mp (hempty n hfirst.1))
  | taken hsize halignment hfound htake =>
      simp only [Option.isSome_some, true_iff]
      refine ⟨⟨hsize, halignment⟩, ?_⟩
      cases hfound with
      | @found l _ _ _ hle hbelow hmem hchain =>
          refine ⟨l, h.firstLevel_of_mem hle hbelow hmem, ?_⟩
          rcases hchain.spare_eq h with ⟨heq, -⟩ | ⟨⟨_, hgrows⟩, -⟩
          · exact Or.inr (by omega)
          · exact Or.inl hgrows

/-- The request for the size of a level. -/
theorem serves_levelToSize_iff (h : Valid m a v) {growth : Option Moved} (hl : l < numBuddyLevels) :
    Serves a growth (levelToSize l) 0 ↔ ∃ n, FirstLevel a l n ∧ (growth.isSome ∨ n - l ≤ spare a v) := by
  rw [h.serves_iff, requestLevel_levelToSize hl]
  exact and_iff_right ⟨levelToSize_le_maxBlockSize hl, Nat.zero_le _⟩

theorem lt_of_firstLevel (h : Valid m a v) (hfirst : FirstLevel a l n) : n < numBuddyLevels := by
  obtain ⟨block, hblock⟩ := Option.ne_none_iff_exists'.mp hfirst.2.1
  exact h.level_lt (h.rep.family.mem_of_head hblock)

/-- The first block on a list has a successor exactly when there is another block. -/
theorem exists_second_iff (h : Valid m a v) (hmem : i ∈ v.free n) :
    (∃ head, a.freeLists n = some head ∧ (a.allBlocks head).next ≠ none) ↔ ∃ x ∈ v.free n, x ≠ i := by
  have hlinked := (h.rep.family.linked n).linked
  have hnodup := h.nodup n
  generalize v.free n = list at hmem hlinked hnodup
  cases list with
  | nil => cases hmem
  | cons head list =>
      cases list with
      | nil =>
          obtain rfl := List.mem_singleton.mp hmem
          have hnext : (a.allBlocks i).next = none := hlinked.2
          simp [hlinked.1, hnext]
      | cons second list =>
          have hnext : (a.allBlocks head).next = some second := hlinked.2.1
          have hne : head ≠ second := by
            rintro rfl
            simp at hnodup
          have hleft : ∃ x, a.freeLists n = some x ∧ (a.allBlocks x).next ≠ none :=
            ⟨head, hlinked.1, by simp [hnext]⟩
          refine iff_of_true hleft ?_
          by_cases hi : head = i
          · exact ⟨second, by simp, fun heq => hne (hi.trans heq.symm)⟩
          · exact ⟨head, by simp, hi⟩

end Valid

/-! ## What a failed request costs -/

theorem SplitChain.eq_of_level_eq {m n i : ℕ} {a a' : Allocator} {v v' : View} {realloc : ℕ → Option Moved}
    (h : SplitChain m realloc i a v n a' v' n) : a' = a := by
  cases h with
  | refl => rfl
  | step _ _ _ htail =>
      have := htail.le
      omega

/-- When a failed request costs nothing: it is too large, there is no block for it, or the table has no room
for any split; or the level that is split has another block, and all levels outside the range between the
request and this level have a block or are out of reach of the room that is used up. -/
def HarmlessFailure (a : Allocator) (room size alignment : ℕ) : Prop :=
  (size > maxBlockSize ∨ alignment > maxBlockSize) ∨
    (∀ n, requestLevel size alignment ≤ n → a.freeLists n = none) ∨ room = 0 ∨
    ∃ n, FirstLevel a (requestLevel size alignment) n ∧
      (∃ head, a.freeLists n = some head ∧ (a.allBlocks head).next ≠ none) ∧
      ∀ l n', l < requestLevel size alignment ∨ n < l → FirstLevel a l n' → l < n' → room < n' - l

/-- The lists after a search that has split a block of level `n` as long as the table had room. -/
structure Stuck (a a' : Allocator) (v : View) (n i room : ℕ) : Prop where
  between : ∀ l, n - room ≤ l → l < n → a'.freeLists l ≠ none
  top : a'.freeLists n ≠ none ↔ ∃ x ∈ v.free n, x ≠ i
  outside : ∀ l, l < n - room ∨ n < l → (a'.freeLists l = none ↔ a.freeLists l = none)

theorem SplitChain.stuck {m n n' i : ℕ} {a a' : Allocator} {v v' : View} {realloc : ℕ → Option Moved}
    (h : SplitChain m realloc i a v n a' v' n') (hvalid : Valid m a v) (hmem : i ∈ v.free n)
    (hlt : n' < n) : Stuck a a' v n i (n - n') := by
  obtain ⟨upper, -, hiff⟩ := h.mem_free_iff hvalid hmem
  have hvalid' := h.valid hvalid
  have hlow : n - (n - n') = n' := by omega
  have hempty : ∀ l, a'.freeLists l = none ↔ ∀ x, x ∉ v'.free l := by
    intro l
    rw [← hvalid'.free_eq_nil_iff, List.eq_nil_iff_forall_not_mem]
  refine ⟨fun l hle hltn hnone => ?_, ?_, fun l hl => ?_⟩
  · rw [hlow] at hle
    exact (hempty l).mp hnone (upper l) ((hiff l _).mpr (Or.inr (Or.inl ⟨⟨hle, hltn⟩, rfl⟩)))
  · rw [Ne, hempty]
    push Not
    refine exists_congr fun x => ?_
    rw [hiff]
    constructor
    · rintro (⟨rfl, -⟩ | ⟨⟨-, hlt'⟩, -⟩ | ⟨hne, hx⟩)
      · omega
      · omega
      · exact ⟨hx, hne⟩
    · exact fun hx => Or.inr (Or.inr ⟨hx.2, hx.1⟩)
  · rw [hlow] at hl
    rw [hempty, ← hvalid.free_eq_nil_iff, List.eq_nil_iff_forall_not_mem]
    refine forall_congr' fun x => not_congr ?_
    rw [hiff]
    constructor
    · rintro (⟨rfl, -⟩ | ⟨⟨hle, hlt'⟩, -⟩ | ⟨-, hx⟩)
      · omega
      · omega
      · exact hx
    · intro hx
      refine Or.inr (Or.inr ⟨?_, hx⟩)
      rintro rfl
      have := hvalid.rep.family.disjoint l n x hx hmem
      omega

section

variable {m n k i size alignment room : ℕ} {a a' : Allocator} {v v' : View}

/-- A failure that is not harmless takes a request of some level away. -/
theorem Stuck.harmless (h : Stuck a a' v n i room) (hvalid : Valid m a v) (hvalid' : Valid m a' v')
    (hmem : i ∈ v.free n) (hfirst : FirstLevel a (requestLevel size alignment) n) (hroom : spare a v = room)
    (hspare : spare a' v' = 0) (hreach : requestLevel size alignment < n - room)
    (hcosts : CostsNothing a a') : HarmlessFailure a (spare a v) size alignment := by
  -- what a request of level `l` got without growing the table is on the list of that level now
  have hnow : ∀ l n', FirstLevel a l n' → n' - l ≤ room → a'.freeLists l ≠ none := by
    intro l n' hfirst' hle
    have hl := hfirst'.1.trans_lt (hvalid.lt_of_firstLevel hfirst')
    obtain ⟨n'', hfirst'', hzero⟩ := (hvalid'.serves_levelToSize_iff hl).mp
      (hcosts none _ _ ((hvalid.serves_levelToSize_iff hl).mpr ⟨n', hfirst', Or.inr (hroom ▸ hle)⟩))
    have hle'' := hzero.resolve_left (by simp)
    obtain rfl : n'' = l := by
      have := hfirst''.1
      omega
    exact hfirst''.2.1
  refine Or.inr (Or.inr (Or.inr ⟨n, hfirst, ?_, fun l n' hl hfirst' hlt => ?_⟩))
  · rw [hvalid.exists_second_iff hmem, ← h.top]
    exact hnow n n ⟨le_rfl, hfirst.2.1, fun j hj hlt => by omega⟩ (by omega)
  · by_contra hle
    refine hnow l n' hfirst' (by omega) ?_
    rw [h.outside l (by omega)]
    exact hfirst'.2.2 l le_rfl hlt

/-- After a harmless failure every request succeeds as before. -/
theorem Stuck.costsNothing (h : Stuck a a' v n i room) (hvalid : Valid m a v) (hvalid' : Valid m a' v')
    (hmem : i ∈ v.free n) (hfirst : FirstLevel a (requestLevel size alignment) n) (hroom : spare a v = room)
    (hreach : requestLevel size alignment < n - room)
    (htwo : ∃ head, a.freeLists n = some head ∧ (a.allBlocks head).next ≠ none)
    (hother : ∀ l n', l < requestLevel size alignment ∨ n < l → FirstLevel a l n' → l < n' → room < n' - l) :
    CostsNothing a a' := by
  rw [hvalid.exists_second_iff hmem, ← h.top] at htwo
  -- a list that was not empty is not empty now
  have hkeeps : ∀ l, a.freeLists l ≠ none → a'.freeLists l ≠ none := by
    intro l hl
    by_cases hln : l = n
    · exact hln ▸ htwo
    · by_cases hrange : n - room ≤ l ∧ l < n
      · exact h.between l hrange.1 hrange.2
      · rwa [Ne, h.outside l (by omega)]
  intro growth size' alignment' hserves
  obtain ⟨hsmall, n', hfirst', hgrowth⟩ := hvalid.serves_iff.mp hserves
  refine hvalid'.serves_iff.mpr ⟨hsmall, ?_⟩
  generalize requestLevel size' alignment' = l at hfirst' hgrowth ⊢
  rcases hgrowth with hgrows | hle
  · obtain ⟨n'', hfirst'', -⟩ := exists_firstLevel hfirst'.1 (hkeeps n' hfirst'.2.1)
    exact ⟨n'', hfirst'', Or.inl hgrows⟩
  · have hnow : a'.freeLists l ≠ none := by
      by_cases hout : l < requestLevel size alignment ∨ n < l
      · have hfar := hother l n' hout hfirst'
        obtain rfl : l = n' := by
          have := hfirst'.1
          omega
        exact hkeeps l hfirst'.2.1
      · -- between the request and the level that was split
        obtain rfl := hfirst'.unique ⟨by omega, hfirst.2.1, fun j hj hlt => hfirst.2.2 j (by omega) hlt⟩
        by_cases hln : l = n'
        · exact hln ▸ htwo
        · exact h.between l (by omega) (by omega)
    exact ⟨l, ⟨le_rfl, hnow, fun j hj hlt => by omega⟩, Or.inr (by omega)⟩

/-- A failed call costs nothing exactly when the failure is harmless. -/
theorem AllocSteps.nothing_lost_iff {realloc : ℕ → Option Moved}
    (h : AllocSteps m realloc size alignment a v none a' v') (hvalid : Valid m a v)
    (hmax : numBuddyLevels ≤ a.maxBlocks) :
    CostsNothing a a' ↔ HarmlessFailure a (spare a v) size alignment := by
  cases h with
  | refused hlarge => exact iff_of_true (fun _ _ _ hserves => hserves) (Or.inl hlarge)
  | failed hsize halignment hfound =>
      cases hfound with
      | nothing hempty =>
          refine iff_of_true (fun _ _ _ hserves => hserves) (Or.inr (Or.inl fun n hn => ?_))
          exact hvalid.free_eq_nil_iff.mp (hempty n hn)
      | @stuck n k i _ _ hle hlt hbelow hmem hchain hspare hrealloc =>
          have hfirst := hvalid.firstLevel_of_mem (by omega) hbelow hmem
          have hn := hvalid.lt_of_firstLevel hfirst
          have hroom : spare a v = n - (k + 1) := by
            rcases hchain.spare_eq hvalid with ⟨heq, -⟩ | ⟨-, hge⟩
            · omega
            · omega
          by_cases hkn : k + 1 = n
          · subst hkn
            obtain rfl := hchain.eq_of_level_eq
            exact iff_of_true (fun _ _ _ hserves => hserves) (Or.inr (Or.inr (Or.inl (by omega))))
          have hstuck := hchain.stuck hvalid hmem (by omega)
          have hvalid' := hchain.valid hvalid
          constructor
          · exact hstuck.harmless hvalid hvalid' hmem hfirst hroom hspare (by omega)
          · rintro (hlarge | hnone | hzero | ⟨n', hfirst', htwo, hother⟩)
            · omega
            · exact absurd (hnone n hfirst.1) hfirst.2.1
            · omega
            · obtain rfl := hfirst.unique hfirst'
              rw [hroom] at hother
              exact hstuck.costsNothing hvalid hvalid' hmem hfirst hroom (by omega) htwo hother

end

/-! ## Runs -/

/-- The capacity of the table never shrinks. -/
theorem AllocSteps.maxBlocks_le {m size alignment : ℕ} {realloc : ℕ → Option Moved} {a a' : Allocator}
    {v v' : View} {result : Option ℕ} (h : AllocSteps m realloc size alignment a v result a' v') :
    a.maxBlocks ≤ a'.maxBlocks := by
  have hfound : ∀ {level result a' v'}, Found m realloc level a v result a' v' → a.maxBlocks ≤ a'.maxBlocks := by
    intro level result a' v' hfound
    cases hfound with
    | found _ _ _ hchain => exact hchain.maxBlocks_le
    | stuck _ _ _ _ hchain => exact hchain.maxBlocks_le
    | nothing => exact le_rfl
  cases h with
  | refused => exact le_rfl
  | failed _ _ hfailed => exact hfound hfailed
  | taken _ _ hsome htake => exact (hfound hsome).trans htake.maxBlocks.ge

theorem FreeSteps.maxBlocks_eq {m i : ℕ} {a a' : Allocator} {v v' : View} (h : FreeSteps m a v i a' v') :
    a'.maxBlocks = a.maxBlocks := by
  cases h with
  | @intro a₁ _ v₁ _ _ _ hput _ hchain =>
      have hmerges : ∀ {a v i a' v' i'}, MergeChain m a v i a' v' i' → a'.maxBlocks = a.maxBlocks := by
        intro a v i a' v' i' hchain
        induction hchain with
        | refl => rfl
        | step hmerge _ _ _ ih => exact ih.trans hmerge.maxBlocks
      exact (hmerges hchain).trans hput.maxBlocks

theorem BuddyReachable.le_maxBlocks {budget : ℕ} {r : BuddyRun} (h : BuddyReachable budget r) :
    1024 ≤ r.allocator.maxBlocks := by
  induction h with
  | init => exact le_rfl
  | step hreach hstep ih =>
      obtain ⟨-, free, dead, S, howned⟩ := hreach.owned
      cases hstep with
      | alloc realloc size alignment result a' hresult =>
          obtain ⟨result', a₁, v', heq, -, hsteps⟩ := howned.valid.buddyAlloc_steps realloc size alignment
          obtain ⟨rfl, rfl⟩ := Prod.mk.inj (Option.some.inj (hresult.symm.trans heq))
          exact ih.trans hsteps.maxBlocks_le
      | free x a' hlive hresult =>
          obtain ⟨a₁, v', heq, -, hsteps⟩ := howned.valid.buddyFree_steps (howned.of_live x hlive).1
          obtain rfl := Option.some.inj (hresult.symm.trans heq)
          exact ih.trans hsteps.maxBlocks_eq.ge

/-- In a reachable state, with `room` for so many splits in the table, a call that fails costs nothing exactly
when the failure is harmless. -/
theorem costsNothing_iff {budget : ℕ} {r : BuddyRun} (h : BuddyReachable budget r) :
    ∃ dead room, Linked (fun i => (r.allocator.allBlocks i).next) r.allocator.deadBlocks dead ∧
      room = r.allocator.maxBlocks - r.allocator.numBlocks + dead.length ∧
      ∀ realloc size alignment a', buddyAlloc r.allocator realloc size alignment = some (none, a') →
        (CostsNothing r.allocator a' ↔ HarmlessFailure r.allocator room size alignment) := by
  obtain ⟨-, free, dead, S, howned⟩ := h.owned
  refine ⟨dead, _, howned.rep.deadLinked, rfl, fun realloc size alignment a' hresult => ?_⟩
  obtain ⟨result, a₁, v', heq, -, hsteps⟩ := howned.valid.buddyAlloc_steps realloc size alignment
  obtain ⟨rfl, rfl⟩ := Prod.mk.inj (Option.some.inj (hresult.symm.trans heq))
  exact hsteps.nothing_lost_iff howned.valid (le_trans (by decide) h.le_maxBlocks)

/-- The second request for the whole budget fails for want of a block, and costs nothing. -/
theorem costsNothing_when_exhausted : ∃ r a', BuddyReachable 256 r ∧
    buddyAlloc r.allocator (fun _ => none) 256 0 = some (none, a') ∧ CostsNothing r.allocator a' := by
  have hrun : ((buddyAlloc (buddyInit 256) (fun _ => none) 256 0).bind fun p =>
      (buddyAlloc p.2 (fun _ => none) 256 0).map fun q =>
        (q.1, (List.range numBuddyLevels).map fun l => (p.2.freeLists l).isSome)) =
      some (none, List.replicate 19 false) := by
    decide +kernel
  obtain ⟨⟨result, a₁⟩, hfirst, hrun⟩ := Option.bind_eq_some_iff.mp hrun
  obtain ⟨⟨result', a₂⟩, hsecond, hrun⟩ := Option.map_eq_some_iff.mp hrun
  obtain ⟨rfl, hlists⟩ := Prod.mk.inj hrun
  have hreach := BuddyReachable.init.step (.alloc _ _ _ _ _ _ hfirst)
  obtain ⟨dead, room, -, -, hiff⟩ := costsNothing_iff hreach
  obtain ⟨-, free, dead', S, howned⟩ := hreach.owned
  refine ⟨_, a₂, hreach, hsecond, (hiff _ _ _ _ hsecond).mpr (Or.inr (Or.inl fun n _ => ?_))⟩
  rw [← howned.valid.free_eq_nil_iff, List.eq_nil_iff_forall_not_mem]
  intro x hx
  -- the lists of all levels are empty
  have hn := howned.valid.level_lt hx
  have hmem : (a₁.freeLists n).isSome ∈ List.replicate 19 false :=
    hlists ▸ List.mem_map.mpr ⟨n, List.mem_range.mpr hn, rfl⟩
  have hnone : a₁.freeLists n = none := by simpa using (List.mem_replicate.mp hmem).2
  have hempty : free n = [] := howned.valid.free_eq_nil_iff.mpr hnone
  have hxfree : x ∈ free n := hx
  rw [hempty] at hxfree
  cases hxfree

/-! ## A run in which a failed request costs a larger one

The budget is 64 MB, and 1016 blocks of 64 KB have been allocated from it, without growing the table.  The
remaining 512 KB are one block, and 1017 of the 1024 slots are in use.  A request for 256 B splits this block
seven times and then fails. -/

/-- A request that is served without growing the table leaves one upper half on each list below the level that
is split. -/
theorem AllocSteps.served {m size alignment i : ℕ} {a a' : Allocator} {v v' : View}
    (h : AllocSteps m (fun _ => none) size alignment a v (some i) a' v') (hvalid : Valid m a v)
    (hvalid' : Valid m a' v') :
    v'.dead <:+ v.dead ∧ a'.maxBlocks = a.maxBlocks ∧ ∃ (upper : ℕ → ℕ) (n : ℕ),
      (∀ j, requestLevel size alignment ≤ j → j < n → v.free j = []) ∧
      ∀ l x, x ∈ v'.free l →
        (requestLevel size alignment ≤ l ∧ l < n) ∧ x = upper l ∨ x ∈ v.free l := by
  cases h with
  | taken _ _ hfound htake =>
      have hvalid₁ := hfound.valid hvalid
      cases hfound with
      | @found n _ _ _ _ hbelow hmem hchain =>
          obtain ⟨upper, -, hiff⟩ := hchain.mem_free_iff hvalid hmem
          refine ⟨htake.dead ▸ hchain.slots.1, ?_, upper, n, hbelow, fun l x hx => ?_⟩
          · rw [htake.maxBlocks]
            rcases hchain.spare_eq hvalid with ⟨-, hmax⟩ | ⟨⟨_, hgrows⟩, -⟩
            · exact hmax
            · cases hgrows
          · obtain ⟨hx₁, hxi⟩ := (htake.mem_free_iff hvalid₁ hvalid').mp hx
            rcases (hiff l x).mp hx₁ with ⟨-, heq⟩ | hupper | ⟨-, hold⟩
            · exact absurd heq hxi
            · exact Or.inl hupper
            · exact Or.inr hold

/-- After `t` allocations of 64 KB: at most one block on each list, and no slot has been appended that does not
hold a block. -/
structure Filled (r : BuddyRun) (v : View) (t : ℕ) : Prop where
  owned : Owned 18 r.allocator r.live v.free v.dead v.blocks
  totalSize : r.allocator.totalSize = levelToSize 18
  dead : v.dead = []
  maxBlocks : r.allocator.maxBlocks = 1024
  count : r.live.length = t
  live_size : ∀ x ∈ r.live, x.size = levelToSize 8
  low : ∀ l < 8, v.free l = []
  single : ∀ l, ∀ x ∈ v.free l, ∀ y ∈ v.free l, x = y

namespace Filled

variable {r : BuddyRun} {v : View} {t : ℕ}

/-- The levels of the free blocks. -/
def levels (a : Allocator) : Finset ℕ :=
  (freeBlocks a).image fun i => (a.allBlocks i).level

theorem mem_levels (h : Filled r v t) {l : ℕ} : l ∈ levels r.allocator ↔ ∃ i, i ∈ v.free l := by
  simp only [levels, freeBlocks, Finset.mem_image, Finset.mem_filter, Finset.mem_range]
  constructor
  · rintro ⟨i, ⟨hlt, hfree⟩, rfl⟩
    exact ⟨i, h.owned.isFree_iff.mpr ⟨hlt, hfree, rfl⟩⟩
  · rintro ⟨i, hi⟩
    obtain ⟨hlt, hfree, hlevel⟩ := h.owned.isFree_iff.mp hi
    exact ⟨i, ⟨hlt, hfree⟩, hlevel⟩

theorem injOn_level (h : Filled r v t) :
    Set.InjOn (fun i => (r.allocator.allBlocks i).level) (freeBlocks r.allocator : Set ℕ) := by
  intro x hx y hy heq
  simp only [freeBlocks, Finset.coe_filter, Finset.mem_range, Set.mem_ofPred_eq] at hx hy
  exact h.single _ x (h.owned.isFree_iff.mpr ⟨hx.1, hx.2, rfl⟩) y
    (h.owned.isFree_iff.mpr ⟨hy.1, hy.2, heq.symm⟩)

/-- The free blocks have what the allocated ones leave of the 64 MB. -/
theorem sum_levels (h : Filled r v t) :
    ∑ l ∈ levels r.allocator, levelToSize l + t * levelToSize 8 = levelToSize 18 := by
  have hsum := h.owned.sum_levelToSize
  have hallocated : ∀ i ∈ (entries r.allocator v.dead).filter
      (fun i => ¬ (r.allocator.allBlocks i).isFree = true),
      levelToSize (r.allocator.allBlocks i).level = levelToSize 8 := by
    intro i hi
    rw [Finset.mem_filter, h.owned.mem_entries, Bool.not_eq_true] at hi
    have hmem := h.owned.of_taken i (h.owned.valid.mem_taken_iff.mpr hi)
    rw [← h.owned.size_eq h.totalSize hi.1]
    exact h.live_size _ hmem
  rw [← Finset.sum_filter_add_sum_filter_not _ fun i => (r.allocator.allBlocks i).isFree = true,
    h.owned.filter_free, Finset.sum_congr rfl hallocated, Finset.sum_const, h.owned.card_allocated, h.count,
    nsmul_eq_mul, Nat.cast_id] at hsum
  rw [levels, Finset.sum_image h.injOn_level]
  exact hsum

theorem card_levels (h : Filled r v t) : (levels r.allocator).card + t = r.allocator.numBlocks := by
  have hnum := h.owned.numBlocks_eq
  rw [h.dead, List.length_nil, Nat.add_zero, blockCount, h.count] at hnum
  rw [levels, Finset.card_image_of_injOn h.injOn_level, hnum]

theorem spare_eq (h : Filled r v t) : spare r.allocator v = 1024 - ((levels r.allocator).card + t) := by
  rw [spare, h.dead, h.maxBlocks, h.card_levels, List.length_nil, Nat.add_zero]

theorem eight_le (h : Filled r v t) {l : ℕ} (hl : l ∈ levels r.allocator) : 8 ≤ l := by
  by_contra hlt
  obtain ⟨i, hi⟩ := h.mem_levels.mp hl
  rw [h.low l (by omega)] at hi
  cases hi

/-- In units of 64 KB. -/
theorem sum_units (h : Filled r v t) : ∑ l ∈ levels r.allocator, 2 ^ (l - 8) + t = 1024 := by
  have hunits : ∀ l ∈ levels r.allocator, levelToSize l = 65536 * 2 ^ (l - 8) := by
    intro l hl
    obtain ⟨d, rfl⟩ := Nat.exists_eq_add_of_le (h.eight_le hl)
    rw [levelToSize_eq, Nat.pow_add, Nat.add_sub_cancel_left, ← Nat.mul_assoc]
  have hsum := h.sum_levels
  rw [Finset.sum_congr rfl hunits, ← Finset.mul_sum, levelToSize_eq, levelToSize_eq] at hsum
  omega

/-- The splits for a block of 64 KB fit into the table. -/
theorem room (h : Filled r v t) {n : ℕ} (hn : n ∈ levels r.allocator) :
    n - 8 ≤ spare r.allocator v := by
  have hunits := h.sum_units
  have hrest : ((levels r.allocator).erase n).card ≤ ∑ l ∈ (levels r.allocator).erase n, 2 ^ (l - 8) := by
    rw [Finset.card_eq_sum_ones]
    exact Finset.sum_le_sum fun l _ => Nat.one_le_two_pow
  have hlarge : n - 8 < 2 ^ (n - 8) := Nat.lt_two_pow_self
  rw [← Finset.add_sum_erase _ _ hn] at hunits
  have hcard := Finset.card_erase_add_one hn
  rw [h.spare_eq]
  omega

theorem freeLists_ne (h : Filled r v t) {l : ℕ} : r.allocator.freeLists l ≠ none ↔ l ∈ levels r.allocator := by
  rw [h.mem_levels, Ne, ← h.owned.valid.free_eq_nil_iff, List.eq_nil_iff_forall_not_mem]
  push Not
  rfl

/-- One more allocation of 64 KB. -/
theorem step (h : Filled r v t) (ht : t < 1024) :
    ∃ r' v', BuddyStep r r' ∧ Filled r' v' (t + 1) := by
  have hlevel : requestLevel (levelToSize 8) 0 = 8 := requestLevel_levelToSize (by decide)
  have hvalid := h.owned.valid
  obtain ⟨n, hfirst⟩ : ∃ n, FirstLevel r.allocator 8 n := by
    have hne : (levels r.allocator).Nonempty := by
      by_contra hempty
      have hunits := h.sum_units
      rw [Finset.not_nonempty_iff_eq_empty.mp hempty, Finset.sum_empty] at hunits
      omega
    obtain ⟨l, hl⟩ := hne
    obtain ⟨n, hfirst, -⟩ := exists_firstLevel (h.eight_le hl) (h.freeLists_ne.mpr hl)
    exact ⟨n, hfirst⟩
  obtain ⟨block, a', hresult⟩ : Serves r.allocator none (levelToSize 8) 0 :=
    (hvalid.serves_levelToSize_iff (by decide)).mpr
      ⟨n, hfirst, Or.inr (h.room (h.freeLists_ne.mp hfirst.2.1))⟩
  have hstep : BuddyStep r ⟨a', grant (some block) a' r.live⟩ := .alloc _ _ _ _ _ _ hresult
  obtain ⟨htotal', free', dead', S', howned'⟩ := hstep.owned h.owned
  obtain ⟨-, v₂, hvalid₂, hblock, hblockLevel, -⟩ := h.owned.exists_of_alloc hresult
  obtain rfl := howned'.valid.unique hvalid₂
  obtain ⟨result, a₁, v₁, heq, hvalid₁, hsteps⟩ := hvalid.buddyAlloc_steps (fun _ => none) (levelToSize 8) 0
  obtain ⟨rfl, rfl⟩ := Prod.mk.inj (Option.some.inj (hresult.symm.trans heq))
  obtain rfl := howned'.valid.unique hvalid₁
  rw [hlevel] at hblockLevel
  have htotal : a'.totalSize = levelToSize 18 := htotal'.trans h.totalSize
  obtain ⟨hdead, hmax, upper, n', hbelow, hlists⟩ := hsteps.served hvalid hvalid₁
  rw [hlevel] at hbelow hlists
  refine ⟨_, ⟨free', dead', S'⟩, hstep, howned', htotal, List.suffix_nil.mp (h.dead ▸ hdead),
    hmax.trans h.maxBlocks, ?_, ?_, fun l hl => ?_, fun l x hx y hy => ?_⟩
  · rw [grant, List.length_cons, h.count]
  · intro x hx
    rcases List.mem_cons.mp hx with rfl | hx
    · show (a'.allBlocks block).size = _
      rw [howned'.size_eq htotal hblock, hblockLevel]
    · exact h.live_size x hx
  · refine List.eq_nil_iff_forall_not_mem.mpr fun x hx => ?_
    rcases hlists l x hx with ⟨⟨hle, -⟩, -⟩ | hold
    · omega
    · rw [h.low l hl] at hold
      cases hold
  · rcases hlists l x hx with ⟨hrange, hxu⟩ | hxold
    · rcases hlists l y hy with ⟨-, hyu⟩ | hyold
      · exact hxu.trans hyu.symm
      · rw [hbelow l hrange.1 hrange.2] at hyold
        cases hyold
    · rcases hlists l y hy with ⟨hrange, -⟩ | hyold
      · rw [hbelow l hrange.1 hrange.2] at hxold
        cases hxold
      · exact h.single l x hxold y hyold

open Function (update_self update_of_ne) in
theorem init : ∃ v, Filled ⟨buddyInit (64 * 1024 * 1024), []⟩ v 0 := by
  have hlevel : sizeToLevel (64 * 1024 * 1024) = 18 := by decide +kernel
  have howned := Owned.init (64 * 1024 * 1024)
  rw [hlevel] at howned
  have hmem : ∀ {l x}, x ∈ update (fun _ => []) 18 [0] l → l = 18 ∧ x = 0 := by
    intro l x hx
    by_cases hl : l = 18
    · subst hl
      exact ⟨rfl, by simpa using hx⟩
    · simp [update_of_ne hl] at hx
  refine ⟨⟨update (fun _ => []) 18 [0], [], {0}⟩, howned, by decide, rfl, rfl, rfl, by simp, fun l hl => ?_,
    fun l x hx y hy => (hmem hx).2.trans (hmem hy).2.symm⟩
  exact List.eq_nil_iff_forall_not_mem.mpr fun x hx => by
    have := (hmem hx).1
    omega

/-- All of the 64 MB can be allocated in blocks of 64 KB. -/
theorem exists_run (t : ℕ) (ht : t ≤ 1024) : ∃ r v, BuddyReachable (64 * 1024 * 1024) r ∧ Filled r v t := by
  induction t with
  | zero =>
      obtain ⟨v, hfilled⟩ := init
      exact ⟨_, v, .init, hfilled⟩
  | succ t ih =>
      obtain ⟨r, v, hreach, hfilled⟩ := ih (by omega)
      obtain ⟨r', v', hstep, hfilled'⟩ := hfilled.step (by omega)
      exact ⟨r', v', hreach.step hstep, hfilled'⟩

/-- The last 512 KB are one block. -/
theorem levels_eq (h : Filled r v 1016) : levels r.allocator = {11} := by
  refine Finset.geomSum_injective (le_refl 2) ?_
  have hsum := h.sum_levels
  simp only [levelToSize_eq, ← Finset.mul_sum] at hsum
  simp only [Finset.sum_singleton]
  omega

end Filled

/-- After 1016 allocations of 64 KB from a budget of 64 MB, a request for 256 B fails if the table cannot grow.
Before this call a request for 512 KB would have succeeded; after it no such request does, even if the table
can grow again. -/
theorem not_costsNothing_fragmented : ∃ r a', BuddyReachable (64 * 1024 * 1024) r ∧ r.live.length = 1016 ∧
    buddyAlloc r.allocator (fun _ => none) 256 0 = some (none, a') ∧
    ∀ growth, Serves r.allocator growth (512 * 1024) 0 ∧ ¬ Serves a' growth (512 * 1024) 0 := by
  obtain ⟨r, v, hreach, h⟩ := Filled.exists_run 1016 (by omega)
  have hvalid : Valid 18 r.allocator v := h.owned.valid
  have hlevels := h.levels_eq
  have hspare : spare r.allocator v = 7 := by rw [h.spare_eq, hlevels, Finset.card_singleton]
  have hlists : ∀ l, r.allocator.freeLists l ≠ none ↔ l = 11 := by
    intro l
    rw [h.freeLists_ne, hlevels, Finset.mem_singleton]
  have hfirst : ∀ l, l ≤ 11 → FirstLevel r.allocator l 11 := by
    refine fun l hl => ⟨hl, (hlists 11).mpr rfl, fun j _ hj => ?_⟩
    by_contra hne
    have := (hlists j).mp hne
    omega
  have hsize : levelToSize 11 = 512 * 1024 := by decide
  obtain ⟨result, a', v', heq, hvalid', hsteps⟩ := hvalid.buddyAlloc_steps (fun _ => none) 256 0
  have hlevel : requestLevel 256 0 = 0 := requestLevel_levelToSize (k := 0) (by decide)
  cases hsteps with
  | refused hlarge => exact absurd hlarge (by decide)
  | taken hsmall halignment hfound htake =>
      obtain ⟨-, n, hn, hroom⟩ := hvalid.serves_iff.mp ⟨_, a', heq⟩
      obtain rfl := hn.unique (hlevel ▸ hfirst 0 (by omega))
      rw [hlevel, hspare] at hroom
      exact absurd (hroom.resolve_left (by simp)) (by omega)
  | failed hsmall halignment hfound =>
      refine ⟨r, a', hreach, h.count, heq, fun growth => ⟨?_, ?_⟩⟩
      · rw [← hsize, hvalid.serves_levelToSize_iff (by decide)]
        exact ⟨11, hfirst 11 le_rfl, Or.inr (by omega)⟩
      · rw [← hsize, hvalid'.serves_levelToSize_iff (by decide)]
        rintro ⟨n, ⟨hle, hne, -⟩, -⟩
        rw [hlevel] at hfound
        cases hfound with
        | nothing hempty => exact (hlists 11).mpr rfl (hvalid.free_eq_nil_iff.mp (hempty 11 (by omega)))
        | @stuck top k i _ _ _ hlt hbelow hmem hchain hroom _ =>
            obtain rfl := (hvalid.firstLevel_of_mem (by omega) hbelow hmem).unique (hfirst 0 (by omega))
            have hused : k + 1 < 11 := by
              rcases hchain.spare_eq hvalid with ⟨hsplits, -⟩ | ⟨⟨_, hgrows⟩, -⟩
              · omega
              · cases hgrows
            have hstuck := hchain.stuck hvalid hmem hused
            rcases Nat.lt_or_eq_of_le hle with hgt | rfl
            · rw [Ne, hstuck.outside n (Or.inr hgt)] at hne
              have := (hlists n).mp hne
              omega
            · obtain ⟨x, hx, hxi⟩ := hstuck.top.mp hne
              exact hxi (h.single 11 x hx i hmem)

end LgxRuntime.GpuPool
