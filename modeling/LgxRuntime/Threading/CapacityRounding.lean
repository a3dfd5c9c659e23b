import LgxRuntime.Threading.ConcurrentMap
import LgxRuntime.Threading.WorkDeque

/-!
# Rounded capacities

Three containers round the capacity that is asked for up to a power of two, so that a mask can take an index
to a cell.  The queue of one producer and the work deque double a `size_t` until it is large enough; the map
fills the bits below the highest one and adds 1.  No power of two of 64 bits is above `2 ^ 63`: beyond, the
doubling goes on with 0, and the map has 0 buckets.
-/

namespace LgxRuntime.Threading

open ConcurrentMap (Entry nextPow2Map)

/-- What is stored for a request, where `calloc` is asked for `capacity` cells: the least power of two that
is large enough, and a mask that takes every index to one of the cells. -/
structure Rounded (request capacity mask : ℕ) : Prop where
  least : IsLeast {c | request ≤ c ∧ ∃ k, c = 2 ^ k} capacity
  mask_eq : mask + 1 = capacity
  index_lt : ∀ i, i &&& mask < capacity

theorem Rounded.of_isLeast {request capacity mask : ℕ}
    (hleast : IsLeast {c | request ≤ c ∧ ∃ k, c = 2 ^ k} capacity) (hmask : mask + 1 = capacity) :
    Rounded request capacity mask := by
  refine ⟨hleast, hmask, fun i => ?_⟩
  rw [← hmask]
  exact Nat.lt_succ_of_le Nat.and_le_right

/-! ## The doubling loop -/

/-- `lgx_spsc_queue_create` returns, and a queue that it makes is rounded. -/
def SpscQueue.Rounds (request : ℕ) : Prop :=
  ∀ n memory, ∃ result, lgxSpscQueueCreate request n memory = some result ∧
    ∀ q, result = .ok q → Rounded request q.capacity q.mask

/-- `lgx_work_deque_init` returns, and the deque is rounded if there is memory. -/
def WorkDeque.Rounds (Job : Type) (request : ℕ) : Prop :=
  ∃ d : Deque Job, lgxWorkDequeInit request = some d ∧ Rounded request d.capacity d.mask

theorem Rounded.of_roundUp {request : ℕ} (hle : request ≤ 2 ^ 63) :
    ∃ cap, Ring.roundUp request = some cap ∧ Rounded request cap (cap - 1) := by
  obtain ⟨m, hm, hleast⟩ := Ring.roundUp_isLeast hle
  exact ⟨2 ^ m, hm, .of_isLeast hleast (Nat.sub_add_cancel Nat.one_le_two_pow)⟩

theorem roundUp_eq_none {request : ℕ} (hlt : 2 ^ 63 < request) : Ring.roundUp request = none :=
  Ring.roundUp_eq_none_iff.mpr (@Ring.roundLoop_eq_none request 0 hlt (Nat.zero_le _))

theorem SpscQueue.rounds_iff {request : ℕ} : SpscQueue.Rounds request ↔ request ≤ 2 ^ 63 := by
  constructor
  · intro h
    by_contra hlt
    obtain ⟨result, hresult, -⟩ := h 1 (true, true)
    rw [lgxSpscQueueCreate, if_neg (by omega), roundUp_eq_none (not_le.mp hlt)] at hresult
    cases hresult
  · intro hle n memory
    obtain ⟨cap, hcap, hrounded⟩ := Rounded.of_roundUp hle
    unfold lgxSpscQueueCreate
    split
    · exact ⟨_, rfl, fun q hq => by cases hq⟩
    · rw [hcap]
      refine ⟨_, rfl, fun q hq => ?_⟩
      split at hq
      · cases hq
        exact hrounded
      · cases hq

theorem WorkDeque.rounds_iff {Job : Type} {request : ℕ} :
    WorkDeque.Rounds Job request ↔ request ≤ 2 ^ 63 := by
  constructor
  · rintro ⟨d, hd, -⟩
    by_contra hlt
    rw [lgxWorkDequeInit, roundUp_eq_none (not_le.mp hlt)] at hd
    cases hd
  · intro hle
    obtain ⟨cap, hcap, hrounded⟩ := Rounded.of_roundUp hle
    refine ⟨{ buffer := fun _ => none, top := 0, bottom := 0, capacity := cap, mask := cap - 1 }, ?_, hrounded⟩
    rw [lgxWorkDequeInit, hcap]
    rfl

/-! ## The bits below the highest one -/

namespace ConcurrentMap

variable {Value : Type}

/-- `lgx_concurrent_map_create`, where `memory` are the two answers of the allocator. -/
def lgxConcurrentMapCreateIn (bucketCount : ℕ) (memory : Bool × Bool) (contents : ℕ → Entry Value) :
    Except ThreadingError (Map Value) :=
  if memory.1 ∧ memory.2 then .ok (lgxConcurrentMapCreate bucketCount contents)
  else .error .outOfMemory

/-- A map that `lgx_concurrent_map_create` makes is rounded, to at least four buckets. -/
def Rounds (contents : ℕ → Entry Value) (request : ℕ) : Prop :=
  ∀ memory m, lgxConcurrentMapCreateIn request memory contents = .ok m →
    Rounded (max request 4) m.bucketCount m.mask

theorem nextPow2Map_isLeast {n : ℕ} (hpos : 1 < n) (hle : n ≤ 2 ^ 63) :
    IsLeast {c | n ≤ c ∧ ∃ k, c = 2 ^ k} (nextPow2Map n) := by
  obtain ⟨k, hk, hfits, hhalf⟩ := nextPow2Map_spec hle
  rw [hk]
  refine ⟨⟨hfits, k, rfl⟩, ?_⟩
  rintro _ ⟨hcap, j, rfl⟩
  have hdouble : 2 ^ k < 2 ^ (j + 1) := by
    calc 2 ^ k < 2 * n := hhalf hpos
      _ ≤ 2 * 2 ^ j := Nat.mul_le_mul_left 2 hcap
      _ = 2 ^ (j + 1) := by rw [pow_succ, Nat.mul_comm]
  have hlt : k < j + 1 := (Nat.pow_lt_pow_iff_right (by decide)).mp hdouble
  exact Nat.pow_le_pow_right (by decide) (by omega)

/-- All 64 bits are filled, and adding 1 leaves nothing. -/
theorem nextPow2Map_eq_zero {n : ℕ} (hgt : 2 ^ 63 < n) (hlt : n < 2 ^ 64) : nextPow2Map n = 0 := by
  have hpos : n - 1 ≠ 0 := by omega
  have hlow : 63 ≤ (n - 1).log2 := (Nat.le_log2 hpos).mpr (by omega)
  have hhigh : (n - 1).log2 < 64 := (Nat.log2_lt hpos).mpr (by omega)
  have hlog : (n - 1).log2 + 1 = 64 := by omega
  rw [nextPow2Map_eq (by omega), smear_eq hpos (by omega), hlog, Nat.sub_add_cancel Nat.one_le_two_pow,
    wrap64, Nat.mod_self]

theorem rounds_iff (contents : ℕ → Entry Value) {request : ℕ} (hlt : request < 2 ^ 64) :
    Rounds contents request ↔ request ≤ 2 ^ 63 := by
  have hrequest : (if request < 4 then 4 else request) = max request 4 := by
    split <;> omega
  have hcount : (lgxConcurrentMapCreate request contents).bucketCount = nextPow2Map (max request 4) := by
    rw [← hrequest]
    rfl
  constructor
  · intro h
    by_contra hgt
    have hleast := (h (true, true) _ rfl).least.1.1
    rw [hcount, nextPow2Map_eq_zero (by omega) (by omega)] at hleast
    omega
  · intro hle memory m hm
    unfold lgxConcurrentMapCreateIn at hm
    split at hm
    · cases hm
      have hbound : max request 4 ≤ 2 ^ 63 := by omega
      obtain ⟨hpos, hfits⟩ := nextPow2Map_bounds hbound
      refine .of_isLeast ?_ ?_
      · rw [hcount]
        exact nextPow2Map_isLeast (by omega) hbound
      · have hmask : (lgxConcurrentMapCreate request contents).mask =
            sub64 (lgxConcurrentMapCreate request contents).bucketCount 1 := rfl
        rw [hmask, hcount]
        exact sub64_one_add_one hpos hfits
    · cases hm

end ConcurrentMap

/-! ## The three containers -/

/-- Each container does for a request what the rounding is there for, if and only if `2 ^ 63` is enough. -/
theorem capacityRounding_iff (Job : Type) {Value : Type} (contents : ℕ → Entry Value) {request : ℕ}
    (hlt : request < 2 ^ 64) :
    (SpscQueue.Rounds request ↔ request ≤ 2 ^ 63) ∧ (WorkDeque.Rounds Job request ↔ request ≤ 2 ^ 63) ∧
      (ConcurrentMap.Rounds contents request ↔ request ≤ 2 ^ 63) :=
  ⟨SpscQueue.rounds_iff, WorkDeque.rounds_iff, ConcurrentMap.rounds_iff contents hlt⟩

/-- A request for 1000 cells. -/
theorem capacityRounding_thousand : SpscQueue.Rounds 1000 ∧ WorkDeque.Rounds ℕ 1000 ∧
    ConcurrentMap.Rounds (fun _ => (⟨0, 0, none⟩ : Entry ℕ)) 1000 := by
  obtain ⟨hspsc, hdeque, hmap⟩ :=
    @capacityRounding_iff ℕ ℕ (fun _ => ⟨0, 0, none⟩) 1000 (by decide)
  exact ⟨hspsc.mpr (by decide), hdeque.mpr (by decide), hmap.mpr (by decide)⟩

/-- A request just above: the doubling never ends, and a map is made with no bucket and a mask of ones. -/
theorem not_capacityRounding : ¬ SpscQueue.Rounds (2 ^ 63 + 1) ∧ ¬ WorkDeque.Rounds ℕ (2 ^ 63 + 1) ∧
    (∀ fuel, Ring.roundLoop (2 ^ 63 + 1) fuel 1 = none) ∧
    ∃ m, ConcurrentMap.lgxConcurrentMapCreateIn (2 ^ 63 + 1) (true, true)
        (fun _ => (⟨0, 0, none⟩ : Entry ℕ)) = .ok m ∧
      m.bucketCount = 0 ∧ m.mask = sizeMax ∧ ¬ Rounded (2 ^ 63 + 1) m.bucketCount m.mask := by
  refine ⟨fun h => ?_, fun h => ?_, @Ring.roundLoop_eq_none _ 0 (by decide) (by decide), _, rfl,
    by decide +kernel, by decide +kernel, fun h => ?_⟩
  · exact absurd (SpscQueue.rounds_iff.mp h) (by decide)
  · exact absurd (WorkDeque.rounds_iff.mp h) (by decide)
  · have hzero : nextPow2Map (2 ^ 63 + 1) = 0 := by decide +kernel
    have hle : 2 ^ 63 + 1 ≤ nextPow2Map (2 ^ 63 + 1) := h.least.1.1
    omega

end LgxRuntime.Threading
