import LgxRuntime.FrameArena.FrameRun
import LgxRuntime.Lib.BubbleSort
import LgxRuntime.Lib.CString
import Mathlib.Data.List.Nodup

/-!
# Allocation tags

Each arena counts its tagged allocations by tag, in a table of at most 64 entries.  Two reports sort a copy of
the table by bytes: `lgx_frame_arena_dump` writes the entries of the copy one after the other, and
`lgx_frame_arena_dump_stats`, whose loop over the entries is inside a loop over the arenas, writes the entry with
the number of the arena each time.  The copy is not initialized behind the entries of the table.

The strings of the tags do not change while they are in a table.
-/

namespace LgxRuntime.FrameArena

open Function (update)
open scoped List

/-- `MAX_ALLOCATION_TAGS`. -/
def maxAllocationTags : ℕ := 64

/-- `allocation_tag_t`. -/
structure AllocationTag where
  tag : CString
  totalBytes : ℕ
  count : ℕ
  peakBytes : ℕ
  deriving DecidableEq

theorem zero_notMem_untagged : (0 : UInt8) ∉ [117, 110, 116, 97, 103, 103, 101, 100] := by decide

/-- `"untagged"`. -/
def untagged : CString :=
  ⟨[117, 110, 116, 97, 103, 103, 101, 100], zero_notMem_untagged⟩

/-! ## Tables -/

/-- An allocation under a tag that is in the table. -/
def AllocationTag.add (e : AllocationTag) (size : ℕ) : AllocationTag :=
  let totalBytes := wrap64 (e.totalBytes + size)
  { e with
    totalBytes := totalBytes
    count := wrap64 (e.count + 1)
    peakBytes := if totalBytes > e.peakBytes then totalBytes else e.peakBytes }

/-- What `lgx_frame_reset` does to an entry. -/
def AllocationTag.clear (e : AllocationTag) : AllocationTag :=
  { e with totalBytes := 0, count := 0 }

/-- `track_allocation_tag`. -/
def trackAllocationTag (tags : List AllocationTag) (size : ℕ) (tag : Option CString) : List AllocationTag :=
  let tag := tag.getD untagged
  match tags.findIdx? fun e => e.tag = tag with
  | some i => tags.modify i fun e => e.add size
  | none => if tags.length < maxAllocationTags then tags ++ [⟨tag, size, 1, size⟩] else tags

/-- The table of an arena: every tag has one entry. -/
structure TagTable (tags : List AllocationTag) : Prop where
  nodup : (tags.map AllocationTag.tag).Nodup
  length_le : tags.length ≤ maxAllocationTags

namespace TagTable

variable {tags : List AllocationTag}

theorem nil : TagTable [] :=
  ⟨List.nodup_nil, Nat.zero_le _⟩

/-- The tags stay as they are. -/
theorem of_map_tag {tags' : List AllocationTag} (h : TagTable tags)
    (htags : tags'.map AllocationTag.tag = tags.map AllocationTag.tag) : TagTable tags' := by
  have hlength : tags'.length = tags.length := by
    simpa using congrArg List.length htags
  refine ⟨?_, hlength ▸ h.length_le⟩
  rw [htags]
  exact h.nodup

theorem map_clear (h : TagTable tags) : TagTable (tags.map AllocationTag.clear) := by
  apply h.of_map_tag
  rw [List.map_map]
  rfl

theorem map_tag_modify (tags : List AllocationTag) (i size : ℕ) :
    (tags.modify i fun e => e.add size).map AllocationTag.tag = tags.map AllocationTag.tag := by
  apply List.ext_getElem?
  intro j
  rw [List.getElem?_map, List.getElem?_map, List.getElem?_modify]
  cases tags[j]? with
  | none => rfl
  | some e => by_cases hij : i = j <;> simp [hij, AllocationTag.add]

theorem track (h : TagTable tags) (size : ℕ) (tag : Option CString) :
    TagTable (trackAllocationTag tags size tag) := by
  cases hfound : tags.findIdx? fun e => e.tag = tag.getD untagged with
  | some i =>
      apply h.of_map_tag
      simp only [trackAllocationTag, hfound]
      exact map_tag_modify tags i size
  | none =>
      simp only [trackAllocationTag, hfound]
      split
      · rename_i hroom
        have hnew : tag.getD untagged ∉ tags.map AllocationTag.tag := by
          intro hmem
          obtain ⟨e, he, htag⟩ := List.mem_map.mp hmem
          exact of_decide_eq_false (List.findIdx?_eq_none_iff.mp hfound e he) htag
        refine ⟨?_, ?_⟩
        · rw [List.map_append, List.map_singleton]
          refine List.nodup_append.mpr ⟨h.nodup, List.nodup_singleton _, ?_⟩
          intro name hname other hother heq
          rw [heq, List.mem_singleton.mp hother] at hname
          exact hnew hname
        · rw [List.length_append, List.length_singleton]
          exact hroom
      · exact h

end TagTable

/-! ## Runs -/

/-- The arenas with their tables. -/
structure TaggedFrames where
  frames : FrameState
  tags : ℕ → List AllocationTag

/-- Whether `lgx_frame_alloc_internal` returns a pointer; `heapOk` says whether `lgx_heap_alloc` does. -/
def FrameResult.allocated (heapOk : Bool) : FrameResult → Bool
  | .served ptr => ptr ≠ 0
  | .overflow _ => heapOk

namespace TaggedFrames

/-- `lgx_frame_alloc_internal`. -/
def alloc (s : TaggedFrames) (size : ℕ) (mapping : Option ℕ) (nodeOk : Bool) : TaggedFrames :=
  { s with frames := (lgxFrameAllocInternal s.frames mapping nodeOk size).2 }

/-- `lgx_frame_alloc_tagged_internal`. -/
def allocTagged (s : TaggedFrames) (size : ℕ) (tag : Option CString) (mapping : Option ℕ)
    (nodeOk heapOk : Bool) : TaggedFrames :=
  let result := lgxFrameAllocInternal s.frames mapping nodeOk size
  let i := result.2.current
  { frames := result.2
    tags := if result.1.allocated heapOk then update s.tags i (trackAllocationTag (s.tags i) size tag)
      else s.tags }

/-- `lgx_frame_reset`. -/
def reset (s : TaggedFrames) : TaggedFrames :=
  let i := s.frames.cleared
  { frames := lgxFrameReset s.frames
    tags := update s.tags i ((s.tags i).map AllocationTag.clear) }

end TaggedFrames

/-- A call. -/
inductive TagAction
  | alloc (size : ℕ) (mapping : Option ℕ) (nodeOk : Bool)
  | allocTagged (size : ℕ) (tag : Option CString) (mapping : Option ℕ) (nodeOk heapOk : Bool)
  | reset

/-- One call. -/
def TaggedFrames.step (s : TaggedFrames) : TagAction → Option TaggedFrames
  | .alloc size mapping nodeOk => some (s.alloc size mapping nodeOk)
  | .allocTagged size tag mapping nodeOk heapOk => some (s.allocTagged size tag mapping nodeOk heapOk)
  | .reset => some s.reset

/-- The states of all runs, which `lgx_frame_arena_init` starts with empty tables. -/
def TagReachable : TaggedFrames → Prop :=
  Interleaving.Reachable
    (fun s => ∃ size limit mappings, lgxFrameArenaInit size limit mappings = some s.frames ∧
      s.tags = fun _ => [])
    TaggedFrames.step fun _ _ => True

theorem TagReachable.allocTagged {s : TaggedFrames} (h : TagReachable s) (size : ℕ) (tag : Option CString)
    (mapping : Option ℕ) (nodeOk heapOk : Bool) :
    TagReachable (s.allocTagged size tag mapping nodeOk heapOk) :=
  Interleaving.Reachable.step (.allocTagged size tag mapping nodeOk heapOk) h trivial rfl

theorem TagReachable.table {s : TaggedFrames} (h : TagReachable s) (i : ℕ) : TagTable (s.tags i) := by
  have hupdate : ∀ {tags : ℕ → List AllocationTag} {j : ℕ} {table : List AllocationTag},
      (∀ i, TagTable (tags i)) → TagTable table → ∀ i, TagTable (update tags j table i) :=
    fun htags htable => Interleaving.forall_update (P := fun _ => TagTable) (Q := fun _ => TagTable)
      htags (fun _ _ h => h) htable
  apply Interleaving.Reachable.invariant (I := fun s => ∀ i, TagTable (s.tags i)) h _ _ i
  · rintro s ⟨size, limit, mappings, -, htags⟩ i
    rw [htags]
    exact .nil
  · intro s s' a htables _ hstep
    cases a with
    | alloc size mapping nodeOk =>
        obtain rfl := Option.some.inj hstep
        exact htables
    | allocTagged size tag mapping nodeOk heapOk =>
        obtain rfl := Option.some.inj hstep
        simp only [TaggedFrames.allocTagged]
        split
        · exact hupdate htables ((htables _).track size tag)
        · exact htables
    | reset =>
        obtain rfl := Option.some.inj hstep
        exact hupdate htables (htables _).map_clear

/-! ## Reports -/

/-- A line that `lgx_frame_arena_dump_stats` prints.  `none` is read behind the initialized entries. -/
structure TagLine where
  number : ℕ
  entry : Option AllocationTag
  deriving DecidableEq

/-- `sorted_tags`, as far as it is initialized. -/
def sortedTags (tags : List AllocationTag) : List AllocationTag :=
  BubbleSort.sort AllocationTag.totalBytes tags

/-- The lines of `lgx_frame_arena_dump_stats` about the tags of arena `i`. -/
def dumpStatsTags (i : ℕ) (tags : List AllocationTag) : List TagLine :=
  if tags.length > 0 then
    (List.range tags.length).map fun si => ⟨si + 1, (sortedTags tags)[i]?⟩
  else []

/-- The entries that `lgx_frame_arena_dump` writes about the tags of an arena. -/
def dumpTags (tags : List AllocationTag) : List (Option AllocationTag) :=
  if tags.length > 0 then
    (List.range tags.length).map fun j => (sortedTags tags)[j]?
  else []

/-- A report lists the entries of a table, each once and with its own numbers, and the larger ones first. -/
structure ListsTags (tags : List AllocationTag) (entries : List (Option AllocationTag)) : Prop where
  initialized : ∀ entry ∈ entries, entry.isSome
  once : entries ~ tags.map some
  ordered : (entries.filterMap id).Pairwise fun e e' => e'.totalBytes ≤ e.totalBytes

variable {tags : List AllocationTag} {i : ℕ}

theorem length_sortedTags (tags : List AllocationTag) : (sortedTags tags).length = tags.length :=
  (BubbleSort.sort_perm _ tags).length_eq

/-- The sorted copy is what a report should list. -/
theorem ListsTags.sorted (tags : List AllocationTag) : ListsTags tags ((sortedTags tags).map some) := by
  refine ⟨?_, (BubbleSort.sort_perm _ tags).map some, ?_⟩
  · intro entry hentry
    obtain ⟨e, -, rfl⟩ := List.mem_map.mp hentry
    rfl
  · rw [List.filterMap_map, Function.id_comp, List.filterMap_some]
    exact BubbleSort.sort_pairwise _ tags

theorem dumpTags_eq (tags : List AllocationTag) : dumpTags tags = (sortedTags tags).map some := by
  unfold dumpTags
  split
  · rw [← length_sortedTags]
    apply List.ext_getElem?
    intro j
    by_cases hj : j < (sortedTags tags).length
    · simp [hj]
    · simp [hj]
  · rename_i hempty
    have hnil : sortedTags tags = [] := by
      rw [← List.length_eq_zero_iff, length_sortedTags]
      omega
    rw [hnil]
    rfl

/-- `lgx_frame_arena_dump` lists the tags. -/
theorem dumpTags_lists (tags : List AllocationTag) : ListsTags tags (dumpTags tags) := by
  rw [dumpTags_eq]
  exact .sorted tags

/-- All lines of an arena are about the same entry. -/
theorem dumpStatsTags_entries (i : ℕ) (tags : List AllocationTag) :
    (dumpStatsTags i tags).map TagLine.entry = List.replicate tags.length (sortedTags tags)[i]? := by
  unfold dumpStatsTags
  split
  · rw [List.map_map]
    have hconst := List.map_const' (l := List.range tags.length) (b := (sortedTags tags)[i]?)
    rwa [List.length_range] at hconst
  · rename_i hempty
    have hzero : tags.length = 0 := by omega
    rw [hzero]
    rfl

/-- `lgx_frame_arena_dump_stats` lists no tags but a single one of the first arena. -/
theorem dumpStatsTags_lists_iff (h : TagTable tags) :
    ListsTags tags ((dumpStatsTags i tags).map TagLine.entry) ↔ tags = [] ∨ i = 0 ∧ tags.length = 1 := by
  rw [dumpStatsTags_entries]
  constructor
  · intro hlists
    by_cases hnil : tags = []
    · exact Or.inl hnil
    have hpos : 0 < tags.length := List.length_pos_of_ne_nil hnil
    -- the entry that all lines are about is initialized
    have hsome := hlists.initialized _ (List.mem_replicate.mpr ⟨hpos.ne', rfl⟩)
    obtain ⟨e, he⟩ := Option.isSome_iff_exists.mp hsome
    have hi : i < tags.length := by
      rw [← length_sortedTags]
      exact (List.getElem?_eq_some_iff.mp he).1
    -- and the only one of the table
    have honce := hlists.once
    rw [he, List.replicate_perm, ← List.map_replicate] at honce
    have htags : List.replicate tags.length e = tags :=
      List.map_injective_iff.mpr (Option.some_injective _) honce
    have hnodup := h.nodup
    rw [← htags, List.map_replicate, List.nodup_replicate] at hnodup
    have hone : tags.length = 1 := by omega
    exact Or.inr ⟨by omega, hone⟩
  · rintro (rfl | ⟨rfl, hone⟩)
    · exact .sorted []
    · obtain ⟨e, rfl⟩ := List.length_eq_one_iff.mp hone
      exact .sorted [e]

/-- `lgx_frame_arena_dump_stats` lists the tags of every arena. -/
def TagsListed (s : TaggedFrames) : Prop :=
  ∀ i < frameArenaCount, ListsTags (s.tags i) ((dumpStatsTags i (s.tags i)).map TagLine.entry)

/-- All tags are listed exactly if there is no tag but a single one of the first arena. -/
theorem tagsListed_iff {s : TaggedFrames} (h : TagReachable s) :
    TagsListed s ↔ ∀ i < frameArenaCount, s.tags i = [] ∨ i = 0 ∧ (s.tags i).length = 1 := by
  constructor
  · intro hlists i hi
    exact (dumpStatsTags_lists_iff (h.table i)).mp (hlists i hi)
  · intro htags i hi
    exact (dumpStatsTags_lists_iff (h.table i)).mpr (htags i hi)

/-! ## Two tags -/

theorem TagReachable.start_threeArenas : TagReachable ⟨threeArenas, fun _ => []⟩ :=
  .init ⟨0, 0, _, threeArenas_initial.frames, rfl⟩

/-- 100 bytes under the tag `a`. -/
def taggedOnce : TaggedFrames :=
  TaggedFrames.allocTagged ⟨threeArenas, fun _ => []⟩ 100 (some (CString.replicate 1 97 CString.beq_zero_a))
    none true true

theorem TagReachable.taggedOnce : TagReachable taggedOnce :=
  start_threeArenas.allocTagged ..

/-- A single tag of the first arena. -/
theorem tagsListed_taggedOnce : (taggedOnce.tags 0).length = 1 ∧ TagsListed taggedOnce := by
  refine ⟨by decide, (tagsListed_iff .taggedOnce).mpr ?_⟩
  decide

/-- After 200 bytes under the tag `b`, both lines are about `b`. -/
theorem not_tagsListed : ¬ ∀ s, TagReachable s → TagsListed s := by
  intro hall
  have htwice := TagReachable.taggedOnce.allocTagged 200
    (some (CString.replicate 1 98 CString.beq_zero_b)) none true true
  have hlists := (dumpStatsTags_lists_iff (htwice.table 0)).mp (hall _ htwice 0 (by decide))
  revert hlists
  decide

end LgxRuntime.FrameArena
