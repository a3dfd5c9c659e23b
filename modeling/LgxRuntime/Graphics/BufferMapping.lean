import LgxRuntime.Graphics.Upload
import LgxRuntime.Lib.Interleaving
import Mathlib.Data.PNat.Basic

/-!
# The mapping of a buffer

A buffer keeps one pointer, `mapped`, to its memory: `lgx_gfx_buffer_map` hands it out and calls `vkMapMemory` only
if there is none, and `lgx_gfx_buffer_unmap` takes it back.  `lgx_gfx_buffer_upload` writes through the same two
functions, so that it ends a mapping that the client has asked for.

The result of `vkMapMemory` is not looked at, only what it has left in `mapped`.  Vulkan does not say what that is
if the call fails.  Where the memory is mapped is told from the calls alone.
-/

namespace LgxRuntime.Graphics.BufferMapping

open LgxRuntime.Runtime (LgxResult)

/-! ## Calls -/

/-- A call to Vulkan about the memory of the buffer, and the address at which it has been mapped. -/
inductive MemoryCall
  | mapMemory (address : Option ℕ)
  | unmapMemory

/-- Where the memory is mapped after some calls, the last of which is at the head. -/
def mapping : List MemoryCall → Option ℕ
  | [] => none
  | .mapMemory (some address) :: _ => some address
  | .mapMemory none :: calls => mapping calls
  | .unmapMemory :: _ => none

/-- Memory is mapped only while it is not, and unmapped only while it is. -/
def InOrder : List MemoryCall → Prop
  | [] => True
  | .mapMemory _ :: calls => mapping calls = none ∧ InOrder calls
  | .unmapMemory :: calls => mapping calls ≠ none ∧ InOrder calls

/-- What `vkMapMemory` does: it maps the memory, or it fails and leaves something in the pointer. -/
inductive MapOutcome
  | success (address : ℕ+)
  | failure (left : ℕ)

/-- A call that fails leaves no pointer. -/
def MapOutcome.Clean : MapOutcome → Prop
  | .success _ => True
  | .failure left => left = 0

/-- The pointer afterwards. -/
def MapOutcome.pointer : MapOutcome → ℕ
  | .success address => address
  | .failure left => left

/-! ## The buffer -/

/-- `lgx_gfx_buffer`, with the calls that have been made for its memory. -/
structure Buffer where
  size : UInt64
  hostVisible : Bool
  mapped : ℕ
  calls : List MemoryCall

/-- `vkMapMemory(..., &buf->mapped)`. -/
def vkMapMemory (o : MapOutcome) (buf : Buffer) : Buffer :=
  match o with
  | .success address => { buf with mapped := address, calls := .mapMemory (some address) :: buf.calls }
  | .failure left => { buf with mapped := left, calls := .mapMemory none :: buf.calls }

/-- `vkUnmapMemory`. -/
def vkUnmapMemory (buf : Buffer) : Buffer :=
  { buf with calls := .unmapMemory :: buf.calls }

/-- `lgx_gfx_buffer_map`. -/
def lgxGfxBufferMap (o : MapOutcome) (buf : Buffer) : ℕ × Buffer :=
  if !buf.hostVisible || buf.mapped ≠ 0 then (buf.mapped, buf)
  else ((vkMapMemory o buf).mapped, vkMapMemory o buf)

/-- `lgx_gfx_buffer_unmap`. -/
def lgxGfxBufferUnmap (buf : Buffer) : Buffer :=
  if buf.mapped = 0 then buf else { vkUnmapMemory buf with mapped := 0 }

/-- `lgx_gfx_buffer_upload`, up to what it writes. -/
def lgxGfxBufferUpload (vk : VkAnswers) (o : MapOutcome) (buf : Buffer) (data : ℕ) (size offset : UInt64) :
    LgxResult × Buffer :=
  if data = 0 || buf.size < offset + size then (.invalidParam, buf)
  else if buf.hostVisible then
    let (mapped, buf) := lgxGfxBufferMap o buf
    if mapped = 0 then (.outOfMemory, buf) else (.success, lgxGfxBufferUnmap buf)
  else
    match createStagingBuffer vk size with
    | none => (.outOfMemory, buf)
    | some _ => if !vk.allocateCommandBuffers then (.outOfMemory, buf) else (.success, buf)

/-- The checks of `lgx_gfx_buffer_upload` fail, so that nothing is mapped. -/
def Refused (buf : Buffer) (data : ℕ) (size offset : UInt64) : Prop :=
  data = 0 ∨ buf.size < offset + size

/-- `lgx_gfx_buffer_destroy`, up to the memory being freed. -/
def lgxGfxBufferDestroy (buf : Buffer) : Buffer :=
  if buf.mapped ≠ 0 then lgxGfxBufferUnmap buf else buf

/-- The buffer as it is seen by a model without pointers. -/
def Buffer.toGfxBuffer (buf : Buffer) : GfxBuffer :=
  ⟨buf.size, buf.hostVisible, buf.mapped ≠ 0⟩

/-! ## Runs -/

/-- A buffer, and the pointers that `lgx_gfx_buffer_map` has returned to the client since it last unmapped. -/
structure Run where
  buf : Buffer
  destroyed : Bool
  held : List ℕ

/-- A call of the client. -/
inductive Action
  | map (o : MapOutcome)
  | unmap
  | upload (vk : VkAnswers) (o : MapOutcome) (data : ℕ) (size offset : UInt64)
  | destroy

namespace Run

/-- The client maps the buffer. -/
def map (r : Run) (o : MapOutcome) : Run :=
  let (p, buf) := lgxGfxBufferMap o r.buf
  { r with buf := buf, held := if p = 0 then r.held else p :: r.held }

/-- The client unmaps the buffer. -/
def unmap (r : Run) : Run :=
  { r with buf := lgxGfxBufferUnmap r.buf, held := [] }

/-- The client uploads data. -/
def upload (r : Run) (vk : VkAnswers) (o : MapOutcome) (data : ℕ) (size offset : UInt64) : Run :=
  { r with buf := (lgxGfxBufferUpload vk o r.buf data size offset).2 }

/-- The client destroys the buffer. -/
def destroy (r : Run) : Run :=
  { buf := lgxGfxBufferDestroy r.buf, destroyed := true, held := [] }

end Run

/-- One call; there is none after the buffer is destroyed. -/
def step (r : Run) (a : Action) : Option Run :=
  if r.destroyed then none
  else
    match a with
    | .map o => some (r.map o)
    | .unmap => some r.unmap
    | .upload vk o data size offset => some (r.upload vk o data size offset)
    | .destroy => some r.destroy

/-- A host-visible buffer from `lgx_gfx_buffer_create`. -/
def Created (r : Run) : Prop :=
  ∃ size, r = ⟨⟨size, true, 0, []⟩, false, []⟩

/-- Calls of `vkMapMemory` that fail leave no pointer. -/
def Clean (_ : Run) : Action → Prop
  | .map o | .upload _ o _ _ _ => o.Clean
  | .unmap | .destroy => True

/-- No upload gets past its checks while the client has a mapping, and calls of `vkMapMemory` that fail leave no
pointer. -/
def Careful (r : Run) : Action → Prop
  | .map o => r.held ≠ [] ∨ o.Clean
  | .upload _ o data size offset => Refused r.buf data size offset ∨ r.held = [] ∧ o.Clean
  | .unmap | .destroy => True

/-- The calls are in order, and every pointer that the client holds is where the memory is mapped. -/
structure Kept (r : Run) : Prop where
  inOrder : InOrder r.buf.calls
  held : ∀ p ∈ r.held, mapping r.buf.calls = some p

/-! ## The pointer of the buffer -/

/-- The pointer of a host-visible buffer is where its memory is mapped. -/
structure Agrees (buf : Buffer) : Prop where
  visible : buf.hostVisible = true
  inOrder : InOrder buf.calls
  mapping_eq : mapping buf.calls = if buf.mapped = 0 then none else some buf.mapped

namespace Agrees

variable {buf : Buffer} {o : MapOutcome}

theorem created (size : UInt64) : Agrees ⟨size, true, 0, []⟩ :=
  ⟨rfl, trivial, rfl⟩

theorem mapping_of_zero (h : Agrees buf) (hmapped : buf.mapped = 0) : mapping buf.calls = none := by
  rw [h.mapping_eq, if_pos hmapped]

theorem mapping_of_ne (h : Agrees buf) (hmapped : buf.mapped ≠ 0) : mapping buf.calls = some buf.mapped := by
  rw [h.mapping_eq, if_neg hmapped]

theorem map_of_ne (hmapped : buf.mapped ≠ 0) : lgxGfxBufferMap o buf = (buf.mapped, buf) := by
  rw [lgxGfxBufferMap, if_pos (by simp [hmapped])]

theorem map_of_zero (h : Agrees buf) (hmapped : buf.mapped = 0) :
    lgxGfxBufferMap o buf = ((vkMapMemory o buf).mapped, vkMapMemory o buf) := by
  rw [lgxGfxBufferMap, if_neg (by simp [h.visible, hmapped])]

theorem vkMapMemory (h : Agrees buf) (hmapped : buf.mapped = 0) (hclean : o.Clean) :
    Agrees (vkMapMemory o buf) := by
  have hnone := h.mapping_of_zero hmapped
  cases o with
  | success address => exact ⟨h.visible, ⟨hnone, h.inOrder⟩, (if_neg address.ne_zero).symm⟩
  | failure left => exact ⟨h.visible, ⟨hnone, h.inOrder⟩, hnone.trans (if_pos hclean).symm⟩

theorem map (h : Agrees buf) (hclean : o.Clean) : Agrees (lgxGfxBufferMap o buf).2 := by
  by_cases hmapped : buf.mapped = 0
  · rw [h.map_of_zero hmapped]
    exact h.vkMapMemory hmapped hclean
  · rw [map_of_ne hmapped]
    exact h

theorem unmap (h : Agrees buf) : Agrees (lgxGfxBufferUnmap buf) := by
  unfold lgxGfxBufferUnmap
  split
  · exact h
  · rename_i hmapped
    refine ⟨h.visible, ⟨?_, h.inOrder⟩, rfl⟩
    rw [h.mapping_of_ne hmapped]
    exact Option.some_ne_none _

end Agrees

/-! ## Uploads -/

section

variable {vk : VkAnswers} {o : MapOutcome} {buf : Buffer} {data : ℕ} {size offset : UInt64}

theorem lgxGfxBufferUpload_refused (h : Refused buf data size offset) :
    lgxGfxBufferUpload vk o buf data size offset = (.invalidParam, buf) := by
  rw [lgxGfxBufferUpload, if_pos (by simpa [Refused] using h)]

theorem lgxGfxBufferUnmap_of_zero (hmapped : buf.mapped = 0) : lgxGfxBufferUnmap buf = buf := by
  rw [lgxGfxBufferUnmap, if_pos hmapped]

theorem lgxGfxBufferUnmap_of_ne (hmapped : buf.mapped ≠ 0) :
    lgxGfxBufferUnmap buf = { vkUnmapMemory buf with mapped := 0 } := by
  rw [lgxGfxBufferUnmap, if_neg hmapped]

@[simp] theorem lgxGfxBufferUnmap_mapped (buf : Buffer) : (lgxGfxBufferUnmap buf).mapped = 0 := by
  by_cases hmapped : buf.mapped = 0
  · rw [lgxGfxBufferUnmap_of_zero hmapped, hmapped]
  · rw [lgxGfxBufferUnmap_of_ne hmapped]

theorem lgxGfxBufferDestroy_eq (buf : Buffer) : lgxGfxBufferDestroy buf = lgxGfxBufferUnmap buf := by
  by_cases hmapped : buf.mapped = 0
  · rw [lgxGfxBufferDestroy, if_neg (not_not.mpr hmapped), lgxGfxBufferUnmap_of_zero hmapped]
  · rw [lgxGfxBufferDestroy, if_pos hmapped]

theorem lgxGfxBufferMap_fst (o : MapOutcome) (buf : Buffer) :
    (lgxGfxBufferMap o buf).1 = (lgxGfxBufferMap o buf).2.mapped := by
  unfold lgxGfxBufferMap
  split
  · rfl
  · rfl

/-- An upload that is not refused maps and unmaps. -/
theorem lgxGfxBufferUpload_passed (hvisible : buf.hostVisible = true) (h : ¬ Refused buf data size offset) :
    (lgxGfxBufferUpload vk o buf data size offset).2 = lgxGfxBufferUnmap (lgxGfxBufferMap o buf).2 := by
  rw [lgxGfxBufferUpload, if_neg (by simpa [Refused] using h), if_pos hvisible]
  by_cases hmapped : (lgxGfxBufferMap o buf).1 = 0
  · have hzero : (lgxGfxBufferMap o buf).2.mapped = 0 := (lgxGfxBufferMap_fst o buf).symm.trans hmapped
    rw [lgxGfxBufferUnmap_of_zero hzero]
    simp only [if_pos hmapped]
  · simp only [if_neg hmapped]

theorem Agrees.upload (h : Agrees buf) (hclean : o.Clean) :
    Agrees (lgxGfxBufferUpload vk o buf data size offset).2 := by
  by_cases hrefused : Refused buf data size offset
  · rw [lgxGfxBufferUpload_refused hrefused]
    exact h
  · rw [lgxGfxBufferUpload_passed h.visible hrefused]
    exact (h.map hclean).unmap

theorem bufferMap_toGfxBuffer (hvk : vk.mapMemory = decide (o.pointer ≠ 0)) :
    bufferMap vk buf.toGfxBuffer =
      (decide ((lgxGfxBufferMap o buf).1 ≠ 0), (lgxGfxBufferMap o buf).2.toGfxBuffer) := by
  have hcheck : (!buf.toGfxBuffer.hostVisible || buf.toGfxBuffer.mapped) =
      (!buf.hostVisible || decide (buf.mapped ≠ 0)) := rfl
  unfold bufferMap lgxGfxBufferMap
  rw [hcheck]
  split
  · rfl
  · rw [hvk]
    cases o <;> rfl

theorem bufferUnmap_toGfxBuffer : bufferUnmap buf.toGfxBuffer = (lgxGfxBufferUnmap buf).toGfxBuffer := by
  by_cases hmapped : buf.mapped = 0
  · rw [lgxGfxBufferUnmap_of_zero hmapped, bufferUnmap, if_pos (by simp [Buffer.toGfxBuffer, hmapped])]
  · rw [lgxGfxBufferUnmap_of_ne hmapped, bufferUnmap, if_neg (by simp [Buffer.toGfxBuffer, hmapped])]
    rfl

/-- The model without pointers gives the same result and the same buffer. -/
theorem bufferUpload_toGfxBuffer (hvk : vk.mapMemory = decide (o.pointer ≠ 0)) :
    (bufferUpload vk buf.toGfxBuffer data size offset).1 =
        (lgxGfxBufferUpload vk o buf data size offset).1 ∧
      (bufferUpload vk buf.toGfxBuffer data size offset).2.2 =
        (lgxGfxBufferUpload vk o buf data size offset).2.toGfxBuffer := by
  have hsize : buf.toGfxBuffer.size = buf.size := rfl
  have hhost : buf.toGfxBuffer.hostVisible = buf.hostVisible := rfl
  unfold bufferUpload lgxGfxBufferUpload
  rw [hsize, hhost, bufferMap_toGfxBuffer hvk]
  split
  · exact ⟨rfl, rfl⟩
  · split
    · by_cases hmapped : (lgxGfxBufferMap o buf).1 = 0
      · simp [hmapped]
      · simp [hmapped, bufferUnmap_toGfxBuffer]
    · cases createStagingBuffer vk size with
      | none => exact ⟨rfl, rfl⟩
      | some _ => cases vk.allocateCommandBuffers <;> exact ⟨rfl, rfl⟩

end

/-! ## Every run -/

/-- What a careful client finds: it holds the pointer of the buffer, and there is one only if the client has
asked for it. -/
structure Held (r : Run) : Prop where
  agrees : Agrees r.buf
  held_eq : ∀ p ∈ r.held, p = r.buf.mapped
  held_iff : r.held = [] ↔ r.buf.mapped = 0

variable {r r' : Run} {a : Action} {o : MapOutcome} {p : ℕ}

theorem Held.kept (h : Held r) : Kept r := by
  refine ⟨h.agrees.inOrder, fun p hp => ?_⟩
  have hne : r.buf.mapped ≠ 0 := by
    intro hmapped
    rw [h.held_iff.mpr hmapped] at hp
    cases hp
  rw [h.held_eq p hp]
  exact h.agrees.mapping_of_ne hne

/-- A client without a mapping. -/
theorem Held.nil {buf : Buffer} (h : Agrees buf) (hmapped : buf.mapped = 0) (destroyed : Bool) :
    Held ⟨buf, destroyed, []⟩ := by
  refine ⟨h, ?_, iff_of_true rfl hmapped⟩
  intro p hp
  cases hp

/-- Memory that is not mapped is not unmapped in order. -/
theorem not_inOrder_unmap {calls : List MemoryCall} (h : mapping calls = none) :
    ¬ InOrder (.unmapMemory :: calls) := by
  intro hinOrder
  exact hinOrder.1 h

/-- A pointer to memory that is not mapped. -/
theorem not_kept (hp : p ∈ r.held) (hnone : mapping r.buf.calls = none) : ¬ Kept r := by
  intro hkept
  rw [hkept.held p hp] at hnone
  cases hnone

/-- The step is careful and leaves a client that holds the pointer of the buffer, or it is not and something goes
wrong. -/
def Decides (r : Run) (a : Action) (r' : Run) : Prop :=
  Careful r a ∧ Held r' ∨ ¬ Careful r a ∧ ¬ Kept r'

namespace Held

theorem map (h : Held r) (o : MapOutcome) : Decides r (.map o) (r.map o) := by
  by_cases hmapped : r.buf.mapped = 0
  · have hheld : r.held = [] := h.held_iff.mpr hmapped
    rw [Run.map, h.agrees.map_of_zero hmapped, hheld]
    cases o with
    | success address =>
        have hagrees := h.agrees.vkMapMemory (o := .success address) hmapped trivial
        have hne : (vkMapMemory (.success address) r.buf).mapped ≠ 0 := address.ne_zero
        refine Or.inl ⟨Or.inr trivial, ?_⟩
        simp only [if_neg hne]
        exact ⟨hagrees, by simp, iff_of_false (List.cons_ne_nil _ _) hne⟩
    | failure left =>
        by_cases hleft : left = 0
        · have hagrees := h.agrees.vkMapMemory (o := .failure left) hmapped hleft
          have hzero : (vkMapMemory (.failure left) r.buf).mapped = 0 := hleft
          refine Or.inl ⟨Or.inr hleft, ?_⟩
          simp only [if_pos hzero]
          exact .nil hagrees hzero _
        · -- the client gets a pointer, and nothing is mapped
          refine Or.inr ⟨?_, ?_⟩
          · rintro (hne | hclean)
            · exact hne hheld
            · exact hleft hclean
          · apply not_kept (p := left)
            · simp [vkMapMemory, hleft]
            · exact h.agrees.mapping_of_zero hmapped
  · have hheld : r.held ≠ [] := mt h.held_iff.mp hmapped
    refine Or.inl ⟨Or.inl hheld, ?_⟩
    rw [Run.map, Agrees.map_of_ne hmapped]
    simp only [if_neg hmapped]
    refine ⟨h.agrees, ?_, iff_of_false (List.cons_ne_nil _ _) hmapped⟩
    exact List.forall_mem_cons.mpr ⟨rfl, h.held_eq⟩

theorem unmap (h : Held r) : Held r.unmap :=
  .nil h.agrees.unmap (lgxGfxBufferUnmap_mapped _) _

theorem destroy (h : Held r) : Held r.destroy := by
  rw [Run.destroy, lgxGfxBufferDestroy_eq]
  exact .nil h.agrees.unmap (lgxGfxBufferUnmap_mapped _) _

section

variable {vk : VkAnswers} {data : ℕ} {size offset : UInt64}

/-- A careful upload is refused, or it maps and unmaps the memory for itself. -/
theorem upload_of_careful (h : Held r) (hcareful : Careful r (.upload vk o data size offset)) :
    Held (r.upload vk o data size offset) := by
  by_cases hrefused : Refused r.buf data size offset
  · rw [Run.upload, lgxGfxBufferUpload_refused hrefused]
    exact h
  · obtain ⟨hheld, hclean⟩ := hcareful.resolve_left hrefused
    rw [Run.upload, lgxGfxBufferUpload_passed h.agrees.visible hrefused, hheld]
    exact .nil (h.agrees.map hclean).unmap (lgxGfxBufferUnmap_mapped _) _

theorem not_kept_of_careless (h : Held r) (hcareless : ¬ Careful r (.upload vk o data size offset)) :
    ¬ Kept (r.upload vk o data size offset) := by
  obtain ⟨hrefused, hbad⟩ := not_or.mp hcareless
  rw [Run.upload, lgxGfxBufferUpload_passed h.agrees.visible hrefused]
  by_cases hmapped : r.buf.mapped = 0
  · -- what `vkMapMemory` has left is unmapped, although the call has failed
    rw [h.agrees.map_of_zero hmapped]
    have hunclean : ¬ o.Clean := fun hclean => hbad ⟨h.held_iff.mpr hmapped, hclean⟩
    cases o with
    | success address => exact absurd trivial hunclean
    | failure left =>
        intro hkept
        have hne : (vkMapMemory (.failure left) r.buf).mapped ≠ 0 := hunclean
        have hinOrder := hkept.inOrder
        simp only [lgxGfxBufferUnmap_of_ne hne] at hinOrder
        have hnone : mapping (.mapMemory none :: r.buf.calls) = none := h.agrees.mapping_of_zero hmapped
        exact not_inOrder_unmap hnone hinOrder
  · -- the mapping of the client ends
    have hheld : r.held ≠ [] := mt h.held_iff.mp hmapped
    obtain ⟨p, hp⟩ := List.exists_mem_of_ne_nil _ hheld
    rw [Agrees.map_of_ne hmapped, lgxGfxBufferUnmap_of_ne hmapped]
    exact not_kept hp rfl

theorem upload (h : Held r) : Decides r (.upload vk o data size offset) (r.upload vk o data size offset) := by
  by_cases hcareful : Careful r (.upload vk o data size offset)
  · exact Or.inl ⟨hcareful, h.upload_of_careful hcareful⟩
  · exact Or.inr ⟨hcareful, h.not_kept_of_careless hcareful⟩

end

/-- A step goes wrong exactly if it is not careful. -/
theorem step (h : Held r) (hstep : step r a = some r') : Decides r a r' := by
  obtain ⟨-, hstep⟩ := Option.ite_none_left_eq_some.mp hstep
  cases a with
  | map o =>
      obtain rfl := Option.some.inj hstep
      exact h.map o
  | unmap =>
      obtain rfl := Option.some.inj hstep
      exact Or.inl ⟨trivial, h.unmap⟩
  | upload vk o data size offset =>
      obtain rfl := Option.some.inj hstep
      exact h.upload
  | destroy =>
      obtain rfl := Option.some.inj hstep
      exact Or.inl ⟨trivial, h.destroy⟩

theorem reachable (h : Interleaving.Reachable Created BufferMapping.step Careful r) : Held r := by
  apply h.invariant (I := Held)
  · rintro r ⟨size, rfl⟩
    exact .nil (.created size) rfl false
  · intro r r' a hheld hcareful hstep
    rcases hheld.step hstep with ⟨-, hheld'⟩ | ⟨hcareless, -⟩
    · exact hheld'
    · exact absurd hcareful hcareless

end Held

/-- Whatever the client does, memory is mapped only while it is not and unmapped only while it is, as long as
calls of `vkMapMemory` that fail leave no pointer. -/
theorem inOrder_of_clean (h : Interleaving.Reachable Created step Clean r) : InOrder r.buf.calls := by
  have hagrees : Agrees r.buf := by
    apply h.invariant (I := fun r => Agrees r.buf)
    · rintro r ⟨size, rfl⟩
      exact .created size
    · intro r r' a hagrees hclean hstep
      obtain ⟨-, hstep⟩ := Option.ite_none_left_eq_some.mp hstep
      cases a with
      | map o =>
          obtain rfl := Option.some.inj hstep
          exact hagrees.map hclean
      | unmap =>
          obtain rfl := Option.some.inj hstep
          exact hagrees.unmap
      | upload vk o data size offset =>
          obtain rfl := Option.some.inj hstep
          exact hagrees.upload hclean
      | destroy =>
          obtain rfl := Option.some.inj hstep
          rw [Run.destroy, lgxGfxBufferDestroy_eq]
          exact hagrees.unmap
  exact hagrees.inOrder

/-- In a run whose calls are all careful, memory is mapped and unmapped in order and the pointers of the client
stay mapped, and they do after one more call exactly if it is careful as well. -/
theorem kept_iff_careful (h : Interleaving.Reachable Created step Careful r) :
    Kept r ∧ ∀ a r', step r a = some r' → (Kept r' ↔ Careful r a) := by
  have hheld : Held r := .reachable h
  refine ⟨hheld.kept, fun a r' hstep => ?_⟩
  rcases hheld.step hstep with ⟨hcareful, hheld'⟩ | ⟨hcareless, hlost⟩
  · exact iff_of_true hheld'.kept hcareful
  · exact iff_of_false hlost hcareless

/-- A buffer of 16 bytes. -/
def sixteen : Run :=
  ⟨⟨16, true, 0, []⟩, false, []⟩

/-- All of the buffer is written, between calls that map and unmap it. -/
theorem kept_mapped : ∃ r, r.held = [0x1000] ∧ mapping r.buf.calls = some 0x1000 ∧ Kept r ∧
    ∀ a r', step r a = some r' → (Kept r' ↔ Careful r a) := by
  have hstart : Interleaving.Reachable Created step Careful sixteen := .init ⟨16, rfl⟩
  have hupload := hstart.step (Action.upload .success (.success 0x2000) 1 16 0) (Or.inr ⟨rfl, trivial⟩) rfl
  have hmap := hupload.step (Action.map (.success 0x1000)) (Or.inr trivial) rfl
  exact ⟨_, rfl, rfl, kept_iff_careful hmap⟩

/-- An upload between the two calls of a client. -/
theorem not_kept_upload : ¬ ∀ r, Interleaving.Reachable Created step Clean r → Kept r := by
  intro hall
  have hstart : Interleaving.Reachable Created step Clean sixteen := .init ⟨16, rfl⟩
  have hmap := hstart.step (Action.map (.success 0x1000)) trivial rfl
  have hupload := hmap.step (Action.upload .success (.success 0x2000) 1 16 0) trivial rfl
  exact not_kept (p := 0x1000) (List.mem_cons_self ..) rfl (hall _ hupload)

end LgxRuntime.Graphics.BufferMapping
