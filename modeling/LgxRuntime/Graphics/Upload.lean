import LgxRuntime.Runtime.Core
import Mathlib.Algebra.Order.Ring.Nat
import Mathlib.Tactic.Common

/-!
# Uploads to the GPU

`lgx_gfx_buffer_upload` adds the offset and the size in `size_t` before it compares them with the size of the
buffer, so that a sum that wraps around passes.  `lgx_gfx_image_upload` does not compare the length of its data
with the bytes that the copy to the image reads.
-/

namespace LgxRuntime.Graphics

open LgxRuntime.Runtime (LgxResult)

/-! ## Formats -/

/-- The Vulkan formats that are in use. -/
inductive VkFormat
  | r8g8b8a8Unorm
  | r8g8b8a8Srgb
  | b8g8r8a8Unorm
  | b8g8r8a8Srgb
  | r32Sfloat
  | r32g32Sfloat
  | r32g32b32Sfloat
  | r32g32b32a32Sfloat
  | r16g16b16a16Sfloat
  | d32Sfloat
  | d24UnormS8Uint
  deriving DecidableEq

/-- `lgx_to_vk_format`, on the number of an `lgx_gfx_format_t`. -/
def lgxToVkFormat (fmt : UInt32) : VkFormat :=
  if fmt = 0 then .r8g8b8a8Unorm
  else if fmt = 1 then .r8g8b8a8Srgb
  else if fmt = 2 then .b8g8r8a8Unorm
  else if fmt = 3 then .b8g8r8a8Srgb
  else if fmt = 4 then .r32Sfloat
  else if fmt = 5 then .r32g32Sfloat
  else if fmt = 6 then .r32g32b32Sfloat
  else if fmt = 7 then .r32g32b32a32Sfloat
  else if fmt = 8 then .r16g16b16a16Sfloat
  else if fmt = 9 then .d32Sfloat
  else if fmt = 10 then .d24UnormS8Uint
  else .r8g8b8a8Unorm

/-- The bytes of a texel in a buffer.  Of a format with depth and stencil, a copy takes the depths. -/
def VkFormat.texelSize : VkFormat → ℕ
  | .r8g8b8a8Unorm => 4
  | .r8g8b8a8Srgb => 4
  | .b8g8r8a8Unorm => 4
  | .b8g8r8a8Srgb => 4
  | .r32Sfloat => 4
  | .r32g32Sfloat => 8
  | .r32g32b32Sfloat => 12
  | .r32g32b32a32Sfloat => 16
  | .r16g16b16a16Sfloat => 8
  | .d32Sfloat => 4
  | .d24UnormS8Uint => 4

/-! ## Uploads -/

/-- What Vulkan answers to the calls of an upload. -/
structure VkAnswers where
  mapMemory : Bool
  createBuffer : Bool
  memoryType : Bool
  allocateMemory : Bool
  allocateCommandBuffers : Bool

/-- `lgx_gfx_buffer`; `mapped` says whether its memory is mapped. -/
structure GfxBuffer where
  size : UInt64
  hostVisible : Bool
  mapped : Bool

/-- `lgx_gfx_image`. -/
structure GfxImage where
  width : UInt32
  height : UInt32
  vkFormat : VkFormat

/-- `create_staging_buffer`: the size of the buffer that it makes, if it makes one. -/
def createStagingBuffer (vk : VkAnswers) (size : UInt64) : Option UInt64 :=
  if !vk.createBuffer then none
  else if !vk.memoryType then none
  else if !vk.allocateMemory then none
  else some size

/-- `lgx_gfx_buffer_map`: whether there is a mapping, and the buffer afterwards. -/
def bufferMap (vk : VkAnswers) (buf : GfxBuffer) : Bool × GfxBuffer :=
  if !buf.hostVisible || buf.mapped then (buf.mapped, buf)
  else (vk.mapMemory, { buf with mapped := vk.mapMemory })

/-- `lgx_gfx_buffer_unmap`. -/
def bufferUnmap (buf : GfxBuffer) : GfxBuffer :=
  if !buf.mapped then buf else { buf with mapped := false }

/-- A part of the memory of a buffer. -/
structure Region where
  offset : UInt64
  size : UInt64

/-- `lgx_gfx_buffer_upload`: its result, the part of the buffer that it writes, and the buffer afterwards.
Pointers are given as addresses. -/
def bufferUpload (vk : VkAnswers) (buf : GfxBuffer) (data : ℕ) (size offset : UInt64) :
    LgxResult × Option Region × GfxBuffer :=
  if data = 0 || buf.size < offset + size then (.invalidParam, none, buf)
  else if buf.hostVisible then
    if !(bufferMap vk buf).1 then (.outOfMemory, none, (bufferMap vk buf).2)
    else (.success, some ⟨offset, size⟩, bufferUnmap (bufferMap vk buf).2)
  else
    match createStagingBuffer vk size with
    | none => (.outOfMemory, none, buf)
    | some _ =>
        if !vk.allocateCommandBuffers then (.outOfMemory, none, buf)
        else (.success, some ⟨offset, size⟩, buf)

/-- The bytes that a tightly packed copy of all texels reads. -/
def GfxImage.copyBytes (img : GfxImage) : ℕ :=
  img.width.toNat * img.height.toNat * img.vkFormat.texelSize

/-- `lgx_gfx_image_upload`: its result, and the size of the staging buffer and the bytes that the copy reads
from it. -/
def imageUpload (vk : VkAnswers) (img : GfxImage) (pixels : ℕ) (dataSize : UInt64) :
    LgxResult × Option (UInt64 × ℕ) :=
  if pixels = 0 || dataSize = 0 then (.invalidParam, none)
  else
    match createStagingBuffer vk dataSize with
    | none => (.outOfMemory, none)
    | some staging =>
        if !vk.allocateCommandBuffers then (.outOfMemory, none)
        else (.success, some (staging, img.copyBytes))

/-! ## Bounds -/

/-- If the upload succeeds, what it writes is in the buffer. -/
def BufferUploadInBounds (buf : GfxBuffer) (data : ℕ) (size offset : UInt64) : Prop :=
  ∀ vk, (bufferUpload vk buf data size offset).1 = .success → offset.toNat + size.toNat ≤ buf.size.toNat

/-- If the upload succeeds, the copy reads the data and no more. -/
def ImageUploadInBounds (img : GfxImage) (pixels : ℕ) (dataSize : UInt64) : Prop :=
  ∀ vk, (imageUpload vk img pixels dataSize).1 = .success → img.copyBytes ≤ dataSize.toNat

/-- Everything succeeds. -/
def VkAnswers.success : VkAnswers :=
  ⟨true, true, true, true, true⟩

variable {buf : GfxBuffer} {img : GfxImage} {data pixels : ℕ} {size offset dataSize : UInt64}

/-- An upload to a buffer that is not refused may succeed, and one that is refused does not. -/
theorem bufferUpload_success_iff (buf : GfxBuffer) (data : ℕ) (size offset : UInt64) :
    (∃ vk, (bufferUpload vk buf data size offset).1 = .success) ↔ data ≠ 0 ∧ offset + size ≤ buf.size := by
  constructor
  · rintro ⟨vk, hsuccess⟩
    by_contra hrefused
    have hcheck : (data = 0 || buf.size < offset + size) = true := by
      simp only [ne_eq, not_and_or, not_not, UInt64.not_le] at hrefused
      simpa using hrefused
    rw [bufferUpload, if_pos hcheck] at hsuccess
    exact absurd hsuccess (by simp)
  · rintro ⟨hdata, hfits⟩
    have hcheck : ¬ (data = 0 || buf.size < offset + size) = true := by
      simpa [hdata] using hfits
    refine ⟨.success, ?_⟩
    rw [bufferUpload, if_neg hcheck]
    cases hvisible : buf.hostVisible with
    | false => rfl
    | true => cases hmapped : buf.mapped <;> simp [bufferMap, hvisible, hmapped, VkAnswers.success]

theorem imageUpload_success_iff (img : GfxImage) (pixels : ℕ) (dataSize : UInt64) :
    (∃ vk, (imageUpload vk img pixels dataSize).1 = .success) ↔ pixels ≠ 0 ∧ dataSize ≠ 0 := by
  constructor
  · rintro ⟨vk, hsuccess⟩
    by_contra hrefused
    have hcheck : (pixels = 0 || dataSize = 0) = true := by
      simp only [ne_eq, not_and_or, not_not] at hrefused
      simpa using hrefused
    rw [imageUpload, if_pos hcheck] at hsuccess
    exact absurd hsuccess (by simp)
  · rintro ⟨hpixels, hsize⟩
    have hcheck : ¬ (pixels = 0 || dataSize = 0) = true := by simp [hpixels, hsize]
    refine ⟨.success, ?_⟩
    rw [imageUpload, if_neg hcheck]
    rfl

/-- A sum that does not wrap around is compared as it is. -/
theorem toNat_add_le_iff (hlt : offset.toNat + size.toNat < 2 ^ 64) (limit : UInt64) :
    offset + size ≤ limit ↔ offset.toNat + size.toNat ≤ limit.toNat := by
  rw [UInt64.le_iff_toNat_le, UInt64.toNat_add, Nat.mod_eq_of_lt hlt]

theorem bufferUploadInBounds_iff (buf : GfxBuffer) (data : ℕ) (size offset : UInt64) :
    BufferUploadInBounds buf data size offset ↔
      offset.toNat + size.toNat < 2 ^ 64 ∨ data = 0 ∨ buf.size < offset + size := by
  have hlimit := buf.size.toNat_lt
  constructor
  · intro h
    by_contra hnot
    simp only [not_or, UInt64.not_lt] at hnot
    obtain ⟨hwraps, hdata, hfits⟩ := hnot
    obtain ⟨vk, hsuccess⟩ := (bufferUpload_success_iff buf data size offset).mpr ⟨hdata, hfits⟩
    exact hwraps ((h vk hsuccess).trans_lt hlimit)
  · intro h vk hsuccess
    obtain ⟨hdata, hfits⟩ := (bufferUpload_success_iff buf data size offset).mp ⟨vk, hsuccess⟩
    obtain hlt | hnull | hless := h
    · exact (toNat_add_le_iff hlt _).mp hfits
    · exact absurd hnull hdata
    · exact absurd hfits (UInt64.not_le.mpr hless)

theorem imageUploadInBounds_iff (img : GfxImage) (pixels : ℕ) (dataSize : UInt64) :
    ImageUploadInBounds img pixels dataSize ↔
      img.copyBytes ≤ dataSize.toNat ∨ pixels = 0 ∨ dataSize = 0 := by
  constructor
  · intro h
    by_contra hnot
    simp only [not_or] at hnot
    obtain ⟨hmore, hpixels, hsize⟩ := hnot
    obtain ⟨vk, hsuccess⟩ := (imageUpload_success_iff img pixels dataSize).mpr ⟨hpixels, hsize⟩
    exact hmore (h vk hsuccess)
  · intro h vk hsuccess
    obtain ⟨hpixels, hsize⟩ := (imageUpload_success_iff img pixels dataSize).mp ⟨vk, hsuccess⟩
    obtain hle | hnull | hzero := h
    · exact hle
    · exact absurd hnull hpixels
    · exact absurd hzero hsize

/-- A buffer upload stays in bounds exactly if the sum of the offset and the size does not wrap around or the
upload is refused, and an image upload exactly if there are as many bytes as the copy reads or the upload is
refused. -/
theorem uploads_inBounds_iff (buf : GfxBuffer) (img : GfxImage) (data pixels : ℕ)
    (size offset dataSize : UInt64) :
    (BufferUploadInBounds buf data size offset ↔
      offset.toNat + size.toNat < 2 ^ 64 ∨ data = 0 ∨ buf.size < offset + size) ∧
    (ImageUploadInBounds img pixels dataSize ↔
      img.copyBytes ≤ dataSize.toNat ∨ pixels = 0 ∨ dataSize = 0) :=
  ⟨bufferUploadInBounds_iff buf data size offset, imageUploadInBounds_iff img pixels dataSize⟩

/-- 16 bytes are written 8 bytes in front of a buffer, and the copy to an image of two texels reads 8 bytes
where there is one. -/
theorem not_uploads_inBounds :
    ¬ BufferUploadInBounds ⟨16, true, false⟩ 1 16 18446744073709551608 ∧
      ¬ ImageUploadInBounds ⟨2, 1, lgxToVkFormat 0⟩ 1 1 := by
  constructor
  · intro h
    exact absurd (h .success rfl) (by decide)
  · intro h
    exact absurd (h .success rfl) (by decide)

end LgxRuntime.Graphics
