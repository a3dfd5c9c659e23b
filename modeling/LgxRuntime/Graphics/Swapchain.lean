import LgxRuntime.Runtime.Core
import Mathlib.Algebra.Order.Ring.Nat
import Mathlib.Data.List.Basic
import Mathlib.Tactic.Common

/-!
# The swapchain

The functions of the swapchain, with the Vulkan calls that they make.  What Vulkan and `calloc` answer is given
as an outcome.  Handles are natural numbers, zero being `VK_NULL_HANDLE`; a failed call stores a null handle.
No function makes framebuffers for a swapchain, and they are left out.
-/

namespace LgxRuntime.Graphics

open LgxRuntime.Runtime (LgxResult)

/-! ## Vulkan -/

/-- The objects that a swapchain is made of. -/
inductive VkObject
  | surface
  | swapchain
  | imageView
  | semaphore
  | fence
  deriving DecidableEq

/-- What `vkAcquireNextImageKHR` returns. -/
inductive AcquireResult
  | success
  | suboptimal
  | outOfDate
  | otherError
  deriving DecidableEq

/-- The Vulkan calls that succeed in making or destroying an object, wait for something or signal it.  A fence
may be created signalled. -/
inductive VkCall
  | create (object : VkObject) (handle : ℕ) (signalled : Bool)
  | destroy (object : VkObject) (handle : ℕ)
  | waitForFence (fence : ℕ)
  | resetFence (fence : ℕ)
  | acquireNextImage (semaphore : ℕ) (result : AcquireResult)
  | queueSubmit (signals : List ℕ) (fence : Option ℕ)
  | queueWaitIdle
  | deviceWaitIdle
  | queuePresent (waits : ℕ)
  deriving DecidableEq

/-- The calls that have been made, the latest first; the number of objects that have been made; and whether
every index into an array was in bounds. -/
structure Vulkan where
  log : List VkCall
  made : ℕ
  inBounds : Bool

namespace Vulkan

/-- Nothing has been called. -/
def new : Vulkan :=
  ⟨[], 0, true⟩

/-- A call. -/
def call (vk : Vulkan) (c : VkCall) : Vulkan :=
  { vk with log := c :: vk.log }

/-- A new object: its handle. -/
def create (vk : Vulkan) (object : VkObject) (signalled : Bool) : ℕ × Vulkan :=
  (vk.made + 1, { vk with log := .create object (vk.made + 1) signalled :: vk.log, made := vk.made + 1 })

/-- An object is destroyed, unless its handle is null. -/
def destroy (vk : Vulkan) (object : VkObject) (handle : ℕ) : Vulkan :=
  if handle = 0 then vk else vk.call (.destroy object handle)

/-- An index into an array of some length. -/
def index (vk : Vulkan) (i length : ℕ) : Vulkan :=
  { vk with inBounds := vk.inBounds && decide (i < length) }

end Vulkan

/-! ## Swapchains -/

/-- What belongs to one frame in flight: the entries of `image_available`, `render_finished` and
`in_flight`. -/
structure FrameSync where
  imageAvailable : ℕ
  renderFinished : ℕ
  inFlight : ℕ

/-- What `calloc` puts there. -/
def FrameSync.null : FrameSync :=
  ⟨0, 0, 0⟩

/-- `LGX_GFX_MAX_FRAMES_IN_FLIGHT`. -/
def maxFramesInFlight : ℕ := 3

/-- `lgx_gfx_swapchain`.  `images` is the length of the array, `none` if it is `NULL`. -/
structure Swapchain where
  surface : ℕ
  swapchain : ℕ
  images : Option ℕ
  imageViews : Option (List ℕ)
  imageCount : ℕ
  width : UInt32
  height : UInt32
  frames : List FrameSync
  currentFrame : ℕ
  currentImage : UInt32

/-- What the calls answer that make the images and their views: the number of images, whether the two calls of
`calloc` find enough memory, and which views can be made. -/
structure ImagesOutcome where
  imageCount : ℕ
  imagesMemory : Bool
  viewsMemory : Bool
  imageView : ℕ → Bool

/-- The array of images that `calloc` makes. -/
def ImagesOutcome.images (answers : ImagesOutcome) : Option ℕ :=
  if answers.imagesMemory then some answers.imageCount else none

/-- What the calls in `lgx_gfx_swapchain_create` answer. -/
structure CreateOutcome where
  surface : Bool
  swapchain : Bool
  images : ImagesOutcome
  imageAvailable : ℕ → Bool
  renderFinished : ℕ → Bool
  inFlight : ℕ → Bool

/-- What the calls in `lgx_gfx_swapchain_resize` answer. -/
structure ResizeOutcome where
  swapchain : Bool
  images : ImagesOutcome

/-- Two images and their views can be made. -/
def twoImages : ImagesOutcome :=
  ⟨2, true, true, fun _ => true⟩

/-- Everything can be made. -/
def everythingMade : CreateOutcome :=
  ⟨true, true, twoImages, fun _ => true, fun _ => true, fun _ => true⟩

/-- The loop of `swapchain_create_image_views` from `i` on: whether it gets to its end, and the views. -/
def createImageViewsFrom (answers : ImagesOutcome) (images views : ℕ) : ℕ → ℕ → Vulkan → Bool × List ℕ × Vulkan
  | 0, _, vk => (true, [], vk)
  | n + 1, i, vk =>
      let vk := (vk.index i images).index i views
      if answers.imageView i then
        let view := vk.create .imageView false
        let rest := createImageViewsFrom answers images views n (i + 1) view.2
        (rest.1, view.1 :: rest.2.1, rest.2.2)
      else (false, List.replicate (n + 1) 0, vk)

/-- `swapchain_create_image_views`. -/
def Swapchain.createImageViews (sc : Swapchain) (answers : ImagesOutcome) (vk : Vulkan) :
    LgxResult × Swapchain × Vulkan :=
  if !answers.viewsMemory then (.outOfMemory, { sc with imageViews := none }, vk)
  else
    let views := createImageViewsFrom answers (sc.images.getD 0) sc.imageCount sc.imageCount 0 vk
    (if views.1 then .success else .invalidParam, { sc with imageViews := some views.2.1 }, views.2.2)

/-- The loop of `swapchain_create_sync` from `i` on: whether it gets to its end, and the frames. -/
def createSyncFrom (answers : CreateOutcome) : ℕ → ℕ → Vulkan → Bool × List FrameSync × Vulkan
  | 0, _, vk => (true, [], vk)
  | n + 1, i, vk =>
      if !answers.imageAvailable i then (false, List.replicate (n + 1) .null, vk)
      else
        let imageAvailable := vk.create .semaphore false
        if !answers.renderFinished i then
          (false, ⟨imageAvailable.1, 0, 0⟩ :: List.replicate n .null, imageAvailable.2)
        else
          let renderFinished := imageAvailable.2.create .semaphore false
          if !answers.inFlight i then
            (false, ⟨imageAvailable.1, renderFinished.1, 0⟩ :: List.replicate n .null, renderFinished.2)
          else
            let inFlight := renderFinished.2.create .fence true
            let rest := createSyncFrom answers n (i + 1) inFlight.2
            (rest.1, ⟨imageAvailable.1, renderFinished.1, inFlight.1⟩ :: rest.2.1, rest.2.2)

/-- `swapchain_create_sync`. -/
def Swapchain.createSync (sc : Swapchain) (answers : CreateOutcome) (vk : Vulkan) :
    LgxResult × Swapchain × Vulkan :=
  let sync := createSyncFrom answers maxFramesInFlight 0 vk
  (if sync.1 then .success else .outOfMemory, { sc with frames := sync.2.1 }, sync.2.2)

/-- The loops that destroy the image views with an index less than `image_count`, from `i` on. -/
def destroyImageViewsFrom (views : List ℕ) : ℕ → ℕ → Vulkan → Vulkan
  | 0, _, vk => vk
  | n + 1, i, vk =>
      destroyImageViewsFrom views n (i + 1)
        ((vk.index i views.length).destroy .imageView (views.getD i 0))

/-- The image views are destroyed, if there is an array of them. -/
def Swapchain.destroyImageViews (sc : Swapchain) (vk : Vulkan) : Vulkan :=
  match sc.imageViews with
  | none => vk
  | some views => destroyImageViewsFrom views sc.imageCount 0 vk

/-- What belongs to one frame is destroyed. -/
def FrameSync.destroy (frame : FrameSync) (vk : Vulkan) : Vulkan :=
  ((vk.destroy .semaphore frame.imageAvailable).destroy .semaphore frame.renderFinished).destroy .fence
    frame.inFlight

/-- `lgx_gfx_swapchain_destroy`. -/
def Swapchain.destroy (sc : Swapchain) (vk : Vulkan) : Vulkan :=
  let vk := sc.frames.foldl (fun vk frame => frame.destroy vk) (vk.call .deviceWaitIdle)
  ((sc.destroyImageViews vk).destroy .swapchain sc.swapchain).destroy .surface sc.surface

/-- What `lgx_gfx_swapchain_create` has made before the image views. -/
def newSwapchain (width height : UInt32) (surface swapchain : ℕ) (images : ImagesOutcome) : Swapchain where
  surface := surface
  swapchain := swapchain
  images := images.images
  imageViews := none
  imageCount := images.imageCount
  width := width
  height := height
  frames := List.replicate maxFramesInFlight .null
  currentFrame := 0
  currentImage := 0

/-- The image views and what belongs to the frames are made. -/
def Swapchain.createViewsAndSync (sc : Swapchain) (answers : CreateOutcome) (vk : Vulkan) :
    LgxResult × Swapchain × Vulkan :=
  let views := sc.createImageViews answers.images vk
  if views.1 = .success then views.2.1.createSync answers views.2.2 else views

/-- `lgx_gfx_swapchain_create`, when there is enough memory for the swapchain itself. -/
def swapchainCreate (width height : UInt32) (answers : CreateOutcome) (vk : Vulkan) :
    Option Swapchain × Vulkan :=
  if !answers.surface then (none, vk)
  else
    let surface := vk.create .surface false
    if !answers.swapchain then (none, surface.2.destroy .surface surface.1)
    else
      let swapchain := surface.2.create .swapchain false
      let sc := newSwapchain width height surface.1 swapchain.1 answers.images
      let made := sc.createViewsAndSync answers swapchain.2
      if made.1 = .success then (some made.2.1, made.2.2) else (none, made.2.1.destroy made.2.2)

/-- `lgx_gfx_swapchain_resize`. -/
def Swapchain.resize (sc : Swapchain) (width height : UInt32) (answers : ResizeOutcome) (vk : Vulkan) :
    LgxResult × Swapchain × Vulkan :=
  if width = 0 || height = 0 then (.invalidParam, sc, vk)
  else
    let vk := sc.destroyImageViews (vk.call .deviceWaitIdle)
    let sc := { sc with imageViews := none, images := none, width := width, height := height }
    if !answers.swapchain then (.invalidParam, { sc with swapchain := 0 }, vk)
    else
      let swapchain := vk.create .swapchain false
      let vk := swapchain.2.destroy .swapchain sc.swapchain
      let sc := { sc with
        swapchain := swapchain.1
        imageCount := answers.images.imageCount
        images := answers.images.images }
      sc.createImageViews answers.images vk

/-! ## Frames -/

/-- What belongs to the current frame. -/
def Swapchain.frame (sc : Swapchain) : FrameSync :=
  sc.frames.getD sc.currentFrame .null

/-- `lgx_gfx_swapchain_acquire`: its result, the index that it writes, and the state afterwards.  Vulkan
answers with a result and the index of an image. -/
def Swapchain.acquire (sc : Swapchain) (result : AcquireResult) (image : UInt32) (vk : Vulkan) :
    LgxResult × UInt32 × Swapchain × Vulkan :=
  let vk := (vk.call (.waitForFence sc.frame.inFlight)).call (.resetFence sc.frame.inFlight)
  let vk := vk.call (.acquireNextImage sc.frame.imageAvailable result)
  if result = .outOfDate || result = .suboptimal then
    (.invalidParam, 0xFFFFFFFF, { sc with currentImage := image }, vk)
  else (.success, image, { sc with currentImage := image }, vk)

/-- `lgx_gfx_swapchain_present`. -/
def Swapchain.present (sc : Swapchain) (vk : Vulkan) : LgxResult × Swapchain × Vulkan :=
  (.success, { sc with currentFrame := (sc.currentFrame + 1) % maxFramesInFlight },
    vk.call (.queuePresent sc.frame.renderFinished))

/-- `lgx_gfx_cmd_submit`: no semaphore is signalled, and no fence. -/
def cmdSubmit (accepted : Bool) (vk : Vulkan) : LgxResult × Vulkan :=
  if !accepted then (.invalidParam, vk)
  else (.success, (vk.call (.queueSubmit [] none)).call .queueWaitIdle)

end LgxRuntime.Graphics
