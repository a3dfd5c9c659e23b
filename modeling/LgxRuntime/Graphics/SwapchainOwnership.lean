import LgxRuntime.Graphics.Swapchain
import LgxRuntime.Lib.RegionLog

/-!
# Who owns the objects of a swapchain

Every object that is made for a swapchain belongs to it until it is destroyed.  What has been made and not
destroyed is told from the calls alone.  A resize that cannot make a new swapchain forgets the old one.
-/

namespace LgxRuntime.Graphics

/-! ## What has been made and not destroyed -/

/-- The call makes or destroys an object. -/
def VkCall.objectEvent : VkCall → Option (RegionLog.Event VkObject ℕ)
  | .create object handle _ => some (.acquired object handle)
  | .destroy object handle => some (.released object handle)
  | _ => none

/-- The calls that make or destroy objects, the latest first. -/
def objectEvents (log : List VkCall) : List (RegionLog.Event VkObject ℕ) :=
  log.filterMap VkCall.objectEvent

/-- The objects have been made and not destroyed, and no others. -/
def Owned (vk : Vulkan) (objects : List (VkObject × ℕ)) : Prop :=
  ∃ held, RegionLog.held (objectEvents vk.log) = some held ∧ held.Perm objects

/-- The objects that some handles stand for; a null handle stands for none. -/
def handles (object : VkObject) (hs : List ℕ) : List (VkObject × ℕ) :=
  (hs.filter (· ≠ 0)).map fun handle => (object, handle)

variable {vk vk' : Vulkan} {object : VkObject} {objects objects' rest : List (VkObject × ℕ)} {handle : ℕ}
  {c : VkCall} {sc : Swapchain}

theorem handles_cons (object : VkObject) (handle : ℕ) (hs : List ℕ) :
    handles object (handle :: hs) = handles object [handle] ++ handles object hs := by
  unfold handles
  rw [← List.map_append, ← List.filter_append]
  rfl

theorem handles_zero (object : VkObject) (n : ℕ) : handles object (List.replicate n 0) = [] := by
  simp [handles]

theorem handles_singleton (object : VkObject) {handle : ℕ} (h : handle ≠ 0) :
    handles object [handle] = [(object, handle)] := by
  simp [handles, h]

namespace Owned

theorem new : Owned .new [] :=
  ⟨[], rfl, List.Perm.refl []⟩

theorem perm (h : Owned vk objects) (hperm : objects.Perm objects') : Owned vk objects' := by
  obtain ⟨held, hheld, hobjects⟩ := h
  exact ⟨held, hheld, hobjects.trans hperm⟩

theorem call (h : Owned vk objects) (hc : c.objectEvent = none) : Owned (vk.call c) objects := by
  obtain ⟨held, hheld, hobjects⟩ := h
  refine ⟨held, ?_, hobjects⟩
  rw [Vulkan.call, objectEvents, List.filterMap_cons_none hc]
  exact hheld

theorem index (h : Owned vk objects) (i length : ℕ) : Owned (vk.index i length) objects := h

theorem create (h : Owned vk objects) (object : VkObject) (signalled : Bool) :
    Owned (vk.create object signalled).2 (handles object [(vk.create object signalled).1] ++ objects) := by
  obtain ⟨held, hheld, hobjects⟩ := h
  refine ⟨(object, vk.made + 1) :: held, ?_, ?_⟩
  · change RegionLog.held (.acquired object (vk.made + 1) :: objectEvents vk.log) = _
    rw [RegionLog.held, hheld]
    rfl
  · change ((object, vk.made + 1) :: held).Perm (handles object [vk.made + 1] ++ objects)
    rw [handles_singleton object (Nat.succ_ne_zero vk.made)]
    exact hobjects.cons _

theorem destroy (h : Owned vk (handles object [handle] ++ objects)) : Owned (vk.destroy object handle) objects := by
  by_cases hnull : handle = 0
  · rw [Vulkan.destroy, if_pos hnull]
    rw [hnull] at h
    exact h
  · rw [handles_singleton object hnull] at h
    obtain ⟨held, hheld, hobjects⟩ := h
    rw [Vulkan.destroy, if_neg hnull]
    have hmem : (object, handle) ∈ held := hobjects.mem_iff.mpr (List.mem_cons_self ..)
    refine ⟨held.erase (object, handle), ?_, ?_⟩
    · exact RegionLog.held_released hheld hmem
    · have herase := hobjects.erase (object, handle)
      rwa [List.cons_append, List.nil_append, List.erase_cons_head] at herase

/-- If nothing is owned any more, everything has been destroyed. -/
theorem settled (h : Owned vk []) : RegionLog.Settled (objectEvents vk.log) := by
  obtain ⟨held, hheld, hobjects⟩ := h
  rw [RegionLog.Settled, hheld, hobjects.eq_nil]

theorem settled_iff_nil (h : Owned vk objects) : RegionLog.Settled (objectEvents vk.log) ↔ objects = [] := by
  obtain ⟨held, hheld, hobjects⟩ := h
  rw [RegionLog.Settled, hheld, Option.some.injEq]
  constructor
  · rintro rfl
    exact hobjects.symm.eq_nil
  · rintro rfl
    exact hobjects.eq_nil

end Owned

/-! ## Bounds -/

@[simp] theorem inBounds_call (vk : Vulkan) (c : VkCall) : (vk.call c).inBounds = vk.inBounds := rfl

@[simp] theorem inBounds_create (vk : Vulkan) (object : VkObject) (signalled : Bool) :
    (vk.create object signalled).2.inBounds = vk.inBounds := rfl

@[simp] theorem inBounds_destroy (vk : Vulkan) (object : VkObject) (handle : ℕ) :
    (vk.destroy object handle).inBounds = vk.inBounds := by
  unfold Vulkan.destroy
  split_ifs <;> rfl

theorem inBounds_index (vk : Vulkan) (i length : ℕ) :
    (vk.index i length).inBounds = (vk.inBounds && decide (i < length)) := rfl

/-! ## Image views -/

theorem length_createImageViewsFrom (answers : ImagesOutcome) (images views n i : ℕ) (vk : Vulkan) :
    (createImageViewsFrom answers images views n i vk).2.1.length = n := by
  induction n generalizing i vk with
  | zero => rfl
  | succ n ih =>
      rw [createImageViewsFrom]
      split_ifs with hview
      · exact congrArg Nat.succ (ih ..)
      · exact List.length_replicate

/-- The views that are made are owned. -/
theorem owned_createImageViewsFrom (answers : ImagesOutcome) (images views n i : ℕ) (h : Owned vk objects) :
    Owned (createImageViewsFrom answers images views n i vk).2.2
      (handles .imageView (createImageViewsFrom answers images views n i vk).2.1 ++ objects) := by
  induction n generalizing i vk objects with
  | zero => exact h
  | succ n ih =>
      rw [createImageViewsFrom]
      split_ifs with hview
      · refine (ih (i + 1) (((h.index i images).index i views).create .imageView false)).perm ?_
        dsimp only
        rw [handles_cons .imageView _ (createImageViewsFrom ..).2.1, List.append_assoc]
        exact List.perm_append_comm_assoc ..
      · dsimp only
        rw [handles_zero]
        exact h

/-- With room for all images and views, every index is in bounds. -/
theorem inBounds_createImageViewsFrom (answers : ImagesOutcome) {images views n i : ℕ} (himages : i + n ≤ images)
    (hviews : i + n ≤ views) : (createImageViewsFrom answers images views n i vk).2.2.inBounds = vk.inBounds := by
  induction n generalizing i vk with
  | zero => rfl
  | succ n ih =>
      have hindex : ((vk.index i images).index i views).inBounds = vk.inBounds := by
        rw [inBounds_index, inBounds_index, decide_eq_true (by omega), decide_eq_true (by omega), Bool.and_true,
          Bool.and_true]
      rw [createImageViewsFrom]
      split_ifs
      · exact (ih (by omega) (by omega)).trans hindex
      · exact hindex

theorem not_inBounds_createImageViewsFrom (answers : ImagesOutcome) (images views n i : ℕ)
    (h : vk.inBounds = false) : (createImageViewsFrom answers images views n i vk).2.2.inBounds = false := by
  induction n generalizing i vk with
  | zero => exact h
  | succ n ih =>
      have hindex : ((vk.index i images).index i views).inBounds = false := by
        rw [inBounds_index, inBounds_index, h]
        rfl
      rw [createImageViewsFrom]
      split_ifs
      · exact ih _ hindex
      · exact hindex

/-- Without images, the first index is out of bounds. -/
theorem not_inBounds_of_noImages (answers : ImagesOutcome) {n : ℕ} (hn : n ≠ 0) (views : ℕ) :
    (createImageViewsFrom answers 0 views n 0 vk).2.2.inBounds = false := by
  obtain ⟨n, rfl⟩ := Nat.exists_eq_succ_of_ne_zero hn
  have hindex : ((vk.index 0 0).index 0 views).inBounds = false := by
    rw [inBounds_index, inBounds_index]
    simp
  rw [createImageViewsFrom]
  split_ifs
  · exact not_inBounds_createImageViewsFrom answers 0 views n 1 hindex
  · exact hindex

/-- The array of images is there if it is indexed. -/
def ImagesOutcome.fits (answers : ImagesOutcome) : Bool :=
  answers.imagesMemory || !answers.viewsMemory || answers.imageCount = 0

/-- The array of views is as long as `image_count` says. -/
def Swapchain.ViewsFit (sc : Swapchain) : Prop :=
  ∀ views, sc.imageViews = some views → views.length = sc.imageCount

/-- What `swapchain_create_image_views` does on images that have just been made. -/
structure MakesViews (sc : Swapchain) (answers : ImagesOutcome) (vk : Vulkan) (sc' : Swapchain) (vk' : Vulkan) :
    Prop where
  same : sc' = { sc with imageViews := sc'.imageViews }
  viewsFit : sc'.ViewsFit
  owned : ∀ objects, Owned vk objects → Owned vk' (handles .imageView (sc'.imageViews.getD []) ++ objects)
  inBounds : vk'.inBounds = (vk.inBounds && answers.fits)

theorem makesViews (sc : Swapchain) (answers : ImagesOutcome) (vk : Vulkan) (himages : sc.images = answers.images)
    (hcount : sc.imageCount = answers.imageCount) :
    MakesViews sc answers vk (sc.createImageViews answers vk).2.1 (sc.createImageViews answers vk).2.2 := by
  unfold Swapchain.createImageViews
  split_ifs with hmemory
  · refine ⟨rfl, by simp [Swapchain.ViewsFit], fun objects h => h, ?_⟩
    rw [ImagesOutcome.fits, hmemory, Bool.or_true, Bool.true_or, Bool.and_true]
  · refine ⟨rfl, ?_, fun objects h => owned_createImageViewsFrom answers _ _ _ 0 h, ?_⟩
    · rintro views hviews
      obtain rfl := Option.some.inj hviews
      exact length_createImageViewsFrom ..
    · have hviews : answers.viewsMemory = true := by simpa using hmemory
      dsimp only
      rw [himages, hcount, ImagesOutcome.images, ImagesOutcome.fits, hviews]
      by_cases hfits : answers.imagesMemory = true ∨ answers.imageCount = 0
      · have hroom : 0 + answers.imageCount ≤
            (if answers.imagesMemory = true then some answers.imageCount else none).getD 0 := by
          obtain hmade | hzero := hfits
          · simp [hmade]
          · simp [hzero]
        rw [inBounds_createImageViewsFrom answers hroom (by omega)]
        obtain hmade | hzero := hfits
        · simp [hmade]
        · simp [hzero]
      · obtain ⟨hmade, hzero⟩ := not_or.mp hfits
        rw [if_neg hmade, Option.getD_none, not_inBounds_of_noImages answers hzero]
        simp [hmade, hzero]

/-- The views are destroyed. -/
theorem owned_destroyImageViewsFrom (views : List ℕ) {n i : ℕ} (hlength : i + n = views.length)
    (h : Owned vk (handles .imageView (views.drop i) ++ objects)) :
    Owned (destroyImageViewsFrom views n i vk) objects ∧
      (destroyImageViewsFrom views n i vk).inBounds = vk.inBounds := by
  induction n generalizing i vk with
  | zero =>
      rw [List.drop_eq_nil_of_le (by omega)] at h
      exact ⟨h, rfl⟩
  | succ n ih =>
      have hlt : i < views.length := by omega
      have hget : views.getD i 0 = views[i] := by
        rw [List.getD_eq_getElem?_getD, List.getElem?_eq_getElem hlt]
        rfl
      rw [List.drop_eq_getElem_cons hlt, handles_cons, List.append_assoc, ← hget] at h
      obtain ⟨howned, hbounds⟩ := ih (by omega) ((h.index i views.length).destroy)
      refine ⟨howned, hbounds.trans ?_⟩
      rw [inBounds_destroy, inBounds_index, decide_eq_true hlt, Bool.and_true]

theorem owned_destroyImageViews (hviews : sc.ViewsFit)
    (h : Owned vk (handles .imageView (sc.imageViews.getD []) ++ objects)) :
    Owned (sc.destroyImageViews vk) objects ∧ (sc.destroyImageViews vk).inBounds = vk.inBounds := by
  unfold Swapchain.destroyImageViews
  cases hnone : sc.imageViews with
  | none =>
      rw [hnone] at h
      exact ⟨h, rfl⟩
  | some views =>
      rw [hnone] at h
      exact owned_destroyImageViewsFrom views ((Nat.zero_add _).trans (hviews views hnone).symm) h

/-! ## Frames -/

/-- The objects of a frame. -/
def FrameSync.belongings (frame : FrameSync) : List (VkObject × ℕ) :=
  handles .semaphore [frame.imageAvailable] ++
    (handles .semaphore [frame.renderFinished] ++ handles .fence [frame.inFlight])

theorem belongings_null (n : ℕ) : (List.replicate n FrameSync.null).flatMap FrameSync.belongings = [] := by
  induction n with
  | zero => rfl
  | succ n ih =>
      rw [List.replicate_succ, List.flatMap_cons, ih, List.append_nil]
      rfl

/-- What is made for the frames is owned. -/
theorem owned_createSyncFrom (answers : CreateOutcome) (n i : ℕ) (h : Owned vk objects) :
    Owned (createSyncFrom answers n i vk).2.2
        ((createSyncFrom answers n i vk).2.1.flatMap FrameSync.belongings ++ objects) ∧
      (createSyncFrom answers n i vk).2.2.inBounds = vk.inBounds := by
  induction n generalizing i vk objects with
  | zero => exact ⟨h, rfl⟩
  | succ n ih =>
      have havailable := h.create .semaphore false
      have hfinished := havailable.create .semaphore false
      have hfence := hfinished.create .fence true
      rw [createSyncFrom]
      split_ifs
      · refine ⟨?_, rfl⟩
        dsimp only
        rw [belongings_null]
        exact h
      · refine ⟨?_, rfl⟩
        dsimp only
        rw [List.flatMap_cons, belongings_null, List.append_nil]
        exact havailable
      · refine ⟨hfinished.perm ?_, rfl⟩
        dsimp only
        rw [List.flatMap_cons, belongings_null, List.append_nil, ← List.append_assoc]
        exact List.perm_append_comm.append_right _
      · obtain ⟨howned, hbounds⟩ := ih (i + 1) hfence
        refine ⟨howned.perm ?_, hbounds⟩
        apply List.perm_iff_count.mpr
        intro entry
        simp only [List.flatMap_cons, FrameSync.belongings, List.count_append]
        omega

theorem FrameSync.owned_destroy (frame : FrameSync) (h : Owned vk (frame.belongings ++ objects)) :
    Owned (frame.destroy vk) objects ∧ (frame.destroy vk).inBounds = vk.inBounds := by
  rw [FrameSync.belongings, List.append_assoc, List.append_assoc] at h
  refine ⟨h.destroy.destroy.destroy, ?_⟩
  unfold FrameSync.destroy
  rw [inBounds_destroy, inBounds_destroy, inBounds_destroy]

theorem owned_destroyFrames (frames : List FrameSync)
    (h : Owned vk (frames.flatMap FrameSync.belongings ++ objects)) :
    Owned (frames.foldl (fun vk frame => frame.destroy vk) vk) objects ∧
      (frames.foldl (fun vk frame => frame.destroy vk) vk).inBounds = vk.inBounds := by
  induction frames generalizing vk with
  | nil => exact ⟨h, rfl⟩
  | cons frame frames ih =>
      rw [List.flatMap_cons, List.append_assoc] at h
      obtain ⟨howned, hbounds⟩ := frame.owned_destroy h
      obtain ⟨hrest, hrestBounds⟩ := ih howned
      exact ⟨hrest, hrestBounds.trans hbounds⟩

/-! ## Swapchains -/

/-- The objects of a swapchain. -/
def Swapchain.belongings (sc : Swapchain) : List (VkObject × ℕ) :=
  sc.frames.flatMap FrameSync.belongings ++
    (handles .imageView (sc.imageViews.getD []) ++
      (handles .swapchain [sc.swapchain] ++ handles .surface [sc.surface]))

/-- The swapchain owns all objects but those that have leaked, and is usable unless one has. -/
structure Swapchain.Owns (sc : Swapchain) (vk : Vulkan) (leaked : List (VkObject × ℕ)) : Prop where
  owned : Owned vk (sc.belongings ++ leaked)
  viewsFit : sc.ViewsFit
  usable : leaked = [] → sc.swapchain ≠ 0

variable {leaked : List (VkObject × ℕ)}

/-- A swapchain that is destroyed leaves what has leaked. -/
theorem owned_destroy (hviews : sc.ViewsFit) (h : Owned vk (sc.belongings ++ leaked)) :
    Owned (sc.destroy vk) leaked ∧ (sc.destroy vk).inBounds = vk.inBounds := by
  have hcall : Owned (vk.call .deviceWaitIdle) (sc.belongings ++ leaked) := h.call rfl
  simp only [Swapchain.belongings, List.append_assoc] at hcall
  obtain ⟨hframes, hframesBounds⟩ := owned_destroyFrames sc.frames hcall
  obtain ⟨himages, himagesBounds⟩ := owned_destroyImageViews hviews hframes
  refine ⟨himages.destroy.destroy, ?_⟩
  unfold Swapchain.destroy
  dsimp only
  rw [inBounds_destroy, inBounds_destroy, himagesBounds, hframesBounds, inBounds_call]

/-! ## Making a swapchain -/

/-- The image views and what belongs to the frames can be made. -/
def CreateOutcome.viewsAndSyncMade (answers : CreateOutcome) : Bool :=
  answers.images.viewsMemory && (List.range answers.images.imageCount).all answers.images.imageView &&
    (List.range maxFramesInFlight).all fun i =>
      answers.imageAvailable i && answers.renderFinished i && answers.inFlight i

/-- Everything can be made that belongs to the swapchain. -/
def CreateOutcome.allMade (answers : CreateOutcome) : Bool :=
  answers.surface && answers.swapchain && answers.viewsAndSyncMade

/-- The arrays that are indexed while a swapchain is made are there. -/
def CreateOutcome.fits (answers : CreateOutcome) : Bool :=
  !answers.surface || !answers.swapchain || answers.images.fits

theorem createImageViewsFrom_fst (answers : ImagesOutcome) (images views n i : ℕ) (vk : Vulkan) :
    (createImageViewsFrom answers images views n i vk).1 = (List.range' i n).all answers.imageView := by
  induction n generalizing i vk with
  | zero => rfl
  | succ n ih =>
      rw [createImageViewsFrom, List.range'_succ, List.all_cons]
      split_ifs with hview
      · rw [hview, Bool.true_and]
        exact ih ..
      · rw [Bool.not_eq_true] at hview
        rw [hview, Bool.false_and]

theorem createSyncFrom_fst (answers : CreateOutcome) (n i : ℕ) (vk : Vulkan) :
    (createSyncFrom answers n i vk).1 = (List.range' i n).all fun i =>
      answers.imageAvailable i && answers.renderFinished i && answers.inFlight i := by
  induction n generalizing i vk with
  | zero => rfl
  | succ n ih =>
      rw [createSyncFrom, List.range'_succ, List.all_cons]
      split_ifs with havailable hfinished hfence
      · simp_all
      · simp_all
      · simp_all
      · rw [ih]
        simp_all

theorem createImageViews_fst (sc : Swapchain) (answers : ImagesOutcome) (vk : Vulkan) :
    (sc.createImageViews answers vk).1 = .success ↔
      answers.viewsMemory = true ∧ (List.range sc.imageCount).all answers.imageView = true := by
  unfold Swapchain.createImageViews
  split_ifs with hmemory
  · simp_all
  · dsimp only
    rw [createImageViewsFrom_fst, ← List.range_eq_range']
    split_ifs <;> simp_all

theorem createSync_fst (answers : CreateOutcome) (vk : Vulkan) :
    (sc.createSync answers vk).1 = .success ↔
      ((List.range maxFramesInFlight).all fun i =>
        answers.imageAvailable i && answers.renderFinished i && answers.inFlight i) = true := by
  unfold Swapchain.createSync
  dsimp only
  rw [createSyncFrom_fst, ← List.range_eq_range']
  split_ifs <;> simp_all

/-- What is made after the swapchain itself belongs to it, whether everything can be made or not. -/
theorem createViewsAndSync_owns (width height : UInt32) {surface swapchain : ℕ} (answers : CreateOutcome)
    (hswapchain : swapchain ≠ 0)
    (h : Owned vk (handles .swapchain [swapchain] ++ handles .surface [surface])) :
    ((newSwapchain width height surface swapchain answers.images).createViewsAndSync answers vk).2.1.Owns
        ((newSwapchain width height surface swapchain answers.images).createViewsAndSync answers vk).2.2 [] ∧
      ((newSwapchain width height surface swapchain answers.images).createViewsAndSync answers vk).2.2.inBounds =
        (vk.inBounds && answers.images.fits) := by
  obtain ⟨hsame, hfit, howned, hbounds⟩ :=
    makesViews (newSwapchain width height surface swapchain answers.images) answers.images vk rfl rfl
  unfold Swapchain.createViewsAndSync
  generalize (newSwapchain width height surface swapchain answers.images).createImageViews answers.images vk =
    views at hsame hfit howned hbounds ⊢
  obtain ⟨result, sc', vk'⟩ := views
  dsimp only at hsame hfit howned hbounds ⊢
  have hviews := howned _ h
  have hsurface : sc'.surface = surface := by rw [hsame]; rfl
  have hhandle : sc'.swapchain = swapchain := by rw [hsame]; rfl
  split_ifs with hsuccess
  · obtain ⟨hsync, hsyncBounds⟩ := owned_createSyncFrom answers maxFramesInFlight 0 hviews
    refine ⟨⟨hsync.perm ?_, hfit, fun _ => hhandle.trans_ne hswapchain⟩, hsyncBounds.trans hbounds⟩
    rw [List.append_nil, ← hsurface, ← hhandle]
    rfl
  · have hframes : sc'.frames = List.replicate maxFramesInFlight .null := by rw [hsame]; rfl
    refine ⟨⟨hviews.perm ?_, hfit, fun _ => hhandle.trans_ne hswapchain⟩, hbounds⟩
    rw [List.append_nil, Swapchain.belongings, hframes, belongings_null, hsurface, hhandle]
    rfl

theorem createViewsAndSync_fst (sc : Swapchain) (answers : CreateOutcome) (vk : Vulkan)
    (hcount : sc.imageCount = answers.images.imageCount) :
    (sc.createViewsAndSync answers vk).1 = .success ↔ answers.viewsAndSyncMade = true := by
  have hviews := createImageViews_fst sc answers.images vk
  unfold Swapchain.createViewsAndSync CreateOutcome.viewsAndSyncMade
  dsimp only
  rw [Bool.and_eq_true, Bool.and_eq_true, ← hcount, ← hviews]
  split_ifs with hsuccess
  · rw [createSync_fst]
    exact (and_iff_right hsuccess).symm
  · exact iff_of_false hsuccess fun hall => hsuccess hall.1

/-- What `lgx_gfx_swapchain_create` leaves: a swapchain that owns everything, or nothing. -/
structure Creates (answers : CreateOutcome) (created : Option Swapchain) (vk : Vulkan) : Prop where
  isSome : created.isSome = answers.allMade
  inBounds : vk.inBounds = answers.fits
  ofNone : created = none → Owned vk []
  ofSome : ∀ sc, created = some sc → sc.Owns vk []

theorem creates_none {answers : CreateOutcome} (hmade : answers.allMade = false) (hbounds : vk.inBounds = answers.fits)
    (h : Owned vk []) : Creates answers none vk := by
  refine ⟨hmade.symm, hbounds, fun _ => h, ?_⟩
  intro sc hsc
  exact absurd hsc (by simp)

theorem creates_some {answers : CreateOutcome} (hmade : answers.allMade = true) (hbounds : vk.inBounds = answers.fits)
    (h : sc.Owns vk []) : Creates answers (some sc) vk := by
  refine ⟨hmade.symm, hbounds, fun hnone => absurd hnone (by simp), ?_⟩
  intro sc' hsc
  rwa [← Option.some.inj hsc]

theorem fits_of_swapchain {answers : CreateOutcome} (hsurface : answers.surface = true)
    (hswapchain : answers.swapchain = true) : answers.fits = answers.images.fits := by
  rw [CreateOutcome.fits, hsurface, hswapchain]
  rfl

theorem allMade_of_swapchain {answers : CreateOutcome} (hsurface : answers.surface = true)
    (hswapchain : answers.swapchain = true) : answers.allMade = answers.viewsAndSyncMade := by
  rw [CreateOutcome.allMade, hsurface, hswapchain]
  rfl

theorem swapchainCreate_creates (width height : UInt32) (answers : CreateOutcome) :
    Creates answers (swapchainCreate width height answers .new).1 (swapchainCreate width height answers .new).2 := by
  have hsurface := Owned.new.create .surface false
  unfold swapchainCreate
  split_ifs with hnoSurface hnoSwapchain
  · rw [Bool.not_eq_true'] at hnoSurface
    apply creates_none
    · rw [CreateOutcome.allMade, hnoSurface]
      rfl
    · rw [CreateOutcome.fits, hnoSurface]
      rfl
    · exact Owned.new
  · rw [Bool.not_eq_true'] at hnoSwapchain
    apply creates_none
    · rw [CreateOutcome.allMade, hnoSwapchain, Bool.and_false]
      rfl
    · rw [CreateOutcome.fits, hnoSwapchain, inBounds_destroy, Bool.not_false, Bool.or_true, Bool.true_or]
      rfl
    · exact hsurface.destroy
  · rw [Bool.not_eq_true', Bool.not_eq_false] at hnoSurface hnoSwapchain
    rw [List.append_nil] at hsurface
    obtain ⟨howns, hbounds⟩ := createViewsAndSync_owns width height answers
      (Nat.succ_ne_zero _) (hsurface.create .swapchain false)
    have hfits : answers.images.fits = answers.fits := (fits_of_swapchain hnoSurface hnoSwapchain).symm
    have hsuccess := createViewsAndSync_fst
      (newSwapchain width height (Vulkan.new.create .surface false).1
        ((Vulkan.new.create .surface false).2.create .swapchain false).1 answers.images) answers
      ((Vulkan.new.create .surface false).2.create .swapchain false).2 rfl
    rw [← allMade_of_swapchain hnoSurface hnoSwapchain] at hsuccess
    dsimp only
    split_ifs with hmade
    · exact creates_some (hsuccess.mp hmade) (hbounds.trans hfits) howns
    · obtain ⟨howned, hdestroyed⟩ := owned_destroy howns.viewsFit howns.owned
      have hnone : answers.allMade = false := by
        rw [Bool.eq_false_iff]
        intro hall
        exact hmade (hsuccess.mpr hall)
      exact creates_none hnone ((hdestroyed.trans hbounds).trans hfits) howned

/-! ## Resizing a swapchain -/

/-- A call of `lgx_gfx_swapchain_resize`, with what Vulkan answers. -/
structure Resize where
  width : UInt32
  height : UInt32
  answers : ResizeOutcome

/-- If the resize is accepted, a new swapchain can be made, and the arrays that are indexed are there. -/
def Resize.sound (resize : Resize) : Bool :=
  resize.width = 0 || resize.height = 0 || (resize.answers.swapchain && resize.answers.images.fits)

/-- Nothing has leaked, and every index was in bounds. -/
def Clean (vk : Vulkan) (leaked : List (VkObject × ℕ)) : Prop :=
  leaked = [] ∧ vk.inBounds = true

/-- What is left of a swapchain when its image views have been destroyed. -/
theorem Swapchain.Owns.destroyImageViews (h : sc.Owns vk leaked) :
    Owned (sc.destroyImageViews (vk.call .deviceWaitIdle))
        (sc.frames.flatMap FrameSync.belongings ++
          (handles .swapchain [sc.swapchain] ++ (handles .surface [sc.surface] ++ leaked))) ∧
      (sc.destroyImageViews (vk.call .deviceWaitIdle)).inBounds = vk.inBounds := by
  have hcall : Owned (vk.call .deviceWaitIdle) (handles .imageView (sc.imageViews.getD []) ++
      (sc.frames.flatMap FrameSync.belongings ++
        (handles .swapchain [sc.swapchain] ++ (handles .surface [sc.surface] ++ leaked)))) := by
    refine (h.owned.call rfl).perm ?_
    simp only [Swapchain.belongings, List.append_assoc]
    exact List.perm_append_comm_assoc ..
  exact owned_destroyImageViews h.viewsFit hcall

/-- A resize that cannot make a new swapchain forgets the old one. -/
theorem resize_forgets (h : sc.Owns vk leaked) (width height : UInt32) :
    Swapchain.Owns { sc with
      imageViews := none, images := none, width := width, height := height, swapchain := 0 }
      (sc.destroyImageViews (vk.call .deviceWaitIdle)) (handles .swapchain [sc.swapchain] ++ leaked) ∧
      handles .swapchain [sc.swapchain] ++ leaked ≠ [] := by
  have hleaks : handles .swapchain [sc.swapchain] ++ leaked ≠ [] := by
    intro hnil
    obtain ⟨hswapchain, hleaked⟩ := List.append_eq_nil_iff.mp hnil
    rw [handles_singleton .swapchain (h.usable hleaked)] at hswapchain
    exact List.cons_ne_nil _ _ hswapchain
  obtain ⟨howned, -⟩ := h.destroyImageViews
  refine ⟨⟨howned.perm ?_, by simp [Swapchain.ViewsFit], fun hnil => absurd hnil hleaks⟩, hleaks⟩
  apply List.perm_iff_count.mpr
  intro entry
  simp only [Swapchain.belongings, List.count_append, Option.getD_none]
  have hnone : (handles .imageView []).count entry = 0 := rfl
  have hnull : (handles .swapchain [0]).count entry = 0 := rfl
  omega

/-- A resize that makes a new swapchain destroys the old one. -/
theorem resize_replaces (sc' : Swapchain) {answers : ImagesOutcome} (h : sc.Owns vk leaked)
    (hsame : sc' = { sc with
      imageViews := none, images := answers.images, imageCount := answers.imageCount, width := sc'.width
      height := sc'.height, swapchain := sc'.swapchain })
    (hswapchain : sc'.swapchain =
      ((sc.destroyImageViews (vk.call .deviceWaitIdle)).create .swapchain false).1) {vk' : Vulkan}
    (hvk : vk' = ((sc.destroyImageViews (vk.call .deviceWaitIdle)).create .swapchain false).2.destroy .swapchain
      sc.swapchain) :
    (sc'.createImageViews answers vk').2.1.Owns (sc'.createImageViews answers vk').2.2 leaked ∧
      (sc'.createImageViews answers vk').2.2.inBounds = (vk.inBounds && answers.fits) := by
  obtain ⟨hleft, hleftBounds⟩ := h.destroyImageViews
  have hnew : Owned vk' (handles .swapchain [sc'.swapchain] ++
      (sc.frames.flatMap FrameSync.belongings ++ (handles .surface [sc.surface] ++ leaked))) := by
    rw [hvk, hswapchain]
    apply Owned.destroy
    refine (hleft.create .swapchain false).perm ?_
    apply List.perm_iff_count.mpr
    intro entry
    simp only [List.count_append]
    omega
  obtain ⟨hsame', hfit, howned, hbounds⟩ := makesViews sc' answers vk' (by rw [hsame]) (by rw [hsame])
  have hframes : (sc'.createImageViews answers vk').2.1.frames = sc.frames := by rw [hsame', hsame]
  have hsurface : (sc'.createImageViews answers vk').2.1.surface = sc.surface := by rw [hsame', hsame]
  have hhandle : (sc'.createImageViews answers vk').2.1.swapchain = sc'.swapchain := by rw [hsame']
  refine ⟨⟨(howned _ hnew).perm ?_, hfit, fun _ => ?_⟩, ?_⟩
  · apply List.perm_iff_count.mpr
    intro entry
    simp only [Swapchain.belongings, hframes, hsurface, hhandle, List.count_append]
    omega
  · rw [hhandle, hswapchain]
    exact Nat.succ_ne_zero _
  · rw [hbounds, hvk, inBounds_destroy, inBounds_create, hleftBounds]

/-- A resize keeps what it owns, and stays clean if it is sound. -/
theorem resize_owns (resize : Resize) (h : sc.Owns vk leaked) :
    ∃ leaked',
      (sc.resize resize.width resize.height resize.answers vk).2.1.Owns
          (sc.resize resize.width resize.height resize.answers vk).2.2 leaked' ∧
        (Clean (sc.resize resize.width resize.height resize.answers vk).2.2 leaked' ↔
          Clean vk leaked ∧ resize.sound = true) := by
  unfold Swapchain.resize
  split_ifs with hsize hfailed
  · refine ⟨leaked, h, ?_⟩
    have hsound : resize.sound = true := by
      rw [Resize.sound, hsize, Bool.true_or]
    exact (and_iff_left hsound).symm
  · obtain ⟨howns, hleaks⟩ := resize_forgets h resize.width resize.height
    refine ⟨_, howns, iff_of_false (fun hclean => hleaks hclean.1) ?_⟩
    rintro ⟨-, hsound⟩
    rw [Bool.not_eq_true'] at hfailed
    rw [Bool.not_eq_true] at hsize
    rw [Resize.sound, hsize, hfailed] at hsound
    exact absurd hsound (by simp)
  · obtain ⟨howns, hbounds⟩ := resize_replaces
      { sc with
        imageViews := none, images := resize.answers.images.images
        imageCount := resize.answers.images.imageCount, width := resize.width, height := resize.height
        swapchain := ((sc.destroyImageViews (vk.call .deviceWaitIdle)).create .swapchain false).1 } h rfl rfl rfl
    refine ⟨leaked, howns, ?_⟩
    have hsound : resize.sound = resize.answers.images.fits := by
      rw [Bool.not_eq_true', Bool.not_eq_false] at hfailed
      rw [Bool.not_eq_true] at hsize
      rw [Resize.sound, hsize, hfailed]
      rfl
    unfold Clean
    rw [hsound, and_assoc, ← Bool.and_eq_true, ← hbounds]

/-! ## The life of a swapchain -/

/-- The calls of `lgx_gfx_swapchain_resize`, the first one first. -/
def Swapchain.resizeAll (sc : Swapchain) : List Resize → Vulkan → Swapchain × Vulkan
  | [], vk => (sc, vk)
  | resize :: resizes, vk =>
      let resized := sc.resize resize.width resize.height resize.answers vk
      resized.2.1.resizeAll resizes resized.2.2

/-- A swapchain is made, resized any number of times, and destroyed. -/
def lifetime (width height : UInt32) (answers : CreateOutcome) (resizes : List Resize) : Vulkan :=
  match swapchainCreate width height answers .new with
  | (none, vk) => vk
  | (some sc, vk) => (sc.resizeAll resizes vk).1.destroy (sc.resizeAll resizes vk).2

/-- Every object that was made has been destroyed exactly once, and every index was in bounds. -/
def Accounted (vk : Vulkan) : Prop :=
  RegionLog.Settled (objectEvents vk.log) ∧ vk.inBounds = true

instance (vk : Vulkan) : Decidable (Accounted vk) :=
  inferInstanceAs (Decidable (_ ∧ _))

/-- By `resize_owns`, along the list of resizes. -/
theorem resizeAll_owns (resizes : List Resize) (h : sc.Owns vk leaked) :
    ∃ leaked',
      (sc.resizeAll resizes vk).1.Owns (sc.resizeAll resizes vk).2 leaked' ∧
        (Clean (sc.resizeAll resizes vk).2 leaked' ↔
          Clean vk leaked ∧ ∀ resize ∈ resizes, resize.sound = true) := by
  induction resizes generalizing sc vk leaked with
  | nil => exact ⟨leaked, h, by simp [Swapchain.resizeAll]⟩
  | cons resize resizes ih =>
      obtain ⟨leaked', howns, hclean⟩ := resize_owns resize h
      obtain ⟨leaked'', hrest, hrestClean⟩ := ih howns
      refine ⟨leaked'', hrest, hrestClean.trans ?_⟩
      rw [hclean, List.forall_mem_cons, and_assoc]

theorem accounted_iff_clean (h : Owned vk leaked) : Accounted vk ↔ Clean vk leaked := by
  unfold Accounted Clean
  rw [h.settled_iff_nil]

/-- Exactly what was made is destroyed, and every index is in bounds, if and only if the arrays that
`lgx_gfx_swapchain_create` indexes are there, and every resize of the swapchain that it makes is sound. -/
theorem lifetime_accounted_iff (width height : UInt32) (answers : CreateOutcome) (resizes : List Resize) :
    Accounted (lifetime width height answers resizes) ↔
      answers.fits = true ∧ (answers.allMade = true → ∀ resize ∈ resizes, resize.sound = true) := by
  obtain ⟨hsome, hbounds, hnone, howns⟩ := swapchainCreate_creates width height answers
  unfold lifetime
  generalize swapchainCreate width height answers .new = created at hsome hbounds hnone howns ⊢
  obtain ⟨_ | sc, vk⟩ := created
  · have hmade : answers.allMade = false := hsome.symm
    rw [accounted_iff_clean (hnone rfl), Clean, hbounds, hmade]
    simp
  · have hmade : answers.allMade = true := hsome.symm
    obtain ⟨leaked, hall, hclean⟩ := resizeAll_owns resizes (howns sc rfl)
    obtain ⟨hleft, hleftBounds⟩ := owned_destroy hall.viewsFit hall.owned
    dsimp only at hbounds ⊢
    rw [accounted_iff_clean hleft, hmade]
    rw [Clean, hleftBounds, ← Clean, hclean, Clean, hbounds]
    simp

example : Accounted (lifetime 800 600 everythingMade [⟨640, 480, true, twoImages⟩]) := by
  decide

/-- A resize that cannot make a swapchain, and a first array of images for which there is no memory. -/
theorem not_accounted_failedResize :
    ¬ Accounted (lifetime 800 600 everythingMade [⟨640, 480, false, twoImages⟩]) ∧
      ¬ Accounted (lifetime 800 600 { everythingMade with images := { twoImages with imagesMemory := false } }
        []) := by
  decide

end LgxRuntime.Graphics
