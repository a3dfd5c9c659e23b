import LgxRuntime.Graphics.Swapchain
import Mathlib.Data.List.Induction

/-!
# Frame pacing

`lgx_gfx_swapchain_acquire` waits for the fence of the current frame and resets it, and
`lgx_gfx_swapchain_present` waits for the semaphore of the current frame.  `lgx_gfx_cmd_submit` names neither,
so that a fence is signalled by its creation alone and a semaphore never.
-/

namespace LgxRuntime.Graphics

/-! ## What is signalled -/

/-- The call signals the fence, now or when the submission is done. -/
def VkCall.signalsFence (fence : ℕ) : VkCall → Bool
  | .create .fence handle signalled => handle = fence && signalled
  | .queueSubmit _ named => named = some fence
  | _ => false

/-- The fence is signalled after the calls, or a submission that is pending will signal it: it has not been
reset since.  The latest call comes first. -/
def fenceReady (fence : ℕ) : List VkCall → Bool
  | [] => false
  | c :: log => c.signalsFence fence || (c ≠ .resetFence fence && fenceReady fence log)

/-- The call submits work that signals the semaphore. -/
def VkCall.signalsSemaphore (semaphore : ℕ) : VkCall → Bool
  | .queueSubmit signals _ => signals.contains semaphore
  | _ => false

/-- A submission has been made that signals the semaphore, and it has not been waited on since. -/
def semaphoreReady (semaphore : ℕ) : List VkCall → Bool
  | [] => false
  | c :: log => c.signalsSemaphore semaphore || (c ≠ .queuePresent semaphore && semaphoreReady semaphore log)

/-- What the call waits for has been signalled, or will be. -/
def VkCall.ready (log : List VkCall) : VkCall → Bool
  | .waitForFence fence => fenceReady fence log
  | .queuePresent semaphore => semaphoreReady semaphore log
  | _ => true

/-- No call waits for something that is not signalled. -/
def paced : List VkCall → Bool
  | [] => true
  | c :: log => c.ready log && paced log

/-- The call neither waits for a fence or a semaphore nor changes one, and submits nothing. -/
def VkCall.quiet : VkCall → Bool
  | .create object _ _ => object ≠ .fence
  | .destroy _ _ => true
  | .acquireNextImage _ _ => true
  | .queueWaitIdle => true
  | .deviceWaitIdle => true
  | _ => false

/-- The call is quiet, or makes a fence. -/
def VkCall.building : VkCall → Bool
  | .create _ _ _ => true
  | c => c.quiet

/-- Only calls with `P` have been made in between. -/
def Adds (P : VkCall → Bool) (vk vk' : Vulkan) : Prop :=
  ∃ calls, vk'.log = calls ++ vk.log ∧ ∀ c ∈ calls, P c = true

variable {P Q : VkCall → Bool} {vk vk' vk'' : Vulkan} {log calls : List VkCall} {c : VkCall}
  {fence semaphore : ℕ} {sc : Swapchain}

namespace Adds

theorem refl (P : VkCall → Bool) (vk : Vulkan) : Adds P vk vk :=
  ⟨[], rfl, by simp⟩

theorem trans (h : Adds P vk vk') (h' : Adds P vk' vk'') : Adds P vk vk'' := by
  obtain ⟨calls, hlog, hcalls⟩ := h
  obtain ⟨calls', hlog', hcalls'⟩ := h'
  refine ⟨calls' ++ calls, by rw [hlog', hlog, List.append_assoc], fun c hc => ?_⟩
  obtain hc | hc := List.mem_append.mp hc
  · exact hcalls' c hc
  · exact hcalls c hc

theorem mono (h : Adds P vk vk') (himp : ∀ c, P c = true → Q c = true) : Adds Q vk vk' := by
  obtain ⟨calls, hlog, hcalls⟩ := h
  exact ⟨calls, hlog, fun c hc => himp c (hcalls c hc)⟩

theorem call (hc : P c = true) (vk : Vulkan) : Adds P vk (vk.call c) :=
  ⟨[c], rfl, by simp [hc]⟩

theorem create {object : VkObject} {signalled : Bool} (hc : ∀ handle, P (.create object handle signalled) = true)
    (vk : Vulkan) : Adds P vk (vk.create object signalled).2 :=
  ⟨[_], rfl, by simp [hc]⟩

theorem destroy {object : VkObject} (hc : ∀ handle, P (.destroy object handle) = true) (vk : Vulkan)
    (handle : ℕ) : Adds P vk (vk.destroy object handle) := by
  unfold Vulkan.destroy
  split_ifs
  · exact refl P vk
  · exact call (hc handle) vk

theorem index (P : VkCall → Bool) (vk : Vulkan) (i length : ℕ) : Adds P vk (vk.index i length) :=
  ⟨[], rfl, by simp⟩

theorem mem (h : Adds P vk vk') (hc : c ∈ vk.log) : c ∈ vk'.log := by
  obtain ⟨calls, hlog, -⟩ := h
  rw [hlog]
  exact List.mem_append_right _ hc

/-- What holds of the calls in between and before holds of all. -/
theorem all (h : Adds P vk vk') (hbefore : ∀ c ∈ vk.log, P c = true) : ∀ c ∈ vk'.log, P c = true := by
  obtain ⟨calls, hlog, hcalls⟩ := h
  rw [hlog]
  intro c hc
  obtain hc | hc := List.mem_append.mp hc
  · exact hcalls c hc
  · exact hbefore c hc

end Adds

/-! ## Which calls are made -/

theorem adds_createImageViewsFrom (answers : ImagesOutcome) (images views n i : ℕ) (vk : Vulkan) :
    Adds VkCall.quiet vk (createImageViewsFrom answers images views n i vk).2.2 := by
  induction n generalizing i vk with
  | zero => exact Adds.refl _ vk
  | succ n ih =>
      have hindex : Adds VkCall.quiet vk ((vk.index i images).index i views) :=
        (Adds.index _ _ _ _).trans (Adds.index _ _ _ _)
      rw [createImageViewsFrom]
      split_ifs with hview
      · exact (hindex.trans (Adds.create (fun _ => rfl) _)).trans (ih _ _)
      · exact hindex

theorem adds_createImageViews (sc : Swapchain) (answers : ImagesOutcome) (vk : Vulkan) :
    Adds VkCall.quiet vk (sc.createImageViews answers vk).2.2 := by
  unfold Swapchain.createImageViews
  split_ifs
  · exact Adds.refl _ vk
  · exact adds_createImageViewsFrom ..

theorem adds_destroyImageViewsFrom (views : List ℕ) (n i : ℕ) (vk : Vulkan) :
    Adds VkCall.quiet vk (destroyImageViewsFrom views n i vk) := by
  induction n generalizing i vk with
  | zero => exact Adds.refl _ vk
  | succ n ih =>
      rw [destroyImageViewsFrom]
      exact ((Adds.index _ vk _ _).trans (Adds.destroy (fun _ => rfl) _ _)).trans (ih _ _)

theorem adds_destroyImageViews (sc : Swapchain) (vk : Vulkan) :
    Adds VkCall.quiet vk (sc.destroyImageViews vk) := by
  unfold Swapchain.destroyImageViews
  cases sc.imageViews with
  | none => exact Adds.refl _ vk
  | some views => exact adds_destroyImageViewsFrom ..

theorem adds_resize (sc : Swapchain) (width height : UInt32) (answers : ResizeOutcome) (vk : Vulkan) :
    Adds VkCall.quiet vk (sc.resize width height answers vk).2.2 := by
  have hviews : Adds VkCall.quiet vk (sc.destroyImageViews (vk.call .deviceWaitIdle)) :=
    (Adds.call rfl vk).trans (adds_destroyImageViews sc _)
  unfold Swapchain.resize
  split_ifs
  · exact Adds.refl _ vk
  · exact hviews
  · exact ((hviews.trans (Adds.create (fun _ => rfl) _)).trans (Adds.destroy (fun _ => rfl) _ _)).trans
      (adds_createImageViews ..)

theorem building_of_quiet (c : VkCall) (h : c.quiet = true) : c.building = true := by
  cases c with
  | create object handle signalled => rfl
  | _ => exact h

theorem building_create (object : VkObject) (handle : ℕ) (signalled : Bool) :
    (VkCall.create object handle signalled).building = true := rfl

/-- If the loop gets to its end, each frame has a fence that was created signalled. -/
theorem createSyncFrom_spec (answers : CreateOutcome) (n i : ℕ) (vk : Vulkan) :
    Adds VkCall.building vk (createSyncFrom answers n i vk).2.2 ∧
      ((createSyncFrom answers n i vk).1 = true →
        (createSyncFrom answers n i vk).2.1.length = n ∧
        ∀ frame ∈ (createSyncFrom answers n i vk).2.1,
          .create .fence frame.inFlight true ∈ (createSyncFrom answers n i vk).2.2.log) := by
  induction n generalizing i vk with
  | zero => exact ⟨Adds.refl _ vk, fun _ => ⟨rfl, by simp [createSyncFrom]⟩⟩
  | succ n ih =>
      rw [createSyncFrom]
      have hcreate (object : VkObject) (signalled : Bool) (vk : Vulkan) :
          Adds VkCall.building vk (vk.create object signalled).2 :=
        Adds.create (fun handle => building_create object handle signalled) vk
      split_ifs
      · exact ⟨Adds.refl _ vk, by simp⟩
      · exact ⟨hcreate .semaphore false vk, by simp⟩
      · exact ⟨(hcreate .semaphore false vk).trans (hcreate .semaphore false _), by simp⟩
      · obtain ⟨hadds, hspec⟩ := ih (i + 1)
          ((((vk.create .semaphore false).2.create .semaphore false).2).create .fence true).2
        refine ⟨(((hcreate .semaphore false vk).trans (hcreate .semaphore false _)).trans
          (hcreate .fence true _)).trans hadds, fun hdone => ?_⟩
        obtain ⟨hlength, hframes⟩ := hspec hdone
        refine ⟨congrArg Nat.succ hlength, fun frame hframe => ?_⟩
        obtain rfl | hframe := List.mem_cons.mp hframe
        · exact hadds.mem (List.mem_cons_self ..)
        · exact hframes frame hframe

theorem createImageViews_frames (sc : Swapchain) (answers : ImagesOutcome) (vk : Vulkan) :
    (sc.createImageViews answers vk).2.1.currentFrame = sc.currentFrame ∧
      (sc.createImageViews answers vk).2.1.frames = sc.frames := by
  unfold Swapchain.createImageViews
  split_ifs <;> exact ⟨rfl, rfl⟩

theorem resize_frames (sc : Swapchain) (width height : UInt32) (answers : ResizeOutcome) (vk : Vulkan) :
    (sc.resize width height answers vk).2.1.currentFrame = sc.currentFrame ∧
      (sc.resize width height answers vk).2.1.frames = sc.frames := by
  unfold Swapchain.resize
  split_ifs
  · exact ⟨rfl, rfl⟩
  · exact ⟨rfl, rfl⟩
  · exact createImageViews_frames ..

/-- A swapchain that has been made has a fence for each frame, created signalled. -/
structure Synced (sc : Swapchain) (vk : Vulkan) : Prop where
  building : ∀ c ∈ vk.log, c.building = true
  currentFrame : sc.currentFrame = 0
  frames : sc.frames.length = maxFramesInFlight
  created : ∀ frame ∈ sc.frames, .create .fence frame.inFlight true ∈ vk.log

theorem synced_createViewsAndSync {answers : CreateOutcome} (hstart : ∀ c ∈ vk.log, c.building = true)
    (hframe : sc.currentFrame = 0) (hmade : (sc.createViewsAndSync answers vk).1 = .success) :
    Synced (sc.createViewsAndSync answers vk).2.1 (sc.createViewsAndSync answers vk).2.2 := by
  have hviews := ((adds_createImageViews sc answers.images vk).mono building_of_quiet).all hstart
  unfold Swapchain.createViewsAndSync at hmade ⊢
  dsimp only at hmade ⊢
  split_ifs at hmade ⊢ with hsuccess
  · obtain ⟨hadds, hspec⟩ := createSyncFrom_spec answers maxFramesInFlight 0 (sc.createImageViews answers.images vk).2.2
    have hdone : (createSyncFrom answers maxFramesInFlight 0 (sc.createImageViews answers.images vk).2.2).1 = true := by
      by_contra hnot
      simp [Swapchain.createSync, hnot] at hmade
    obtain ⟨hlength, hframes⟩ := hspec hdone
    exact ⟨hadds.all hviews, (createImageViews_frames ..).1.trans hframe, hlength, hframes⟩
  · exact absurd hmade hsuccess

theorem synced_create {width height : UInt32} {answers : CreateOutcome}
    (h : swapchainCreate width height answers .new = (some sc, vk)) : Synced sc vk := by
  unfold swapchainCreate at h
  dsimp only at h
  split_ifs at h with hsurface hswapchain hmade
  · simp at h
  · simp at h
  · obtain ⟨hsc, rfl⟩ := Prod.mk.inj h
    obtain rfl := Option.some.inj hsc
    refine synced_createViewsAndSync ?_ rfl hmade
    simp [Vulkan.create, Vulkan.new, VkCall.building]
  · simp at h

/-! ## Frames -/

/-- The calls that frames are made of, with what Vulkan answers. -/
inductive FrameCall
  | acquire (result : AcquireResult) (image : UInt32)
  | submit (accepted : Bool)
  | present
  | resize (width height : UInt32) (answers : ResizeOutcome)

/-- The state after a call. -/
def FrameCall.run (state : Swapchain × Vulkan) : FrameCall → Swapchain × Vulkan
  | .acquire result image => (state.1.acquire result image state.2).2.2
  | .submit accepted => (state.1, (cmdSubmit accepted state.2).2)
  | .present => (state.1.present state.2).2
  | .resize width height answers => (state.1.resize width height answers state.2).2

/-- The state after some calls. -/
def runFrames (state : Swapchain × Vulkan) (calls : List FrameCall) : Swapchain × Vulkan :=
  calls.foldl FrameCall.run state

/-- The call acquires an image. -/
def FrameCall.acquires : FrameCall → Bool
  | .acquire _ _ => true
  | _ => false

/-- The call presents an image. -/
def FrameCall.presents : FrameCall → Bool
  | .present => true
  | _ => false

theorem runFrames_concat (state : Swapchain × Vulkan) (calls : List FrameCall) (call : FrameCall) :
    runFrames state (calls ++ [call]) = call.run (runFrames state calls) := by
  rw [runFrames, List.foldl_append]
  rfl

theorem fenceReady_cons_of_quiet (h : c.quiet = true) : fenceReady fence (c :: log) = fenceReady fence log := by
  cases c with
  | create object handle signalled => cases object <;> simp [fenceReady, VkCall.signalsFence, VkCall.quiet] at h ⊢
  | _ => simp [fenceReady, VkCall.signalsFence, VkCall.quiet] at h ⊢

theorem semaphoreReady_cons (hc : c.signalsSemaphore semaphore = false) (h : semaphoreReady semaphore log = false) :
    semaphoreReady semaphore (c :: log) = false := by
  rw [semaphoreReady, hc, h, Bool.and_false, Bool.or_false]

theorem signalsSemaphore_of_building (h : c.building = true) : c.signalsSemaphore semaphore = false := by
  cases c with
  | queueSubmit signals named => simp [VkCall.building, VkCall.quiet] at h
  | _ => rfl

theorem paced_cons_of_building (h : c.building = true) : paced (c :: log) = paced log := by
  cases c with
  | waitForFence fence => simp [VkCall.building, VkCall.quiet] at h
  | queuePresent semaphore => simp [VkCall.building, VkCall.quiet] at h
  | _ => simp [paced, VkCall.ready]

/-- Quiet calls make no difference. -/
theorem Adds.fenceReady_eq (h : Adds VkCall.quiet vk vk') (fence : ℕ) :
    fenceReady fence vk'.log = fenceReady fence vk.log := by
  obtain ⟨calls, hlog, hcalls⟩ := h
  rw [hlog]
  clear hlog
  induction calls with
  | nil => rfl
  | cons c calls ih =>
      rw [List.forall_mem_cons] at hcalls
      rw [List.cons_append, fenceReady_cons_of_quiet hcalls.1, ih hcalls.2]

theorem semaphoreReady_append (hcalls : ∀ c ∈ calls, c.building = true) (h : semaphoreReady semaphore log = false) :
    semaphoreReady semaphore (calls ++ log) = false := by
  induction calls with
  | nil => exact h
  | cons c calls ih =>
      rw [List.forall_mem_cons] at hcalls
      exact semaphoreReady_cons (signalsSemaphore_of_building hcalls.1) (ih hcalls.2)

theorem paced_append (hcalls : ∀ c ∈ calls, c.building = true) : paced (calls ++ log) = paced log := by
  induction calls with
  | nil => rfl
  | cons c calls ih =>
      rw [List.forall_mem_cons] at hcalls
      rw [List.cons_append, paced_cons_of_building hcalls.1, ih hcalls.2]

/-- A fence that was created signalled is signalled as long as there is no reset. -/
theorem fenceReady_of_mem (hlog : ∀ c ∈ log, c.building = true) (h : .create .fence fence true ∈ log) :
    fenceReady fence log = true := by
  induction log with
  | nil => simp at h
  | cons c log ih =>
      rw [List.forall_mem_cons] at hlog
      rw [fenceReady, Bool.or_eq_true]
      obtain rfl | h := List.mem_cons.mp h
      · exact Or.inl (by simp [VkCall.signalsFence])
      · refine Or.inr ?_
        rw [ih hlog.2 h, Bool.and_true, decide_eq_true_eq]
        rintro rfl
        exact absurd hlog.1 (by simp [VkCall.building, VkCall.quiet])

/-- The state after some calls that start with the fence `first` of the first frame. -/
structure Running (first : ℕ) (sc : Swapchain) (vk : Vulkan) (acquired presented : ℕ) : Prop where
  mute : ∀ semaphore, semaphoreReady semaphore vk.log = false
  inFlight : presented = 0 → sc.frame.inFlight = first
  ready : presented = 0 → (fenceReady first vk.log = true ↔ acquired = 0)
  isPaced : paced vk.log = true ↔ presented = 0 ∧ acquired ≤ 1

variable {first acquired presented : ℕ}

theorem Synced.running (h : Synced sc vk) : Running sc.frame.inFlight sc vk 0 0 := by
  have hmem : sc.frame ∈ sc.frames := by
    have hlt : sc.currentFrame < sc.frames.length := by
      rw [h.currentFrame, h.frames]
      decide
    rw [Swapchain.frame, List.getD_eq_getElem?_getD, List.getElem?_eq_getElem hlt]
    exact List.getElem_mem hlt
  have hready := fenceReady_of_mem h.building (h.created _ hmem)
  refine ⟨fun semaphore => ?_, fun _ => rfl, fun _ => iff_of_true hready rfl, ?_⟩
  · rw [← List.append_nil vk.log]
    exact semaphoreReady_append h.building rfl
  · rw [← List.append_nil vk.log, paced_append h.building]
    exact iff_of_true rfl ⟨rfl, Nat.zero_le 1⟩

/-- Acquiring waits for the fence of the frame and resets it. -/
theorem Running.acquire (h : Running first sc vk acquired presented) (result : AcquireResult) (image : UInt32) :
    Running first (sc.acquire result image vk).2.2.1 (sc.acquire result image vk).2.2.2 (acquired + 1)
      presented := by
  have hstate : (sc.acquire result image vk).2.2 = ({ sc with currentImage := image },
      ((vk.call (.waitForFence sc.frame.inFlight)).call (.resetFence sc.frame.inFlight)).call
        (.acquireNextImage sc.frame.imageAvailable result)) := by
    unfold Swapchain.acquire
    split_ifs <;> rfl
  rw [hstate]
  refine ⟨fun semaphore => ?_, h.inFlight, fun hnone => ?_, ?_⟩
  · exact semaphoreReady_cons rfl (semaphoreReady_cons rfl (semaphoreReady_cons rfl (h.mute semaphore)))
  · simp [Vulkan.call, fenceReady, VkCall.signalsFence, h.inFlight hnone]
  · have hpaced : paced (((vk.call (.waitForFence sc.frame.inFlight)).call
        (.resetFence sc.frame.inFlight)).call (.acquireNextImage sc.frame.imageAvailable result)).log =
        (fenceReady sc.frame.inFlight vk.log && paced vk.log) := by
      simp [Vulkan.call, paced, VkCall.ready]
    rw [hpaced, Bool.and_eq_true, h.isPaced]
    constructor
    · rintro ⟨hready, hnone, -⟩
      rw [h.inFlight hnone, h.ready hnone] at hready
      omega
    · rintro ⟨hnone, hacquired⟩
      have hzero : acquired = 0 := by omega
      rw [h.inFlight hnone]
      exact ⟨(h.ready hnone).mpr hzero, hnone, by omega⟩

/-- Presenting waits for a semaphore that nothing signals. -/
theorem Running.present (h : Running first sc vk acquired presented) :
    Running first (sc.present vk).2.1 (sc.present vk).2.2 acquired (presented + 1) := by
  refine ⟨fun semaphore => semaphoreReady_cons rfl (h.mute semaphore), by omega, by omega, ?_⟩
  refine iff_of_false ?_ (by omega)
  simp [Swapchain.present, Vulkan.call, paced, VkCall.ready, h.mute]

theorem Running.submit (h : Running first sc vk acquired presented) (accepted : Bool) :
    Running first sc (cmdSubmit accepted vk).2 acquired presented := by
  unfold cmdSubmit
  split_ifs
  · exact h
  · refine ⟨fun semaphore => ?_, h.inFlight, fun hnone => ?_, ?_⟩
    · exact semaphoreReady_cons rfl (semaphoreReady_cons rfl (h.mute semaphore))
    · rw [← h.ready hnone]
      simp [Vulkan.call, fenceReady, VkCall.signalsFence]
    · rw [← h.isPaced]
      simp [Vulkan.call, paced, VkCall.ready]

/-- A resize leaves the fences and the semaphores alone. -/
theorem Running.resize (h : Running first sc vk acquired presented) (width height : UInt32)
    (answers : ResizeOutcome) :
    Running first (sc.resize width height answers vk).2.1 (sc.resize width height answers vk).2.2 acquired
      presented := by
  have hadds := adds_resize sc width height answers vk
  obtain ⟨hcurrent, hframes⟩ := resize_frames sc width height answers vk
  refine ⟨fun semaphore => ?_, fun hnone => ?_, fun hnone => ?_, ?_⟩
  · obtain ⟨calls, hlog, hcalls⟩ := hadds
    rw [hlog]
    exact semaphoreReady_append (fun c hc => building_of_quiet c (hcalls c hc)) (h.mute semaphore)
  · rw [Swapchain.frame, hcurrent, hframes]
    exact h.inFlight hnone
  · rw [hadds.fenceReady_eq]
    exact h.ready hnone
  · obtain ⟨calls, hlog, hcalls⟩ := hadds
    rw [hlog, paced_append fun c hc => building_of_quiet c (hcalls c hc)]
    exact h.isPaced

theorem Running.run (h : Running first sc vk 0 0) (frameCalls : List FrameCall) :
    Running first (runFrames (sc, vk) frameCalls).1 (runFrames (sc, vk) frameCalls).2
      (frameCalls.countP FrameCall.acquires) (frameCalls.countP FrameCall.presents) := by
  induction frameCalls using List.reverseRecOn with
  | nil => exact h
  | append_singleton frameCalls call ih =>
      rw [runFrames_concat, List.countP_append, List.countP_append]
      cases call with
      | acquire result image => exact ih.acquire result image
      | submit accepted => exact ih.submit accepted
      | present => exact ih.present
      | resize width height answers => exact ih.resize width height answers

/-- In a run of frames on a new swapchain nothing is waited for that is not signalled, exactly if nothing is
presented and no more than one image is acquired. -/
theorem paced_iff (width height : UInt32) (answers : CreateOutcome) (sc : Swapchain) (vk : Vulkan)
    (h : swapchainCreate width height answers .new = (some sc, vk)) (frameCalls : List FrameCall) :
    paced (runFrames (sc, vk) frameCalls).2.log = true ↔
      frameCalls.countP FrameCall.presents = 0 ∧ frameCalls.countP FrameCall.acquires ≤ 1 :=
  ((synced_create h).running.run frameCalls).isPaced

/-- A frame that is not presented. -/
theorem paced_notPresented :
    ∃ sc vk, swapchainCreate 800 600 everythingMade .new = (some sc, vk) ∧
      paced (runFrames (sc, vk) [.acquire .success 0, .submit true]).2.log = true :=
  ⟨_, _, rfl, (paced_iff 800 600 everythingMade _ _ rfl _).mpr ⟨rfl, le_refl 1⟩⟩

/-- A frame that is presented, and a frame after a resize. -/
theorem not_paced_oneFrame :
    ∃ sc vk, swapchainCreate 800 600 everythingMade .new = (some sc, vk) ∧
      paced (runFrames (sc, vk) [.acquire .success 0, .submit true, .present]).2.log = false ∧
      paced (runFrames (sc, vk)
        [.acquire .outOfDate 0, .resize 640 480 ⟨true, twoImages⟩, .acquire .success 0]).2.log = false :=
  ⟨_, _, rfl, by decide, by decide⟩

end LgxRuntime.Graphics
