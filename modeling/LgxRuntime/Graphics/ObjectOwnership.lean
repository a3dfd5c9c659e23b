import LgxRuntime.Graphics.Objects

/-!
# Who owns the objects of the graphics module

A client makes a device and works on it.  Each handle that it has been given owns some objects, and what has been
made and not destroyed is what the device and the handles own: a call that fails leaves nothing behind, and nothing
is destroyed twice.  The counters of the statistics say how many handles there are.
-/

namespace LgxRuntime.Graphics.Objects

open ResourceLogic
open LgxRuntime.Runtime (LgxResult)

/-! ## What is owned -/

/-- What a device owns besides its pipeline cache. -/
def Device.parts (dev : Device) : Multiset (GfxResource × ℕ) :=
  owned .commandPool dev.commandPool + (owned .device dev.device +
    (owned .debugMessenger dev.debugMessenger + (owned .vkInstance dev.vkInstance + owned .heap dev.self)))

/-- What a device owns. -/
def Device.objects (dev : Device) : Multiset (GfxResource × ℕ) :=
  owned .pipelineCache dev.pipelineCache + dev.parts

/-- What a buffer owns that is not mapped. -/
def Buffer.parts (buf : Buffer) : Multiset (GfxResource × ℕ) :=
  owned .buffer buf.vkBuffer + (owned .memory buf.vkMemory + owned .heap buf.self)

/-- What a buffer owns. -/
def Buffer.objects (buf : Buffer) : Multiset (GfxResource × ℕ) :=
  (if buf.mapped then owned .mapping buf.vkMemory else 0) + buf.parts

/-- What an image owns. -/
def Image.objects (img : Image) : Multiset (GfxResource × ℕ) :=
  owned .imageView img.vkView + (owned .image img.vkImage + (owned .memory img.vkMemory + owned .heap img.self))

/-- What a shader owns. -/
def Shader.objects (shader : Shader) : Multiset (GfxResource × ℕ) :=
  owned .shaderModule shader.vkModule + owned .heap shader.self

/-- What a render pass owns. -/
def RenderPass.objects (rp : RenderPass) : Multiset (GfxResource × ℕ) :=
  owned .renderPass rp.vkRenderpass + owned .heap rp.self

/-- What a pipeline owns. -/
def Pipeline.objects (pipe : Pipeline) : Multiset (GfxResource × ℕ) :=
  owned .pipeline pipe.vkPipeline + (owned .pipelineLayout pipe.vkLayout + owned .heap pipe.self)

/-- What a command buffer owns. -/
def CmdBuffer.objects (cmd : CmdBuffer) : Multiset (GfxResource × ℕ) :=
  owned .commandBuffer cmd.vkCmd + owned .heap cmd.self

/-- What a descriptor set owns. -/
def DescriptorSet.objects (ds : DescriptorSet) : Multiset (GfxResource × ℕ) :=
  owned .pipelineLayout ds.vkPipelineLayout + (owned .descriptorPool ds.vkPool +
    (owned .descriptorSetLayout ds.vkLayout + owned .heap ds.self))

/-- What a handle owns. -/
def Handle.objects : Handle → Multiset (GfxResource × ℕ)
  | .buffer buf => buf.objects
  | .image img => img.objects
  | .shader sh => sh.objects
  | .renderPass rp => rp.objects
  | .pipeline pipe => pipe.objects
  | .cmdBuffer cmd => cmd.objects
  | .descriptorSet ds => ds.objects

/-- What the handles of a session own. -/
def Session.children (s : Session) : Multiset (GfxResource × ℕ) :=
  (s.handles.map Handle.objects).sum

/-- What a session owns. -/
def Session.objects (s : Session) : Multiset (GfxResource × ℕ) :=
  s.device.objects + s.children

/-! ## Devices -/

/-- A device is destroyed whole, but for a debug messenger whose function is not found. -/
theorem deviceDestroy_triple (dev : Device) (destroyDbg : Bool) :
    Triple dev.objects (deviceDestroy dev destroyDbg)
      fun _ => if destroyDbg then 0 else owned .debugMessenger dev.debugMessenger := by
  unfold deviceDestroy
  refine .release_bind rfl (.release_bind rfl (.release_bind rfl ?_))
  cases destroyDbg with
  | true => exact .release_bind rfl (.release_bind rfl (Triple.release GfxResource.heap dev.self))
  | false =>
      have hrest : owned GfxResource.debugMessenger dev.debugMessenger +
          (owned GfxResource.vkInstance dev.vkInstance + owned GfxResource.heap dev.self) =
          owned GfxResource.vkInstance dev.vkInstance +
            (owned GfxResource.heap dev.self + owned GfxResource.debugMessenger dev.debugMessenger) := by abel
      refine .of_eq hrest (.release_bind rfl ?_)
      exact ((Triple.release GfxResource.heap dev.self).frame _).congr rfl fun _ => zero_add _

/-- If a debug messenger can be made, it can be destroyed. -/
def DeviceAnswers.Paired (answers : DeviceAnswers) : Prop :=
  answers.createDbg = true → answers.destroyDbg = true

/-- Nothing is left of a device that cannot be made. -/
theorem giveUp_triple {dev : Device} {answers : DeviceAnswers} (hpaired : answers.Paired)
    (hdebug : answers.createDbg = false → dev.debugMessenger = 0) :
    Triple dev.objects (do deviceDestroy dev answers.destroyDbg; return none)
      fun dev' : Option Device => dev'.elim 0 Device.objects := by
  refine (deviceDestroy_triple dev answers.destroyDbg).bind fun _ => .pure ?_
  split_ifs with hdestroy
  · rfl
  · have hcreate : answers.createDbg = false := by
      rw [Bool.eq_false_iff]
      exact fun h => hdestroy (hpaired h)
    rw [hdebug hcreate]
    rfl

theorem deviceCreate_triple (config : Option DeviceConfig) {answers : DeviceAnswers} (hpaired : answers.Paired) :
    Triple 0 (deviceCreate config answers) fun dev => dev.elim 0 Device.objects := by
  unfold deviceCreate
  refine .acquire_checked (.pure rfl) fun self _ => ?_
  refine .acquire_checked (.release_bind rfl (.pure rfl)) fun vkInstance _ => ?_
  dsimp only
  refine .acquire_bind fun debugMessenger hdebug => ?_
  replace hdebug : answers.createDbg = false → debugMessenger = 0 := fun h => hdebug (by simp [h])
  cases answers.gpus with
  | nil => exact .of_eq (by simp [Device.objects, Device.parts]) (giveUp_triple hpaired hdebug)
  | cons first others =>
      dsimp only
      refine .acquire_bind fun gpus _ => .release_bind rfl (.acquire_bind fun qfProps _ => .release_bind rfl ?_)
      split
      · exact .of_eq (by simp [Device.objects, Device.parts]) (giveUp_triple hpaired hdebug)
      · refine .acquire_checked ?_ fun device _ => .acquire_checked ?_ fun commandPool _ => ?_
        · exact .of_eq (by simp [Device.objects, Device.parts]) (giveUp_triple hpaired hdebug)
        · exact .of_eq (by simp [Device.objects, Device.parts]) (giveUp_triple hpaired hdebug)
        · exact .acquire_bind fun pipelineCache _ => .pure (by simp [Device.objects, Device.parts])

/-! ## Buffers -/

theorem bufferCreate_triple (dev : Device) (size : UInt64) (usage : UInt32) (hostVisible : Bool)
    (answers : MemoryAnswers) :
    Triple 0 (bufferCreate dev size usage hostVisible answers) fun r => r.1.elim 0 Buffer.objects := by
  unfold bufferCreate
  refine .ite (fun _ => .pure rfl) fun _ => ?_
  refine .acquire_checked (.pure rfl) fun self _ => ?_
  refine .acquire_checked (.release_bind rfl (.pure rfl)) fun vkBuffer _ => ?_
  refine .ite (fun _ => .release_bind rfl (.release_bind rfl (.pure rfl))) fun _ => ?_
  refine .acquire_checked (.release_bind rfl (.release_bind rfl (.pure rfl))) fun vkMemory _ => .pure ?_
  simp [Buffer.objects, Buffer.parts, add_left_comm]

theorem bufferMap_triple (buf : Buffer) (mapMemory : Bool) :
    Triple buf.objects (bufferMap buf mapMemory) fun r => r.2.objects := by
  unfold bufferMap
  refine .ite (fun _ => .pure rfl) fun hunmapped => ?_
  have hparts : buf.objects = buf.parts := by
    have hmapped : buf.mapped = false := by
      cases h : buf.mapped
      · rfl
      · simp [h] at hunmapped
    rw [Buffer.objects, hmapped]
    exact zero_add _
  refine .of_eq hparts ?_
  cases mapMemory with
  | false => exact .pure (zero_add _).symm
  | true => exact .attach_bind (.pure rfl)

theorem bufferUnmap_triple (buf : Buffer) : Triple buf.objects (bufferUnmap buf) Buffer.parts := by
  unfold bufferUnmap
  refine .ite (fun hmapped => .pure ?_) fun hmapped => .release_bind ?_ (.pure rfl)
  · rw [Buffer.objects, if_neg (by simpa using hmapped), zero_add]
  · rw [Buffer.objects, if_pos (by simpa using hmapped)]
    rfl

theorem bufferUnmap_unmapped (buf : Buffer) : Returns (bufferUnmap buf) fun buf' => buf'.mapped = false := by
  unfold bufferUnmap
  exact .ite (fun hmapped => .pure (by simpa using hmapped)) fun _ => .after fun _ => .pure rfl

theorem bufferUnmap_objects (buf : Buffer) : Triple buf.objects (bufferUnmap buf) Buffer.objects := by
  refine (bufferUnmap_triple buf).congr_returns (bufferUnmap_unmapped buf) fun buf' hmapped => ?_
  rw [Buffer.objects, hmapped]
  exact (zero_add _).symm

theorem bufferDestroy_triple (dev : Device) (buf : Buffer) :
    Triple buf.objects (bufferDestroy dev buf) fun _ => 0 := by
  unfold bufferDestroy
  refine (bufferUnmap_triple buf).bind fun buf => .release_bind rfl (.release_bind rfl ?_)
  exact (Triple.release GfxResource.heap buf.self).bind fun _ => .pure rfl

/-! ## Uploads -/

/-- What a staging buffer owns, if there is one. -/
def stagingObjects (staging : ℕ × ℕ) : Multiset (GfxResource × ℕ) :=
  if staging.1 = 0 then 0 else owned .buffer staging.1 + owned .memory staging.2

theorem createStagingBuffer_triple (vk : VkAnswers) : Triple 0 (createStagingBuffer vk) stagingObjects := by
  unfold createStagingBuffer
  refine .acquire_checked (.pure rfl) fun staging hstaging => ?_
  refine .ite (fun _ => .release_bind rfl (.pure rfl)) fun _ => ?_
  refine .acquire_checked (.release_bind rfl (.pure rfl)) fun outMem _ => ?_
  refine .attach_bind (.release_bind rfl (.pure ?_))
  simp [stagingObjects, hstaging, add_comm]

theorem copyFromStaging_triple (vk : VkAnswers) : Triple 0 (copyFromStaging vk) fun _ => 0 := by
  unfold copyFromStaging
  refine (createStagingBuffer_triple vk).bind fun staging => .ite (fun hstaging => .pure ?_) fun hstaging => ?_
  · exact if_pos hstaging
  · refine .of_eq (if_neg hstaging) ?_
    refine .acquire_checked ?_ fun cmd _ => .release_bind rfl ?_
    · exact .release_bind rfl ((Triple.release GfxResource.memory staging.2).bind fun _ => .pure rfl)
    · exact .release_bind rfl ((Triple.release GfxResource.memory staging.2).bind fun _ => .pure rfl)

theorem bufferUpload_triple (vk : VkAnswers) (buf : Buffer) (data : ℕ) (size offset : UInt64) :
    Triple buf.objects (bufferUpload vk buf data size offset) fun r => r.2.objects := by
  unfold bufferUpload
  refine .ite (fun _ => .pure rfl) fun _ => .ite (fun _ => ?_) fun _ => ?_
  · refine (bufferMap_triple buf vk.mapMemory).bind fun mapped => .ite (fun _ => .pure rfl) fun _ => ?_
    exact (bufferUnmap_objects mapped.2).bind fun buf' => .pure rfl
  · exact (copyFromStaging_triple vk).call (zero_add _).symm fun _ => .pure (zero_add _)

theorem imageUpload_triple (vk : VkAnswers) (pixels : ℕ) (dataSize : UInt64) :
    Triple 0 (imageUpload vk pixels dataSize) fun _ => 0 := by
  unfold imageUpload
  exact .ite (fun _ => .pure rfl) fun _ => copyFromStaging_triple vk

/-! ## Images, shaders, render passes and pipelines -/

theorem imageCreate_triple (dev : Device) (width height format : UInt32) (answers : MemoryAnswers) (view : Bool) :
    Triple 0 (imageCreate dev width height format answers view) fun r => r.1.elim 0 Image.objects := by
  unfold imageCreate
  refine .ite (fun _ => .pure rfl) fun _ => ?_
  refine .acquire_checked (.pure rfl) fun self _ => ?_
  refine .acquire_checked (.release_bind rfl (.pure rfl)) fun vkImage _ => ?_
  refine .ite (fun _ => .release_bind rfl (.release_bind rfl (.pure rfl))) fun _ => ?_
  refine .acquire_checked (.release_bind rfl (.release_bind rfl (.pure rfl))) fun vkMemory _ => ?_
  refine .acquire_checked (.release_bind rfl (.release_bind rfl (.release_bind rfl (.pure rfl)))) ?_
  exact fun vkView _ => .pure (by simp [Image.objects, add_left_comm])

theorem imageDestroy_triple (dev : Device) (img : Image) :
    Triple img.objects (imageDestroy dev img) fun _ => 0 := by
  unfold imageDestroy
  refine .release_bind rfl (.release_bind rfl (.release_bind rfl ?_))
  exact (Triple.release GfxResource.heap img.self).bind fun _ => .pure rfl

theorem shaderCreate_triple (dev : Device) (spirvCode codeSize : ℕ) (stage : UInt32) (answers : ShaderAnswers) :
    Triple 0 (shaderCreate dev spirvCode codeSize stage answers) fun r => r.1.elim 0 Shader.objects := by
  unfold shaderCreate
  refine .ite (fun _ => .pure rfl) fun _ => .acquire_checked (.pure rfl) fun self _ => ?_
  refine .acquire_checked (.release_bind rfl (.pure rfl)) fun vkModule _ => .pure ?_
  simp [Shader.objects]

/-- The file is closed and the code freed, whether there is a shader or not. -/
theorem shaderLoad_triple (dev : Device) (stage : UInt32) (file : FileAnswers) (answers : ShaderAnswers) :
    Triple 0 (shaderLoad dev stage file answers) fun r => r.1.elim 0 Shader.objects := by
  unfold shaderLoad
  refine .acquire_checked (.pure rfl) fun f _ => .ite (fun _ => .release_bind rfl (.pure rfl)) fun _ => ?_
  refine .acquire_checked (.release_bind rfl (.pure rfl)) fun code _ => ?_
  refine .ite (fun _ => .release_bind rfl (.release_bind rfl (.pure rfl))) fun _ => ?_
  have hswap : owned GfxResource.heap code + (owned GfxResource.file f + 0) =
      owned GfxResource.file f + owned GfxResource.heap code := by rw [add_zero, add_comm]
  refine .of_eq hswap (.release_bind rfl ?_)
  refine (shaderCreate_triple dev code file.fileSize.toNat stage answers).call (zero_add _).symm fun shader => ?_
  exact .release_bind (add_comm ..) (.pure rfl)

theorem shaderDestroy_triple (dev : Device) (shader : Shader) :
    Triple shader.objects (shaderDestroy dev shader) fun _ => 0 := by
  unfold shaderDestroy
  exact .release_bind rfl ((Triple.release GfxResource.heap shader.self).bind fun _ => .pure rfl)

theorem renderpassCreate_triple (attachmentCount : UInt32) (self renderPass : Bool) :
    Triple 0 (renderpassCreate attachmentCount self renderPass) fun rp => rp.elim 0 RenderPass.objects := by
  unfold renderpassCreate
  refine .ite (fun _ => .pure rfl) fun _ => .acquire_checked (.pure rfl) fun rp _ => ?_
  refine .acquire_bind fun vkAttachments _ => .acquire_bind fun colorRefs _ => .acquire_bind fun vkRenderpass _ => ?_
  have hfree : owned GfxResource.renderPass vkRenderpass + (owned GfxResource.heap colorRefs +
      (owned GfxResource.heap vkAttachments + (owned GfxResource.heap rp + 0))) =
      owned GfxResource.heap vkAttachments + (owned GfxResource.heap colorRefs +
        (owned GfxResource.renderPass vkRenderpass + owned GfxResource.heap rp)) := by abel
  refine .of_eq hfree (.release_bind rfl (.release_bind rfl (.ite (fun hrenderpass => ?_) fun _ => .pure rfl)))
  rw [hrenderpass, owned_zero, zero_add]
  exact (Triple.release GfxResource.heap rp).bind fun _ => .pure rfl

theorem renderpassDestroy_triple (rp : RenderPass) :
    Triple rp.objects (renderpassDestroy rp) fun _ => 0 := by
  unfold renderpassDestroy
  exact .release_bind rfl (Triple.release GfxResource.heap rp.self)

theorem pipelineCreate_triple (dev : Device) (shaders attributes : Bool) (answers : PipelineAnswers) :
    Triple 0 (pipelineCreate dev shaders attributes answers) fun r => r.1.elim 0 Pipeline.objects := by
  unfold pipelineCreate
  refine .ite (fun _ => .pure rfl) fun _ => .acquire_checked (.pure rfl) fun self _ => ?_
  refine .acquire_bind fun vkAttrs _ => ?_
  refine .acquire_checked (.release_bind rfl (.release_bind rfl (.pure rfl))) fun vkLayout _ => ?_
  refine .acquire_bind fun vkPipeline _ => ?_
  have hfree : owned GfxResource.pipeline vkPipeline + (owned GfxResource.pipelineLayout vkLayout +
      (owned GfxResource.heap vkAttrs + (owned GfxResource.heap self + 0))) =
      owned GfxResource.heap vkAttrs + (owned GfxResource.pipeline vkPipeline +
        (owned GfxResource.pipelineLayout vkLayout + owned GfxResource.heap self)) := by abel
  refine .of_eq hfree (.release_bind rfl (.ite (fun hpipeline => ?_) fun _ => .pure rfl))
  rw [hpipeline, owned_zero, zero_add]
  exact .release_bind rfl ((Triple.release GfxResource.heap self).bind fun _ => .pure rfl)

theorem pipelineDestroy_triple (dev : Device) (pipe : Pipeline) :
    Triple pipe.objects (pipelineDestroy dev pipe) fun _ => 0 := by
  unfold pipelineDestroy
  refine .release_bind rfl (.release_bind rfl ?_)
  exact (Triple.release GfxResource.heap pipe.self).bind fun _ => .pure rfl

/-! ## Command buffers and descriptor sets -/

theorem cmdBegin_triple (self allocateCommandBuffers beginCommandBuffer : Bool) :
    Triple 0 (cmdBegin self allocateCommandBuffers beginCommandBuffer) fun cmd => cmd.elim 0 CmdBuffer.objects := by
  unfold cmdBegin
  refine .acquire_checked (.pure rfl) fun cmd _ => ?_
  refine .acquire_checked (.release_bind rfl (.pure rfl)) fun vkCmd _ => ?_
  refine .ite (fun _ => .release_bind rfl (.release_bind rfl (.pure rfl))) fun _ => .pure ?_
  simp [CmdBuffer.objects]

theorem cmdSubmit_triple (cmd : CmdBuffer) (queueSubmit : Bool) :
    Triple cmd.objects (cmdSubmit cmd queueSubmit)
      fun result => if result = .success then 0 else cmd.objects := by
  unfold cmdSubmit
  refine .ite (fun _ => .pure rfl) fun _ => .release_bind rfl ?_
  exact (Triple.release GfxResource.heap cmd.self).bind fun _ => .pure rfl

theorem descriptorSetCreate_triple (bindingCount : UInt32) (bindings : ℕ) (answers : DescriptorAnswers) :
    Triple 0 (descriptorSetCreate bindingCount bindings answers) fun ds => ds.elim 0 DescriptorSet.objects := by
  unfold descriptorSetCreate
  refine .ite (fun _ => .pure rfl) fun _ => .acquire_checked (.pure rfl) fun self _ => ?_
  refine .acquire_bind fun layoutBindings _ => .acquire_bind fun poolSizes _ => .acquire_bind fun vkLayout _ => ?_
  have hlayout : owned GfxResource.descriptorSetLayout vkLayout + (owned GfxResource.heap poolSizes +
      (owned GfxResource.heap layoutBindings + (owned GfxResource.heap self + 0))) =
      owned GfxResource.heap layoutBindings + (owned GfxResource.heap poolSizes +
        (owned GfxResource.descriptorSetLayout vkLayout + owned GfxResource.heap self)) := by abel
  refine .of_eq hlayout (.release_bind rfl (.ite (fun hnone => ?_) fun _ => ?_))
  · rw [hnone, owned_zero, zero_add]
    exact .release_bind rfl ((Triple.release GfxResource.heap self).bind fun _ => .pure rfl)
  refine .acquire_bind fun vkPool _ => ?_
  have hpool : owned GfxResource.descriptorPool vkPool + (owned GfxResource.heap poolSizes +
      (owned GfxResource.descriptorSetLayout vkLayout + owned GfxResource.heap self)) =
      owned GfxResource.heap poolSizes + (owned GfxResource.descriptorPool vkPool +
        (owned GfxResource.descriptorSetLayout vkLayout + owned GfxResource.heap self)) := by abel
  have hself : Triple (owned GfxResource.heap self) (do release .heap self; return none)
      fun ds : Option DescriptorSet => ds.elim 0 DescriptorSet.objects :=
    (Triple.release GfxResource.heap self).bind fun _ => .pure rfl
  refine .of_eq hpool (.release_bind rfl (.ite (fun hnone => ?_) fun _ => ?_))
  · rw [hnone, owned_zero, zero_add]
    exact .release_bind rfl hself
  refine .ite (fun _ => .release_bind rfl (.release_bind rfl hself)) fun _ => ?_
  refine .acquire_bind fun writes _ => .acquire_bind fun bufInfos _ => ?_
  refine .release_bind (add_left_comm ..) (.release_bind rfl (.acquire_bind fun vkPipelineLayout _ => .pure rfl))

theorem descriptorSetDestroy_triple (ds : DescriptorSet) :
    Triple ds.objects (descriptorSetDestroy ds) fun _ => 0 := by
  unfold descriptorSetDestroy
  exact .release_bind rfl (.release_bind rfl (.release_bind rfl (Triple.release GfxResource.heap ds.self)))

/-! ## The shader cache -/

/-- A pipeline cache that is replaced is destroyed. -/
theorem shaderCacheInit_triple (dev : Device) (config : Option ShaderCacheConfig) (file : FileAnswers)
    (createPipelineCache : Bool) :
    Triple dev.objects (shaderCacheInit dev config file createPipelineCache) Device.objects := by
  unfold shaderCacheInit
  refine .ite (fun _ => .pure rfl) fun _ => .acquire_checked (.pure rfl) fun f _ => ?_
  refine .ite (fun _ => .release_bind rfl (.pure rfl)) fun _ => .acquire_bind fun data _ => ?_
  refine .ite (fun _ => .release_bind rfl (.release_bind rfl (.pure rfl))) fun _ => ?_
  refine .acquire_checked (.release_bind rfl (.release_bind rfl (.pure rfl))) fun newCache _ => ?_
  have hreplace : owned GfxResource.pipelineCache newCache + (owned GfxResource.heap data +
      (owned GfxResource.file f + dev.objects)) =
      owned GfxResource.pipelineCache dev.pipelineCache + (owned GfxResource.heap data +
        (owned GfxResource.file f + (owned GfxResource.pipelineCache newCache + dev.parts))) := by
    rw [Device.objects]
    abel
  exact .of_eq hreplace (.release_bind rfl (.release_bind rfl (.release_bind rfl (.pure rfl))))

theorem shaderCacheFlush_triple (dev : Device) (cacheSize : UInt64) (malloc fopen : Bool) :
    Triple dev.objects (shaderCacheFlush dev cacheSize malloc fopen) fun r => r.2.objects := by
  unfold shaderCacheFlush
  refine .ite (fun _ => .pure rfl) fun _ => .ite (fun _ => .pure rfl) fun _ => ?_
  refine .acquire_checked (.pure rfl) fun data _ => ?_
  refine .acquire_checked (.release_bind rfl (.pure rfl)) fun f _ => ?_
  exact .release_bind rfl (.release_bind rfl (.pure rfl))

/-! ## Sessions -/

theorem create_triple (dev : Device) (creation : Creation) :
    Triple 0 (create dev creation) fun r => r.1.elim 0 Handle.objects := by
  cases creation with
  | buffer size usage hostVisible answers =>
      exact (bufferCreate_triple dev size usage hostVisible answers).bind fun r => .pure (by cases r.1 <;> rfl)
  | image width height format answers view =>
      exact (imageCreate_triple dev width height format answers view).bind fun r => .pure (by cases r.1 <;> rfl)
  | shader spirvCode codeSize stage answers =>
      exact (shaderCreate_triple dev spirvCode codeSize stage answers).bind
        fun r => .pure (by cases r.1 <;> rfl)
  | shaderFromFile stage file answers =>
      exact (shaderLoad_triple dev stage file answers).bind fun r => .pure (by cases r.1 <;> rfl)
  | renderPass attachmentCount self renderPass =>
      exact (renderpassCreate_triple attachmentCount self renderPass).bind
        fun rp => .pure (by cases rp <;> rfl)
  | pipeline shaders attributes answers =>
      exact (pipelineCreate_triple dev shaders attributes answers).bind fun r => .pure (by cases r.1 <;> rfl)
  | cmdBuffer self allocateCommandBuffers beginCommandBuffer =>
      exact (cmdBegin_triple self allocateCommandBuffers beginCommandBuffer).bind
        fun cmd => .pure (by cases cmd <;> rfl)
  | descriptorSet bindingCount bindings answers =>
      exact (descriptorSetCreate_triple bindingCount bindings answers).bind
        fun ds => .pure (by cases ds <;> rfl)

theorem use_triple (dev : Device) (handle : Handle) (u : Use) :
    Triple handle.objects (use dev handle u) fun r => r.1.elim 0 Handle.objects := by
  cases handle with
  | buffer buf =>
      cases u with
      | destroy => exact (bufferDestroy_triple dev buf).bind fun _ => .pure rfl
      | map mapMemory => exact (bufferMap_triple buf mapMemory).bind fun _ => .pure rfl
      | unmap => exact (bufferUnmap_objects buf).bind fun _ => .pure rfl
      | upload vk data size offset => exact (bufferUpload_triple vk buf data size offset).bind fun _ => .pure rfl
      | endRecording => exact .pure rfl
      | submit => exact .pure rfl
  | image img =>
      cases u with
      | destroy => exact (imageDestroy_triple dev img).bind fun _ => .pure rfl
      | upload vk data size offset =>
          exact (imageUpload_triple vk data size).call (zero_add _).symm fun _ => .pure (zero_add _)
      | map => exact .pure rfl
      | unmap => exact .pure rfl
      | endRecording => exact .pure rfl
      | submit => exact .pure rfl
  | cmdBuffer cmd =>
      cases u with
      | endRecording endCommandBuffer =>
          refine .pure ?_
          change cmd.objects = (cmdEnd cmd endCommandBuffer).2.objects
          unfold cmdEnd
          split_ifs <;> rfl
      | submit queueSubmit =>
          refine (cmdSubmit_triple cmd queueSubmit).bind fun result => .pure ?_
          split_ifs <;> rfl
      | destroy => exact .pure rfl
      | map => exact .pure rfl
      | unmap => exact .pure rfl
      | upload => exact .pure rfl
  | shader sh =>
      cases u with
      | destroy => exact (shaderDestroy_triple dev sh).bind fun _ => .pure rfl
      | _ => exact .pure rfl
  | renderPass rp =>
      cases u with
      | destroy => exact (renderpassDestroy_triple rp).bind fun _ => .pure rfl
      | _ => exact .pure rfl
  | pipeline pipe =>
      cases u with
      | destroy => exact (pipelineDestroy_triple dev pipe).bind fun _ => .pure rfl
      | _ => exact .pure rfl
  | descriptorSet ds =>
      cases u with
      | destroy => exact (descriptorSetDestroy_triple ds).bind fun _ => .pure rfl
      | _ => exact .pure rfl

/-! ## Counters -/

/-- The counters of the statistics that go up and down. -/
inductive Counter
  | buffers
  | images
  | pipelines
  | shaders
  deriving DecidableEq

/-- A counter. -/
def Stats.active (stats : Stats) : Counter → UInt32
  | .buffers => stats.activeBuffers
  | .images => stats.activeImages
  | .pipelines => stats.activePipelines
  | .shaders => stats.activeShaders

/-- The counter that a handle is counted by, if any. -/
def Handle.counter : Handle → Option Counter
  | .buffer _ => some .buffers
  | .image _ => some .images
  | .pipeline _ => some .pipelines
  | .shader _ => some .shaders
  | .renderPass _ => none
  | .cmdBuffer _ => none
  | .descriptorSet _ => none

/-- The device owns what it did, and one counter may have moved. -/
structure Counts (dev dev' : Device) (counter : Option Counter) (move : UInt32 → UInt32) : Prop where
  objects : dev'.objects = dev.objects
  active : ∀ c, dev'.stats.active c = if counter = some c then move (dev.stats.active c) else dev.stats.active c

theorem Counts.same (dev : Device) (move : UInt32 → UInt32) : Counts dev dev none move :=
  ⟨rfl, fun _ => rfl⟩

theorem bufferCreate_counts (dev : Device) (size : UInt64) (usage : UInt32) (hostVisible : Bool)
    (answers : MemoryAnswers) :
    Returns (bufferCreate dev size usage hostVisible answers)
      fun r => Counts dev r.2 (r.1.bind fun _ => some .buffers) (· + 1) := by
  unfold bufferCreate
  refine .ite (fun _ => .pure (.same ..)) fun _ => .after fun self => .ite (fun _ => .pure (.same ..)) fun _ => ?_
  refine .after fun vkBuffer => .ite (fun _ => .after fun _ => .pure (.same ..)) fun _ => ?_
  refine .ite (fun _ => .after fun _ => .after fun _ => .pure (.same ..)) fun _ => .after fun vkMemory => ?_
  refine .ite (fun _ => .after fun _ => .after fun _ => .pure (.same ..)) fun _ => .pure ⟨rfl, fun c => ?_⟩
  cases c <;> rfl

theorem imageCreate_counts (dev : Device) (width height format : UInt32) (answers : MemoryAnswers) (view : Bool) :
    Returns (imageCreate dev width height format answers view)
      fun r => Counts dev r.2 (r.1.bind fun _ => some .images) (· + 1) := by
  unfold imageCreate
  refine .ite (fun _ => .pure (.same ..)) fun _ => .after fun self => .ite (fun _ => .pure (.same ..)) fun _ => ?_
  refine .after fun vkImage => .ite (fun _ => .after fun _ => .pure (.same ..)) fun _ => ?_
  refine .ite (fun _ => .after fun _ => .after fun _ => .pure (.same ..)) fun _ => .after fun vkMemory => ?_
  refine .ite (fun _ => .after fun _ => .after fun _ => .pure (.same ..)) fun _ => .after fun vkView => ?_
  refine .ite (fun _ => .after fun _ => .after fun _ => .after fun _ => .pure (.same ..)) fun _ => ?_
  refine .pure ⟨rfl, fun c => ?_⟩
  cases c <;> rfl

theorem shaderCreate_counts (dev : Device) (spirvCode codeSize : ℕ) (stage : UInt32) (answers : ShaderAnswers) :
    Returns (shaderCreate dev spirvCode codeSize stage answers)
      fun r => Counts dev r.2 (r.1.bind fun _ => some .shaders) (· + 1) := by
  unfold shaderCreate
  refine .ite (fun _ => .pure (.same ..)) fun _ => .after fun self => .ite (fun _ => .pure (.same ..)) fun _ => ?_
  refine .after fun vkModule => .ite (fun _ => .after fun _ => .pure (.same ..)) fun _ => .pure ⟨rfl, fun c => ?_⟩
  cases c <;> rfl

theorem shaderLoad_counts (dev : Device) (stage : UInt32) (file : FileAnswers) (answers : ShaderAnswers) :
    Returns (shaderLoad dev stage file answers)
      fun r => Counts dev r.2 (r.1.bind fun _ => some .shaders) (· + 1) := by
  unfold shaderLoad
  refine .after fun f => .ite (fun _ => .pure (.same ..)) fun _ => ?_
  refine .ite (fun _ => .after fun _ => .pure (.same ..)) fun _ => .after fun code => ?_
  refine .ite (fun _ => .after fun _ => .pure (.same ..)) fun _ => ?_
  refine .ite (fun _ => .after fun _ => .after fun _ => .pure (.same ..)) fun _ => .after fun _ => ?_
  exact (shaderCreate_counts dev code file.fileSize.toNat stage answers).bind fun _ h => .after fun _ => .pure h

theorem pipelineCreate_counts (dev : Device) (shaders attributes : Bool) (answers : PipelineAnswers) :
    Returns (pipelineCreate dev shaders attributes answers)
      fun r => Counts dev r.2 (r.1.bind fun _ => some .pipelines) (· + 1) := by
  unfold pipelineCreate
  refine .ite (fun _ => .pure (.same ..)) fun _ => .after fun self => .ite (fun _ => .pure (.same ..)) fun _ => ?_
  refine .after fun vkAttrs => .after fun vkLayout => ?_
  refine .ite (fun _ => .after fun _ => .after fun _ => .pure (.same ..)) fun _ => .after fun vkPipeline => ?_
  refine .after fun _ => .ite (fun _ => .after fun _ => .after fun _ => .pure (.same ..)) fun _ => ?_
  refine .pure ⟨rfl, fun c => ?_⟩
  cases c <;> rfl

/-- What is made is counted. -/
theorem create_counts (dev : Device) (creation : Creation) :
    Returns (create dev creation) fun r => Counts dev r.2 (r.1.bind Handle.counter) (· + 1) := by
  cases creation with
  | buffer size usage hostVisible answers =>
      refine (bufferCreate_counts dev size usage hostVisible answers).bind fun r h => .pure ?_
      rw [Option.bind_map]
      exact h
  | image width height format answers view =>
      refine (imageCreate_counts dev width height format answers view).bind fun r h => .pure ?_
      rw [Option.bind_map]
      exact h
  | shader spirvCode codeSize stage answers =>
      refine (shaderCreate_counts dev spirvCode codeSize stage answers).bind fun r h => .pure ?_
      rw [Option.bind_map]
      exact h
  | shaderFromFile stage file answers =>
      refine (shaderLoad_counts dev stage file answers).bind fun r h => .pure ?_
      rw [Option.bind_map]
      exact h
  | pipeline shaders attributes answers =>
      refine (pipelineCreate_counts dev shaders attributes answers).bind fun r h => .pure ?_
      rw [Option.bind_map]
      exact h
  | renderPass attachmentCount self renderPass => exact .after fun rp => .pure (by cases rp <;> exact .same ..)
  | cmdBuffer self allocateCommandBuffers beginCommandBuffer =>
      exact .after fun cmd => .pure (by cases cmd <;> exact .same ..)
  | descriptorSet bindingCount bindings answers =>
      exact .after fun ds => .pure (by cases ds <;> exact .same ..)

/-- What a call that takes a handle has done with it: it is gone and counted no more, or it is of the kind that it
was. -/
structure UseCounts (dev : Device) (handle : Handle) (r : Option Handle × Device) : Prop where
  counts : Counts dev r.2 (if r.1.isNone then handle.counter else none) countDown
  counter : ∀ handle', r.1 = some handle' → handle'.counter = handle.counter

theorem UseCounts.kept {dev : Device} {handle handle' : Handle} (h : handle'.counter = handle.counter) :
    UseCounts dev handle (some handle', dev) := by
  refine ⟨.same .., fun handle'' hsome => ?_⟩
  obtain rfl := Option.some.inj hsome
  exact h

theorem UseCounts.gone {dev dev' : Device} {handle : Handle} (h : Counts dev dev' handle.counter countDown) :
    UseCounts dev handle (none, dev') :=
  ⟨h, fun _ hsome => nomatch hsome⟩

theorem bufferDestroy_counts (dev : Device) (buf : Buffer) :
    Returns (bufferDestroy dev buf) fun dev' => Counts dev dev' (some .buffers) countDown :=
  .after fun _ => .after fun _ => .after fun _ => .after fun _ => .pure ⟨rfl, fun c => by cases c <;> rfl⟩

theorem imageDestroy_counts (dev : Device) (img : Image) :
    Returns (imageDestroy dev img) fun dev' => Counts dev dev' (some .images) countDown :=
  .after fun _ => .after fun _ => .after fun _ => .after fun _ => .pure ⟨rfl, fun c => by cases c <;> rfl⟩

theorem shaderDestroy_counts (dev : Device) (shader : Shader) :
    Returns (shaderDestroy dev shader) fun dev' => Counts dev dev' (some .shaders) countDown :=
  .after fun _ => .after fun _ => .pure ⟨rfl, fun c => by cases c <;> rfl⟩

theorem pipelineDestroy_counts (dev : Device) (pipe : Pipeline) :
    Returns (pipelineDestroy dev pipe) fun dev' => Counts dev dev' (some .pipelines) countDown :=
  .after fun _ => .after fun _ => .after fun _ => .pure ⟨rfl, fun c => by cases c <;> rfl⟩

theorem use_counts (dev : Device) (handle : Handle) (u : Use) :
    Returns (use dev handle u) (UseCounts dev handle) := by
  cases handle with
  | buffer buf =>
      cases u with
      | destroy => exact (bufferDestroy_counts dev buf).bind fun _ h => .pure (.gone h)
      | map mapMemory => exact .after fun _ => .pure (.kept rfl)
      | unmap => exact .after fun _ => .pure (.kept rfl)
      | upload vk data size offset => exact .after fun _ => .pure (.kept rfl)
      | endRecording => exact .pure (.kept rfl)
      | submit => exact .pure (.kept rfl)
  | image img =>
      cases u with
      | destroy => exact (imageDestroy_counts dev img).bind fun _ h => .pure (.gone h)
      | upload vk data size offset => exact .after fun _ => .pure (.kept rfl)
      | map => exact .pure (.kept rfl)
      | unmap => exact .pure (.kept rfl)
      | endRecording => exact .pure (.kept rfl)
      | submit => exact .pure (.kept rfl)
  | cmdBuffer cmd =>
      cases u with
      | endRecording endCommandBuffer => exact .pure (.kept rfl)
      | submit queueSubmit =>
          refine .after fun result => .pure ?_
          split_ifs
          · exact .gone (.same ..)
          · exact .kept rfl
      | destroy => exact .pure (.kept rfl)
      | map => exact .pure (.kept rfl)
      | unmap => exact .pure (.kept rfl)
      | upload => exact .pure (.kept rfl)
  | shader sh =>
      cases u with
      | destroy => exact (shaderDestroy_counts dev sh).bind fun _ h => .pure (.gone h)
      | _ => exact .pure (.kept rfl)
  | renderPass rp =>
      cases u with
      | destroy => exact .after fun _ => .pure (.gone (.same ..))
      | _ => exact .pure (.kept rfl)
  | pipeline pipe =>
      cases u with
      | destroy => exact (pipelineDestroy_counts dev pipe).bind fun _ h => .pure (.gone h)
      | _ => exact .pure (.kept rfl)
  | descriptorSet ds =>
      cases u with
      | destroy => exact .after fun _ => .pure (.gone (.same ..))
      | _ => exact .pure (.kept rfl)

variable {handles : List Handle} {handle : Handle} {i : ℕ}

theorem sum_eraseIdx (h : handles[i]? = some handle) :
    (handles.map Handle.objects).sum = handle.objects + ((handles.eraseIdx i).map Handle.objects).sum := by
  obtain ⟨hi, rfl⟩ := List.getElem?_eq_some_iff.mp h
  rw [← List.sum_cons, ← List.map_cons]
  exact ((List.getElem_cons_eraseIdx_perm hi).symm.map _).sum_eq

theorem sum_afterUse (h : handles[i]? = some handle) (handle' : Option Handle) :
    handle'.elim 0 Handle.objects + ((handles.eraseIdx i).map Handle.objects).sum =
      ((afterUse handles i handle').map Handle.objects).sum := by
  obtain ⟨hi, rfl⟩ := List.getElem?_eq_some_iff.mp h
  cases handle' with
  | none => exact zero_add _
  | some handle' =>
      rw [Option.elim_some, ← List.sum_cons, ← List.map_cons]
      exact ((List.set_perm_cons_eraseIdx hi handle').symm.map _).sum_eq

/-- A step of a session leaves what the session owns then. -/
theorem exec_triple (s : Session) (op : Op) : Triple s.objects (exec s op) Session.objects := by
  cases op with
  | create creation =>
      refine (create_triple s.device creation).call_returns (create_counts s.device creation) (zero_add _).symm
        fun r hcounts => .pure ?_
      rw [Session.objects, Session.objects, hcounts.objects, add_left_comm]
      congr 1
      cases r.1 with
      | none => exact zero_add _
      | some handle => rfl
  | use i u =>
      rw [exec]
      cases hget : s.handles[i]? with
      | none => exact Triple.pure rfl
      | some handle =>
          have hbefore : s.objects = handle.objects +
              (s.device.objects + ((s.handles.eraseIdx i).map Handle.objects).sum) := by
            rw [Session.objects, Session.children, sum_eraseIdx hget]
            exact add_left_comm ..
          refine (use_triple s.device handle u).call_returns (use_counts s.device handle u) hbefore
            fun r hcounts => .pure ?_
          rw [add_left_comm, sum_afterUse hget, Session.objects, hcounts.counts.objects]
          rfl
  | shaderCacheInit config file createPipelineCache =>
      exact (shaderCacheInit_triple s.device config file createPipelineCache).call rfl fun _ => .pure rfl
  | shaderCacheFlush cacheSize malloc fopen =>
      exact (shaderCacheFlush_triple s.device cacheSize malloc fopen).call rfl fun _ => .pure rfl

theorem session_triple (config : Option DeviceConfig) {answers : DeviceAnswers} (hpaired : answers.Paired)
    (ops : List Op) : Triple 0 (session config answers ops) fun s => s.elim 0 Session.objects := by
  refine (deviceCreate_triple config hpaired).bind fun dev => ?_
  cases dev with
  | none => exact .pure rfl
  | some dev =>
      have hstart : dev.objects = ({ device := dev, handles := [] } : Session).objects := (add_zero _).symm
      exact .of_eq hstart ((Triple.foldlM exec_triple ops _).bind fun s => .pure rfl)

/-! ## Whole sessions -/

/-- Everything is to be had. -/
def someAnswers : DeviceAnswers where
  self := true
  vkInstance := true
  createDbg := true
  destroyDbg := true
  debugMessenger := true
  gpus := [⟨.discreteGpu, [7], [1, 6]⟩]
  device := true
  commandPool := true
  pipelineCache := true

/-- A buffer is made, mapped, and destroyed while it is. -/
def someOps : List Op :=
  [.create (.buffer 64 1 true ⟨true, true, 3, true⟩), .use 0 (.map true), .use 0 .destroy]

/-- The counters of a session say how many handles there are. -/
def Session.Counted (s : Session) : Prop :=
  ∀ c, (s.device.stats.active c).toNat = s.handles.countP (·.counter = some c)

theorem toNat_countDown {n : UInt32} (h : 0 < n.toNat) : (countDown n).toNat = n.toNat - 1 := by
  have hpos : n > 0 := UInt32.lt_iff_toNat_lt.mpr h
  rw [countDown, if_pos hpos]
  exact UInt32.toNat_sub_of_le _ _ (UInt32.le_iff_toNat_le.mpr h)

theorem countP_eraseIdx (h : handles[i]? = some handle) (c : Counter) :
    handles.countP (·.counter = some c) =
      (handles.eraseIdx i).countP (·.counter = some c) + if handle.counter = some c then 1 else 0 := by
  obtain ⟨hi, rfl⟩ := List.getElem?_eq_some_iff.mp h
  rw [← (List.getElem_cons_eraseIdx_perm hi).countP_eq, List.countP_cons]
  simp only [decide_eq_true_eq]

theorem shaderCacheInit_active (dev : Device) (config : Option ShaderCacheConfig) (file : FileAnswers)
    (createPipelineCache : Bool) :
    Returns (shaderCacheInit dev config file createPipelineCache)
      fun dev' => ∀ c, dev'.stats.active c = dev.stats.active c := by
  unfold shaderCacheInit
  refine .ite (fun _ => .pure fun _ => rfl) fun _ => .after fun f => .ite (fun _ => .pure fun _ => rfl) fun _ => ?_
  refine .ite (fun _ => .after fun _ => .pure fun _ => rfl) fun _ => .after fun data => ?_
  refine .ite (fun _ => .after fun _ => .after fun _ => .pure fun _ => rfl) fun _ => .after fun newCache => ?_
  refine .ite (fun _ => .after fun _ => .after fun _ => .pure fun _ => rfl) fun _ => ?_
  exact .after fun _ => .after fun _ => .after fun _ => .pure fun c => by cases c <;> rfl

theorem shaderCacheFlush_active (dev : Device) (cacheSize : UInt64) (malloc fopen : Bool) :
    Returns (shaderCacheFlush dev cacheSize malloc fopen)
      fun r => ∀ c, r.2.stats.active c = dev.stats.active c := by
  unfold shaderCacheFlush
  refine .ite (fun _ => .pure fun _ => rfl) fun _ => .ite (fun _ => .pure fun _ => rfl) fun _ => ?_
  refine .after fun data => .ite (fun _ => .pure fun _ => rfl) fun _ => .after fun f => ?_
  refine .ite (fun _ => .after fun _ => .pure fun _ => rfl) fun _ => ?_
  exact .after fun _ => .after fun _ => .pure fun c => by cases c <;> rfl

theorem exec_counted {s : Session} (op : Op) (h : s.Counted) :
    Returns (exec s op) fun s' => s'.handles.length < 2 ^ 32 → s'.Counted := by
  cases op with
  | create creation =>
      refine (create_counts s.device creation).bind fun (made, dev') hcounts => .pure fun hlength c => ?_
      dsimp only at hlength ⊢
      rw [hcounts.active c, List.countP_append, ← h c]
      cases made with
      | none => simp
      | some handle =>
          have hcount := h c
          have hle : s.handles.countP (·.counter = some c) ≤ s.handles.length := List.countP_le_length
          rw [Option.toList_some, List.length_append, List.length_singleton] at hlength
          simp only [Option.bind_some, Option.toList_some, List.countP_singleton, decide_eq_true_eq]
          split_ifs with hc
          · rw [UInt32.toNat_add]
            change (_ + 1) % 2 ^ 32 = _
            omega
          · exact (zero_add _).symm
  | use i u =>
      rw [exec]
      cases hget : s.handles[i]? with
      | none => exact .pure fun _ => h
      | some handle =>
          refine (use_counts s.device handle u).bind fun r hcounts => .pure fun _ c => ?_
          have hcount := h c
          have hsplit := countP_eraseIdx hget c
          obtain ⟨hi, -⟩ := List.getElem?_eq_some_iff.mp hget
          dsimp only
          rw [hcounts.counts.active c]
          cases hr : r.1 with
          | none =>
              change _ = (s.handles.eraseIdx i).countP _
              rw [Option.isNone_none, if_pos rfl]
              split_ifs at hsplit ⊢ with hc
              · rw [toNat_countDown (by omega)]
                omega
              · omega
          | some handle' =>
              change _ = (s.handles.set i handle').countP _
              rw [(List.set_perm_cons_eraseIdx hi handle').countP_eq, List.countP_cons, hcounts.counter handle' hr]
              simp only [Option.isNone_some, Bool.false_eq_true, if_false, reduceCtorEq, decide_eq_true_eq]
              omega
  | shaderCacheInit config file createPipelineCache =>
      refine (shaderCacheInit_active s.device config file createPipelineCache).bind fun dev' hactive => .pure ?_
      exact fun _ c => (congrArg UInt32.toNat (hactive c)).trans (h c)
  | shaderCacheFlush cacheSize malloc fopen =>
      refine (shaderCacheFlush_active s.device cacheSize malloc fopen).bind fun r hactive => .pure ?_
      exact fun _ c => (congrArg UInt32.toNat (hactive c)).trans (h c)

theorem deviceCreate_zero (config : Option DeviceConfig) (answers : DeviceAnswers) :
    Returns (deviceCreate config answers) fun dev => ∀ dev', dev = some dev' → dev'.stats = .zero := by
  have hnone : ∀ dev', (none : Option Device) = some dev' → dev'.stats = .zero := fun _ h => nomatch h
  unfold deviceCreate
  refine .after fun self => .ite (fun _ => .pure hnone) fun _ => .after fun vkInstance => ?_
  refine .ite (fun _ => .after fun _ => .pure hnone) fun _ => .after fun debugMessenger => ?_
  dsimp only
  split
  · exact .after fun _ => .pure hnone
  · refine .after fun gpus => .after fun _ => .after fun qfProps => .after fun _ => ?_
    split
    · exact .after fun _ => .pure hnone
    · refine .after fun device => .ite (fun _ => .after fun _ => .pure hnone) fun _ => .after fun commandPool => ?_
      refine .ite (fun _ => .after fun _ => .pure hnone) fun _ => .after fun pipelineCache => .pure fun dev' h => ?_
      rw [← Option.some.inj h]

theorem session_append (config : Option DeviceConfig) (answers : DeviceAnswers) (ops : List Op) (op : Op) :
    session config answers (ops ++ [op]) = do
      match ← session config answers ops with
      | none => return none
      | some s => return some (← exec s op) := by
  unfold session
  rw [bind_assoc]
  congr 1
  funext dev
  cases dev with
  | none => rfl
  | some dev =>
      dsimp only
      rw [List.foldlM_append, bind_assoc, bind_assoc]
      rfl

theorem exec_length (s : Session) (op : Op) :
    Returns (exec s op) fun s' => s'.handles.length ≤ s.handles.length + 1 := by
  cases op with
  | create creation =>
      refine .after fun (made, dev') => .pure ?_
      cases made with
      | none => exact Nat.le_succ _
      | some handle => exact le_rfl
  | use i u =>
      rw [exec]
      cases s.handles[i]? with
      | none => exact .pure (Nat.le_succ _)
      | some handle =>
          refine .after fun (made, dev') => .pure ?_
          cases made with
          | none => exact (List.length_eraseIdx_le ..).trans (Nat.le_succ _)
          | some handle' => exact (List.length_set ..).trans_le (Nat.le_succ _)
  | shaderCacheInit config file createPipelineCache => exact .after fun _ => .pure (Nat.le_succ _)
  | shaderCacheFlush cacheSize malloc fopen => exact .after fun _ => .pure (Nat.le_succ _)

theorem session_length (config : Option DeviceConfig) (answers : DeviceAnswers) (ops : List Op) :
    Returns (session config answers ops) fun s => ∀ s', s = some s' → s'.handles.length ≤ ops.length := by
  have hfold : ∀ (ops : List Op) (s : Session),
      Returns (ops.foldlM exec s) fun s' => s'.handles.length ≤ s.handles.length + ops.length := by
    intro ops
    induction ops with
    | nil => exact fun s => .pure le_rfl
    | cons op ops ih =>
        intro s
        rw [List.foldlM_cons, List.length_cons]
        refine (exec_length s op).bind fun s₁ h₁ ledger => ?_
        have h := ih s₁ ledger
        omega
  refine .after fun dev => ?_
  cases dev with
  | none => exact .pure fun _ h => nomatch h
  | some dev =>
      refine (hfold ops _).bind fun s h => .pure fun s' hs' => ?_
      obtain rfl := Option.some.inj hs'
      exact h.trans (Nat.zero_add _).le

/-- As long as there are fewer handles than a counter can count, the statistics say how many buffers, images,
pipelines and shaders there are. -/
theorem session_counted (config : Option DeviceConfig) (answers : DeviceAnswers) (ops : List Op)
    (hbound : ∀ n s, ((session config answers (ops.take n)).run .new).1 = some s → s.handles.length < 2 ^ 32) :
    ∀ s, ((session config answers ops).run .new).1 = some s → s.Counted := by
  induction ops using List.reverseRecOn with
  | nil =>
      have hnew : Returns (session config answers []) fun s => ∀ s', s = some s' → s'.Counted := by
        refine (deviceCreate_zero config answers).bind fun dev hzero => ?_
        cases dev with
        | none => exact .pure fun s hs => nomatch hs
        | some dev =>
            refine .pure fun s hs c => ?_
            obtain rfl := Option.some.inj hs
            rw [hzero dev rfl]
            cases c <;> rfl
      exact hnew .new
  | append_singleton ops op ih =>
      have htake : ∀ n, ops.take n = (ops ++ [op]).take (min n ops.length) := by
        intro n
        rw [List.take_append_of_le_length (min_le_right ..), ← List.take_take, List.take_length]
      have hcounted := ih fun n => htake n ▸ hbound _
      have hlength := hbound (ops ++ [op]).length
      rw [List.take_length, session_append] at hlength
      rw [session_append]
      intro s hs
      replace hlength := hlength s hs
      rw [StateT.run_bind] at hs
      change (StateT.run (match ((session config answers ops).run .new).1 with
        | none => pure none
        | some s => (do return some (← exec s op) : Gfx (Option Session)))
          ((session config answers ops).run .new).2).1 = some s at hs
      cases hprev : ((session config answers ops).run .new).1 with
      | none =>
          rw [hprev] at hs
          exact nomatch hs
      | some s₀ =>
          rw [hprev] at hs
          obtain rfl := Option.some.inj hs
          exact exec_counted op (hcounted s₀ hprev) _ hlength

theorem session_counted_someOps :
    ∃ s, ((session (some ⟨.preferDiscrete, true⟩) someAnswers someOps).run .new).1 = some s ∧ s.Counted := by
  have hsome : ((session (some ⟨.preferDiscrete, true⟩) someAnswers someOps).run .new).1.isSome = true := by
    decide +kernel
  obtain ⟨s, hs⟩ := Option.isSome_iff_exists.mp hsome
  refine ⟨s, hs, session_counted (some ⟨.preferDiscrete, true⟩) someAnswers someOps (fun n s hs => ?_) s hs⟩
  have hlength := session_length (some ⟨.preferDiscrete, true⟩) someAnswers (someOps.take n) .new s hs
  have htake : (someOps.take n).length ≤ 3 := List.length_take_le' n someOps
  omega

end LgxRuntime.Graphics.Objects
