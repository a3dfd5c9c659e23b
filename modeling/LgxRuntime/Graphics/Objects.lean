import LgxRuntime.Graphics.Upload
import LgxRuntime.Lib.ResourceLogic

/-!
# The objects of the graphics module

A device, and what is made on it: buffers, images, shaders, render passes, pipelines, command buffers and
descriptor sets.  Every function is a program that acquires and releases: memory of the C heap, files, and the
objects of Vulkan.  What Vulkan, the allocator and the file system answer is given as answers.  A call that fails
leaves a null handle.  Where the source does not look at what `calloc` has returned before it writes there, the
memory is taken to be had.
-/

namespace LgxRuntime.Graphics.Objects

open LgxRuntime.Runtime (LgxResult)
open ResourceLogic

/-- What the functions acquire.  A mapping has the name of the memory that is mapped. -/
inductive GfxResource
  | heap
  | file
  | vkInstance
  | debugMessenger
  | device
  | commandPool
  | pipelineCache
  | buffer
  | memory
  | mapping
  | image
  | imageView
  | shaderModule
  | renderPass
  | pipelineLayout
  | pipeline
  | commandBuffer
  | descriptorSetLayout
  | descriptorPool
  deriving DecidableEq

/-- A function of the graphics module. -/
abbrev Gfx (α : Type) := Program GfxResource α

/-! ## Devices -/

/-- `lgx_gfx_gpu_preference_t`. -/
inductive GpuPreference
  | preferDiscrete
  | preferIntegrated
  | preferAny
  deriving DecidableEq

/-- The type of a physical device. -/
inductive DeviceType
  | other
  | integratedGpu
  | discreteGpu
  | virtualGpu
  | cpu
  deriving DecidableEq

/-- A physical device: its type, the flags of its queue families, and the properties of its memory types. -/
structure PhysicalDevice where
  deviceType : DeviceType
  queueFamilies : List UInt32
  memoryTypes : List UInt32

/-- `lgx_gfx_device_config_t`. -/
structure DeviceConfig where
  gpuPreference : GpuPreference
  enableValidation : Bool

/-- The counters of `lgx_gfx_stats_t` that creating and destroying change. -/
structure Stats where
  activeBuffers : UInt32
  activeImages : UInt32
  activePipelines : UInt32
  activeShaders : UInt32
  shaderCacheHits : UInt64
  shaderCacheMisses : UInt64
  shaderCacheSizeBytes : UInt64

/-- `lgx_gfx_device`, and the name of its memory. -/
structure Device where
  self : ℕ
  vkInstance : ℕ
  debugMessenger : ℕ
  device : ℕ
  commandPool : ℕ
  pipelineCache : ℕ
  graphicsQueueFamily : ℕ
  transferQueueFamily : ℕ
  memoryTypes : List UInt32
  diskCacheEnabled : Bool
  maxCacheSize : UInt64
  stats : Stats

/-- What the calls in `lgx_gfx_device_create` answer.  `createDbg` and `destroyDbg` say whether the functions of
the debug messenger are found. -/
structure DeviceAnswers where
  self : Bool
  vkInstance : Bool
  createDbg : Bool
  destroyDbg : Bool
  debugMessenger : Bool
  gpus : List PhysicalDevice
  device : Bool
  commandPool : Bool
  pipelineCache : Bool

/-- The loop that scores the physical devices. -/
def selectGpu (pref : GpuPreference) (fallback : PhysicalDevice) : List PhysicalDevice → PhysicalDevice
  | [] => fallback
  | gpu :: gpus =>
      if pref = .preferDiscrete ∧ gpu.deviceType = .discreteGpu then gpu
      else if pref = .preferIntegrated ∧ gpu.deviceType = .integratedGpu then gpu
      else selectGpu pref fallback gpus

/-- `VK_QUEUE_GRAPHICS_BIT`. -/
def queueGraphicsBit : UInt32 := 1

/-- `VK_QUEUE_TRANSFER_BIT`. -/
def queueTransferBit : UInt32 := 4

/-- The loop over the queue families from `i` on, with the families found so far. -/
def findQueueFamilies (i : ℕ) (graphics transfer : Option ℕ) : List UInt32 → Option ℕ × Option ℕ
  | [] => (graphics, transfer)
  | flags :: rest =>
      let graphics := if flags &&& queueGraphicsBit ≠ 0 ∧ graphics = none then some i else graphics
      let transfer :=
        if flags &&& queueTransferBit ≠ 0 ∧ flags &&& queueGraphicsBit = 0 ∧ transfer = none then some i
        else transfer
      findQueueFamilies (i + 1) graphics transfer rest

/-- `lgx_gfx_device_destroy`; `destroyDbg` says whether the function of the debug messenger is found. -/
def deviceDestroy (dev : Device) (destroyDbg : Bool) : Gfx Unit := do
  release .pipelineCache dev.pipelineCache
  release .commandPool dev.commandPool
  release .device dev.device
  if destroyDbg then
    release .debugMessenger dev.debugMessenger
  release .vkInstance dev.vkInstance
  release .heap dev.self

/-- What `memset` makes of the counters. -/
def Stats.zero : Stats :=
  ⟨0, 0, 0, 0, 0, 0, 0⟩

/-- `lgx_gfx_device_create`. -/
def deviceCreate (config : Option DeviceConfig) (answers : DeviceAnswers) : Gfx (Option Device) := do
  let self ← acquire .heap answers.self
  if self = 0 then return none
  let validation := config.any (·.enableValidation)
  let pref := config.elim .preferDiscrete (·.gpuPreference)
  let vkInstance ← acquire .vkInstance answers.vkInstance
  if vkInstance = 0 then
    release .heap self
    return none
  let debugMessenger ← acquire .debugMessenger (validation && answers.createDbg && answers.debugMessenger)
  let dev : Device :=
    { self, vkInstance, debugMessenger, device := 0, commandPool := 0, pipelineCache := 0,
      graphicsQueueFamily := 0, transferQueueFamily := 0, memoryTypes := [], diskCacheEnabled := false,
      maxCacheSize := 0, stats := .zero }
  match answers.gpus with
  | [] =>
      deviceDestroy dev answers.destroyDbg
      return none
  | first :: others =>
      let gpus ← acquire .heap true
      let gpu := selectGpu pref first (first :: others)
      release .heap gpus
      let qfProps ← acquire .heap true
      let families := findQueueFamilies 0 none none gpu.queueFamilies
      release .heap qfProps
      match families.1 with
      | none =>
          deviceDestroy dev answers.destroyDbg
          return none
      | some graphicsQueueFamily =>
          let device ← acquire .device answers.device
          if device = 0 then
            deviceDestroy dev answers.destroyDbg
            return none
          let commandPool ← acquire .commandPool answers.commandPool
          if commandPool = 0 then
            deviceDestroy { dev with device } answers.destroyDbg
            return none
          let pipelineCache ← acquire .pipelineCache answers.pipelineCache
          return some { dev with
            device, commandPool, pipelineCache, graphicsQueueFamily
            transferQueueFamily := families.2.getD graphicsQueueFamily
            memoryTypes := gpu.memoryTypes }

/-- `find_memory_type`, from the memory type `i` on. -/
def findMemoryTypeFrom (typeFilter props : UInt32) (i : ℕ) : List UInt32 → Option ℕ
  | [] => none
  | flags :: rest =>
      if typeFilter &&& (1 <<< UInt32.ofNat i) ≠ 0 ∧ flags &&& props = props then some i
      else findMemoryTypeFrom typeFilter props (i + 1) rest

/-- `find_memory_type`. -/
def findMemoryType (dev : Device) (typeFilter props : UInt32) : Option ℕ :=
  findMemoryTypeFrom typeFilter props 0 dev.memoryTypes

/-- `VK_MEMORY_PROPERTY_HOST_VISIBLE_BIT | VK_MEMORY_PROPERTY_HOST_COHERENT_BIT`. -/
def hostVisibleCoherent : UInt32 := 2 ||| 4

/-- `VK_MEMORY_PROPERTY_DEVICE_LOCAL_BIT`. -/
def deviceLocal : UInt32 := 1

/-- A counter goes down, unless it is zero. -/
def countDown (n : UInt32) : UInt32 :=
  if n > 0 then n - 1 else n

/-! ## Buffers -/

/-- `lgx_gfx_buffer`, and the name of its memory on the heap; `mapped` says whether its memory is mapped. -/
structure Buffer where
  self : ℕ
  vkBuffer : ℕ
  vkMemory : ℕ
  size : UInt64
  usage : UInt32
  hostVisible : Bool
  mapped : Bool

/-- What the calls answer that make an object with memory. -/
structure MemoryAnswers where
  self : Bool
  object : Bool
  memoryTypeBits : UInt32
  memory : Bool

/-- `lgx_gfx_buffer_create`. -/
def bufferCreate (dev : Device) (size : UInt64) (usage : UInt32) (hostVisible : Bool)
    (answers : MemoryAnswers) : Gfx (Option Buffer × Device) := do
  if size = 0 then return (none, dev)
  let self ← acquire .heap answers.self
  if self = 0 then return (none, dev)
  let vkBuffer ← acquire .buffer answers.object
  if vkBuffer = 0 then
    release .heap self
    return (none, dev)
  let memProps := if hostVisible then hostVisibleCoherent else deviceLocal
  if findMemoryType dev answers.memoryTypeBits memProps = none then
    release .buffer vkBuffer
    release .heap self
    return (none, dev)
  let vkMemory ← acquire .memory answers.memory
  if vkMemory = 0 then
    release .buffer vkBuffer
    release .heap self
    return (none, dev)
  return (some { self, vkBuffer, vkMemory, size, usage, hostVisible, mapped := false },
    { dev with stats := { dev.stats with activeBuffers := dev.stats.activeBuffers + 1 } })

/-- `lgx_gfx_buffer_map`: whether there is a mapping, and the buffer afterwards. -/
def bufferMap (buf : Buffer) (mapMemory : Bool) : Gfx (Bool × Buffer) := do
  if !buf.hostVisible || buf.mapped then return (buf.mapped, buf)
  if mapMemory then
    attach .mapping buf.vkMemory
  return (mapMemory, { buf with mapped := mapMemory })

/-- `lgx_gfx_buffer_unmap`. -/
def bufferUnmap (buf : Buffer) : Gfx Buffer := do
  if !buf.mapped then return buf
  release .mapping buf.vkMemory
  return { buf with mapped := false }

/-- `lgx_gfx_buffer_destroy`: the device afterwards. -/
def bufferDestroy (dev : Device) (buf : Buffer) : Gfx Device := do
  let buf ← bufferUnmap buf
  release .buffer buf.vkBuffer
  release .memory buf.vkMemory
  release .heap buf.self
  return { dev with stats := { dev.stats with activeBuffers := countDown dev.stats.activeBuffers } }

/-- `create_staging_buffer`: the buffer, or zero, and its memory. -/
def createStagingBuffer (vk : VkAnswers) : Gfx (ℕ × ℕ) := do
  let staging ← acquire .buffer vk.createBuffer
  if staging = 0 then return (0, 0)
  if !vk.memoryType then
    release .buffer staging
    return (0, 0)
  let outMem ← acquire .memory vk.allocateMemory
  if outMem = 0 then
    release .buffer staging
    return (0, 0)
  attach .mapping outMem
  release .mapping outMem
  return (staging, outMem)

/-- What uploads to buffers and to images have in common: a staging buffer, and a command buffer that copies
from it. -/
def copyFromStaging (vk : VkAnswers) : Gfx LgxResult := do
  let staging ← createStagingBuffer vk
  if staging.1 = 0 then return .outOfMemory
  let cmd ← acquire .commandBuffer vk.allocateCommandBuffers
  if cmd = 0 then
    release .buffer staging.1
    release .memory staging.2
    return .outOfMemory
  release .commandBuffer cmd
  release .buffer staging.1
  release .memory staging.2
  return .success

/-- `lgx_gfx_buffer_upload`: its result, and the buffer afterwards. -/
def bufferUpload (vk : VkAnswers) (buf : Buffer) (data : ℕ) (size offset : UInt64) :
    Gfx (LgxResult × Buffer) := do
  if data = 0 || buf.size < offset + size then return (.invalidParam, buf)
  if buf.hostVisible then
    let mapped ← bufferMap buf vk.mapMemory
    if !mapped.1 then return (.outOfMemory, mapped.2)
    let buf ← bufferUnmap mapped.2
    return (.success, buf)
  let result ← copyFromStaging vk
  return (result, buf)

/-! ## Images -/

/-- `lgx_gfx_image`, and the name of its memory on the heap. -/
structure Image where
  self : ℕ
  vkImage : ℕ
  vkMemory : ℕ
  vkView : ℕ
  width : UInt32
  height : UInt32
  vkFormat : VkFormat

/-- `lgx_gfx_image_create`. -/
def imageCreate (dev : Device) (width height format : UInt32) (answers : MemoryAnswers) (view : Bool) :
    Gfx (Option Image × Device) := do
  if width = 0 || height = 0 then return (none, dev)
  let self ← acquire .heap answers.self
  if self = 0 then return (none, dev)
  let vkImage ← acquire .image answers.object
  if vkImage = 0 then
    release .heap self
    return (none, dev)
  if findMemoryType dev answers.memoryTypeBits deviceLocal = none then
    release .image vkImage
    release .heap self
    return (none, dev)
  let vkMemory ← acquire .memory answers.memory
  if vkMemory = 0 then
    release .image vkImage
    release .heap self
    return (none, dev)
  let vkView ← acquire .imageView view
  if vkView = 0 then
    release .memory vkMemory
    release .image vkImage
    release .heap self
    return (none, dev)
  return (some { self, vkImage, vkMemory, vkView, width, height, vkFormat := lgxToVkFormat format },
    { dev with stats := { dev.stats with activeImages := dev.stats.activeImages + 1 } })

/-- `lgx_gfx_image_destroy`: the device afterwards. -/
def imageDestroy (dev : Device) (img : Image) : Gfx Device := do
  release .imageView img.vkView
  release .image img.vkImage
  release .memory img.vkMemory
  release .heap img.self
  return { dev with stats := { dev.stats with activeImages := countDown dev.stats.activeImages } }

/-- `lgx_gfx_image_upload`. -/
def imageUpload (vk : VkAnswers) (pixels : ℕ) (dataSize : UInt64) : Gfx LgxResult := do
  if pixels = 0 || dataSize = 0 then return .invalidParam
  copyFromStaging vk

/-! ## Shaders -/

/-- `lgx_gfx_shader`, and the name of its memory. -/
structure Shader where
  self : ℕ
  vkModule : ℕ
  stage : UInt32

/-- What the calls in `lgx_gfx_shader_create` answer. -/
structure ShaderAnswers where
  self : Bool
  vkModule : Bool

/-- What the file system and the allocator answer to a function that reads a file whole: the size that `ftell`
tells, and how many bytes `fread` reads. -/
structure FileAnswers where
  fopen : Bool
  fileSize : ℤ
  malloc : Bool
  fread : ℕ

/-- `lgx_gfx_shader_create`. -/
def shaderCreate (dev : Device) (spirvCode : ℕ) (codeSize : ℕ) (stage : UInt32) (answers : ShaderAnswers) :
    Gfx (Option Shader × Device) := do
  if spirvCode = 0 || codeSize = 0 then return (none, dev)
  let self ← acquire .heap answers.self
  if self = 0 then return (none, dev)
  let vkModule ← acquire .shaderModule answers.vkModule
  if vkModule = 0 then
    release .heap self
    return (none, dev)
  return (some { self, vkModule, stage },
    { dev with stats := { dev.stats with
        activeShaders := dev.stats.activeShaders + 1
        shaderCacheMisses := dev.stats.shaderCacheMisses + 1 } })

/-- `lgx_gfx_shader_load`. -/
def shaderLoad (dev : Device) (stage : UInt32) (file : FileAnswers) (answers : ShaderAnswers) :
    Gfx (Option Shader × Device) := do
  let f ← acquire .file file.fopen
  if f = 0 then return (none, dev)
  if file.fileSize ≤ 0 || 16 * 1024 * 1024 < file.fileSize then
    release .file f
    return (none, dev)
  let code ← acquire .heap file.malloc
  if code = 0 then
    release .file f
    return (none, dev)
  if file.fread ≠ file.fileSize.toNat then
    release .heap code
    release .file f
    return (none, dev)
  release .file f
  let shader ← shaderCreate dev code file.fileSize.toNat stage answers
  release .heap code
  return shader

/-- `lgx_gfx_shader_destroy`: the device afterwards. -/
def shaderDestroy (dev : Device) (shader : Shader) : Gfx Device := do
  release .shaderModule shader.vkModule
  release .heap shader.self
  return { dev with stats := { dev.stats with activeShaders := countDown dev.stats.activeShaders } }

/-! ## Render passes and pipelines -/

/-- `lgx_gfx_renderpass`, and the name of its memory. -/
structure RenderPass where
  self : ℕ
  vkRenderpass : ℕ
  attachmentCount : UInt32

/-- `lgx_gfx_renderpass_create`; the arrays that it builds are freed before it looks at the result. -/
def renderpassCreate (attachmentCount : UInt32) (self renderPass : Bool) : Gfx (Option RenderPass) := do
  if attachmentCount = 0 then return none
  let rp ← acquire .heap self
  if rp = 0 then return none
  let vkAttachments ← acquire .heap true
  let colorRefs ← acquire .heap true
  let vkRenderpass ← acquire .renderPass renderPass
  release .heap vkAttachments
  release .heap colorRefs
  if vkRenderpass = 0 then
    release .heap rp
    return none
  return some { self := rp, vkRenderpass, attachmentCount }

/-- `lgx_gfx_renderpass_destroy`. -/
def renderpassDestroy (rp : RenderPass) : Gfx Unit := do
  release .renderPass rp.vkRenderpass
  release .heap rp.self

/-- `lgx_gfx_pipeline`, and the name of its memory. -/
structure Pipeline where
  self : ℕ
  vkPipeline : ℕ
  vkLayout : ℕ

/-- What the calls in `lgx_gfx_pipeline_create` answer. -/
structure PipelineAnswers where
  self : Bool
  vkLayout : Bool
  vkPipeline : Bool

/-- `lgx_gfx_pipeline_create`; `shaders` says whether the configuration has shaders and a render pass, and
`attributes` whether it has attributes. -/
def pipelineCreate (dev : Device) (shaders attributes : Bool) (answers : PipelineAnswers) :
    Gfx (Option Pipeline × Device) := do
  if !shaders then return (none, dev)
  let self ← acquire .heap answers.self
  if self = 0 then return (none, dev)
  let vkAttrs ← acquire .heap attributes
  let vkLayout ← acquire .pipelineLayout answers.vkLayout
  if vkLayout = 0 then
    release .heap vkAttrs
    release .heap self
    return (none, dev)
  let vkPipeline ← acquire .pipeline answers.vkPipeline
  release .heap vkAttrs
  if vkPipeline = 0 then
    release .pipelineLayout vkLayout
    release .heap self
    return (none, dev)
  return (some { self, vkPipeline, vkLayout },
    { dev with stats := { dev.stats with activePipelines := dev.stats.activePipelines + 1 } })

/-- `lgx_gfx_pipeline_destroy`: the device afterwards. -/
def pipelineDestroy (dev : Device) (pipe : Pipeline) : Gfx Device := do
  release .pipeline pipe.vkPipeline
  release .pipelineLayout pipe.vkLayout
  release .heap pipe.self
  return { dev with stats := { dev.stats with activePipelines := countDown dev.stats.activePipelines } }

/-! ## Command buffers -/

/-- `lgx_gfx_cmd_buffer`, and the name of its memory. -/
structure CmdBuffer where
  self : ℕ
  vkCmd : ℕ
  recording : Bool

/-- `lgx_gfx_cmd_begin`. -/
def cmdBegin (self allocateCommandBuffers beginCommandBuffer : Bool) : Gfx (Option CmdBuffer) := do
  let cmd ← acquire .heap self
  if cmd = 0 then return none
  let vkCmd ← acquire .commandBuffer allocateCommandBuffers
  if vkCmd = 0 then
    release .heap cmd
    return none
  if !beginCommandBuffer then
    release .commandBuffer vkCmd
    release .heap cmd
    return none
  return some { self := cmd, vkCmd, recording := true }

/-- `lgx_gfx_cmd_end`: its result, and the command buffer afterwards. -/
def cmdEnd (cmd : CmdBuffer) (endCommandBuffer : Bool) : LgxResult × CmdBuffer :=
  if !cmd.recording then (.invalidParam, cmd)
  else (if endCommandBuffer then .success else .invalidParam, { cmd with recording := false })

/-- `lgx_gfx_cmd_submit`.  The command buffer is gone if it succeeds, and only then. -/
def cmdSubmit (cmd : CmdBuffer) (queueSubmit : Bool) : Gfx LgxResult := do
  if !queueSubmit then return .invalidParam
  release .commandBuffer cmd.vkCmd
  release .heap cmd.self
  return .success

/-! ## Descriptor sets -/

/-- `lgx_gfx_descriptor_set`, and the name of its memory.  The set itself goes with its pool. -/
structure DescriptorSet where
  self : ℕ
  vkPool : ℕ
  vkLayout : ℕ
  vkPipelineLayout : ℕ

/-- What the calls in `lgx_gfx_descriptor_set_create` answer. -/
structure DescriptorAnswers where
  self : Bool
  vkLayout : Bool
  vkPool : Bool
  vkSet : Bool
  vkPipelineLayout : Bool

/-- `lgx_gfx_descriptor_set_create`, on the number of bindings and their address. -/
def descriptorSetCreate (bindingCount : UInt32) (bindings : ℕ) (answers : DescriptorAnswers) :
    Gfx (Option DescriptorSet) := do
  if bindingCount = 0 || bindings = 0 then return none
  let self ← acquire .heap answers.self
  if self = 0 then return none
  let layoutBindings ← acquire .heap true
  let poolSizes ← acquire .heap true
  let vkLayout ← acquire .descriptorSetLayout answers.vkLayout
  release .heap layoutBindings
  if vkLayout = 0 then
    release .heap poolSizes
    release .heap self
    return none
  let vkPool ← acquire .descriptorPool answers.vkPool
  release .heap poolSizes
  if vkPool = 0 then
    release .descriptorSetLayout vkLayout
    release .heap self
    return none
  if !answers.vkSet then
    release .descriptorPool vkPool
    release .descriptorSetLayout vkLayout
    release .heap self
    return none
  let writes ← acquire .heap true
  let bufInfos ← acquire .heap true
  release .heap writes
  release .heap bufInfos
  let vkPipelineLayout ← acquire .pipelineLayout answers.vkPipelineLayout
  return some { self, vkPool, vkLayout, vkPipelineLayout }

/-- `lgx_gfx_descriptor_set_destroy`. -/
def descriptorSetDestroy (ds : DescriptorSet) : Gfx Unit := do
  release .pipelineLayout ds.vkPipelineLayout
  release .descriptorPool ds.vkPool
  release .descriptorSetLayout ds.vkLayout
  release .heap ds.self

/-! ## The shader cache -/

/-- `lgx_gfx_shader_cache_config_t`. -/
structure ShaderCacheConfig where
  maxCacheSizeMb : UInt64
  enableDiskCache : Bool

/-- `lgx_gfx_shader_cache_init`: the device afterwards.  A cache that has been loaded takes the place of the
cache of the device. -/
def shaderCacheInit (dev : Device) (config : Option ShaderCacheConfig) (file : FileAnswers)
    (createPipelineCache : Bool) : Gfx Device := do
  let maxCacheSize := match config with
    | some config => if config.maxCacheSizeMb > 0 then config.maxCacheSizeMb * 1024 * 1024 else 256 * 1024 * 1024
    | none => 256 * 1024 * 1024
  let dev := { dev with diskCacheEnabled := config.any (·.enableDiskCache), maxCacheSize }
  if !dev.diskCacheEnabled then return dev
  let f ← acquire .file file.fopen
  if f = 0 then return dev
  if file.fileSize ≤ 0 || maxCacheSize.toNat < file.fileSize.toNat then
    release .file f
    return dev
  let data ← acquire .heap file.malloc
  if data = 0 || file.fread ≠ file.fileSize.toNat then
    release .heap data
    release .file f
    return dev
  let newCache ← acquire .pipelineCache createPipelineCache
  if newCache = 0 then
    release .heap data
    release .file f
    return dev
  release .pipelineCache dev.pipelineCache
  release .heap data
  release .file f
  return { dev with
    pipelineCache := newCache
    stats := { dev.stats with shaderCacheHits := dev.stats.shaderCacheHits + 1 } }

/-- `lgx_gfx_shader_cache_flush`: its result, and the device afterwards. -/
def shaderCacheFlush (dev : Device) (cacheSize : UInt64) (malloc fopen : Bool) : Gfx (LgxResult × Device) := do
  if !dev.diskCacheEnabled then return (.invalidParam, dev)
  if cacheSize = 0 then return (.success, dev)
  let data ← acquire .heap malloc
  if data = 0 then return (.outOfMemory, dev)
  let f ← acquire .file fopen
  if f = 0 then
    release .heap data
    return (.success, dev)
  release .file f
  release .heap data
  return (.success, { dev with stats := { dev.stats with shaderCacheSizeBytes := cacheSize } })

/-! ## Sessions -/

/-- What the client has been given a handle of. -/
inductive Handle
  | buffer (buf : Buffer)
  | image (img : Image)
  | shader (shader : Shader)
  | renderPass (rp : RenderPass)
  | pipeline (pipe : Pipeline)
  | cmdBuffer (cmd : CmdBuffer)
  | descriptorSet (ds : DescriptorSet)

/-- The calls that make something. -/
inductive Creation
  | buffer (size : UInt64) (usage : UInt32) (hostVisible : Bool) (answers : MemoryAnswers)
  | image (width height format : UInt32) (answers : MemoryAnswers) (view : Bool)
  | shader (spirvCode codeSize : ℕ) (stage : UInt32) (answers : ShaderAnswers)
  | shaderFromFile (stage : UInt32) (file : FileAnswers) (answers : ShaderAnswers)
  | renderPass (attachmentCount : UInt32) (self renderPass : Bool)
  | pipeline (shaders attributes : Bool) (answers : PipelineAnswers)
  | cmdBuffer (self allocateCommandBuffers beginCommandBuffer : Bool)
  | descriptorSet (bindingCount : UInt32) (bindings : ℕ) (answers : DescriptorAnswers)

/-- The calls that take a handle. -/
inductive Use
  | destroy
  | map (mapMemory : Bool)
  | unmap
  | upload (vk : VkAnswers) (data : ℕ) (size offset : UInt64)
  | endRecording (endCommandBuffer : Bool)
  | submit (queueSubmit : Bool)

/-- A call that makes something: its handle, and the device afterwards. -/
def create (dev : Device) : Creation → Gfx (Option Handle × Device)
  | .buffer size usage hostVisible answers => do
      let r ← bufferCreate dev size usage hostVisible answers
      return (r.1.map .buffer, r.2)
  | .image width height format answers view => do
      let r ← imageCreate dev width height format answers view
      return (r.1.map .image, r.2)
  | .shader spirvCode codeSize stage answers => do
      let r ← shaderCreate dev spirvCode codeSize stage answers
      return (r.1.map .shader, r.2)
  | .shaderFromFile stage file answers => do
      let r ← shaderLoad dev stage file answers
      return (r.1.map .shader, r.2)
  | .renderPass attachmentCount self renderPass => do
      let rp ← renderpassCreate attachmentCount self renderPass
      return (rp.map .renderPass, dev)
  | .pipeline shaders attributes answers => do
      let r ← pipelineCreate dev shaders attributes answers
      return (r.1.map .pipeline, r.2)
  | .cmdBuffer self allocateCommandBuffers beginCommandBuffer => do
      let cmd ← cmdBegin self allocateCommandBuffers beginCommandBuffer
      return (cmd.map .cmdBuffer, dev)
  | .descriptorSet bindingCount bindings answers => do
      let ds ← descriptorSetCreate bindingCount bindings answers
      return (ds.map .descriptorSet, dev)

/-- A call that takes a handle: the handle afterwards, unless it is gone, and the device.  There is no function to
destroy a command buffer; it goes when it is submitted.  A handle of a kind that the call does not take is left as it
is. -/
def use (dev : Device) : Handle → Use → Gfx (Option Handle × Device)
  | .buffer buf, .destroy => do
      let dev ← bufferDestroy dev buf
      return (none, dev)
  | .image img, .destroy => do
      let dev ← imageDestroy dev img
      return (none, dev)
  | .shader shader, .destroy => do
      let dev ← shaderDestroy dev shader
      return (none, dev)
  | .renderPass rp, .destroy => do
      renderpassDestroy rp
      return (none, dev)
  | .pipeline pipe, .destroy => do
      let dev ← pipelineDestroy dev pipe
      return (none, dev)
  | .descriptorSet ds, .destroy => do
      descriptorSetDestroy ds
      return (none, dev)
  | .buffer buf, .map mapMemory => do
      let r ← bufferMap buf mapMemory
      return (some (.buffer r.2), dev)
  | .buffer buf, .unmap => do
      let buf ← bufferUnmap buf
      return (some (.buffer buf), dev)
  | .buffer buf, .upload vk data size offset => do
      let r ← bufferUpload vk buf data size offset
      return (some (.buffer r.2), dev)
  | .image img, .upload vk data size _ => do
      let _ ← imageUpload vk data size
      return (some (.image img), dev)
  | .cmdBuffer cmd, .endRecording endCommandBuffer => return (some (.cmdBuffer (cmdEnd cmd endCommandBuffer).2), dev)
  | .cmdBuffer cmd, .submit queueSubmit => do
      let result ← cmdSubmit cmd queueSubmit
      return (if result = .success then none else some (.cmdBuffer cmd), dev)
  | handle, _ => return (some handle, dev)

/-- A device, and the handles of what is on it. -/
structure Session where
  device : Device
  handles : List Handle

/-- What a client does in a session: the handles are numbered. -/
inductive Op
  | create (creation : Creation)
  | use (i : ℕ) (use : Use)
  | shaderCacheInit (config : Option ShaderCacheConfig) (file : FileAnswers) (createPipelineCache : Bool)
  | shaderCacheFlush (cacheSize : UInt64) (malloc fopen : Bool)

/-- What becomes of the handles when one of them is used. -/
def afterUse (handles : List Handle) (i : ℕ) : Option Handle → List Handle
  | none => handles.eraseIdx i
  | some handle => handles.set i handle

/-- One step of a session. -/
def exec (s : Session) : Op → Gfx Session
  | .create creation => do
      let r ← create s.device creation
      return { device := r.2, handles := r.1.toList ++ s.handles }
  | .use i u =>
      match s.handles[i]? with
      | none => return s
      | some handle => do
          let r ← use s.device handle u
          return { device := r.2, handles := afterUse s.handles i r.1 }
  | .shaderCacheInit config file createPipelineCache => do
      let device ← shaderCacheInit s.device config file createPipelineCache
      return { s with device }
  | .shaderCacheFlush cacheSize malloc fopen => do
      let r ← shaderCacheFlush s.device cacheSize malloc fopen
      return { s with device := r.2 }

/-- A device is made, and worked on. -/
def session (config : Option DeviceConfig) (answers : DeviceAnswers) (ops : List Op) : Gfx (Option Session) := do
  match ← deviceCreate config answers with
  | none => return none
  | some device =>
      let s ← ops.foldlM exec { device, handles := [] }
      return some s

end LgxRuntime.Graphics.Objects
