import LgxRuntime.Asset.AssetSlots
import LgxRuntime.Asset.Compress
import LgxRuntime.Asset.Decompression
import LgxRuntime.Asset.Manager
import LgxRuntime.Audio.Buffer
import LgxRuntime.Audio.Mixer
import LgxRuntime.Audio.Wav
import LgxRuntime.Audio.WavChunks
import LgxRuntime.Audio.WavLoading
import LgxRuntime.FrameArena.AllocationTags
import LgxRuntime.FrameArena.Arena
import LgxRuntime.FrameArena.ArenaInvariant
import LgxRuntime.FrameArena.ChromeTrace
import LgxRuntime.FrameArena.FrameRotation
import LgxRuntime.FrameArena.FrameRun
import LgxRuntime.FrameArena.FrameUsage
import LgxRuntime.FrameArena.Frames
import LgxRuntime.FrameArena.RequestBounds
import LgxRuntime.FrameArena.UsageWindow
import LgxRuntime.GpuPool.BlockSizes
import LgxRuntime.GpuPool.Buddy
import LgxRuntime.GpuPool.BuddyInvariant
import LgxRuntime.GpuPool.BuddyOperations
import LgxRuntime.GpuPool.BuddyRun
import LgxRuntime.GpuPool.BuddySteps
import LgxRuntime.GpuPool.Coalescing
import LgxRuntime.GpuPool.FailedAllocation
import LgxRuntime.GpuPool.Pool
import LgxRuntime.GpuPool.PoolAccounting
import LgxRuntime.GpuPool.PoolBounds
import LgxRuntime.GpuPool.PoolLifecycle
import LgxRuntime.GpuPool.SlotRecycling
import LgxRuntime.GpuPool.SplitCalls
import LgxRuntime.Graphics.BufferMapping
import LgxRuntime.Graphics.FramePacing
import LgxRuntime.Graphics.ObjectOwnership
import LgxRuntime.Graphics.Objects
import LgxRuntime.Graphics.Swapchain
import LgxRuntime.Graphics.SwapchainOwnership
import LgxRuntime.Graphics.Upload
import LgxRuntime.HealthMonitor.Check
import LgxRuntime.HealthMonitor.CheckCounts
import LgxRuntime.HealthMonitor.Monitor
import LgxRuntime.HealthMonitor.ThreadOwnership
import LgxRuntime.HugePages.RegionFamilies
import LgxRuntime.HugePages.Regions
import LgxRuntime.Input.Controls
import LgxRuntime.Input.EventDelivery
import LgxRuntime.Input.EventQueue
import LgxRuntime.Input.Gamepads
import LgxRuntime.Input.Hotplug
import LgxRuntime.Intent.Allocator
import LgxRuntime.Intent.FrameReclaim
import LgxRuntime.Intent.Routing
import LgxRuntime.Intent.RoutingRun
import LgxRuntime.LeakDetector.Detector
import LgxRuntime.LeakDetector.Histories
import LgxRuntime.LeakDetector.Suspects
import LgxRuntime.Lib.BitSmear
import LgxRuntime.Lib.BlockLog
import LgxRuntime.Lib.BlockedLoop
import LgxRuntime.Lib.BubbleSort
import LgxRuntime.Lib.Custody
import LgxRuntime.Lib.FileMap
import LgxRuntime.Lib.FitLevel
import LgxRuntime.Lib.FreeLists
import LgxRuntime.Lib.Headcount
import LgxRuntime.Lib.History
import LgxRuntime.Lib.Interleaving
import LgxRuntime.Lib.Json
import LgxRuntime.Lib.KeyTable
import LgxRuntime.Lib.Linearization
import LgxRuntime.Lib.Linked
import LgxRuntime.Lib.ListFamily
import LgxRuntime.Lib.LittleEndian
import LgxRuntime.Lib.NamedEntries
import LgxRuntime.Lib.PendingMax
import LgxRuntime.Lib.Qsort
import LgxRuntime.Lib.RegionLog
import LgxRuntime.Lib.Reports
import LgxRuntime.Lib.ResourceLogic
import LgxRuntime.Lib.Ring
import LgxRuntime.Lib.RollingWindow
import LgxRuntime.Lib.Runs
import LgxRuntime.Lib.Scanf
import LgxRuntime.Lib.Sha256
import LgxRuntime.Lib.SlotTable
import LgxRuntime.Lib.StoreLoop
import LgxRuntime.Lib.TicketRing
import LgxRuntime.Lib.Tiling
import LgxRuntime.Lib.TreiberStack
import LgxRuntime.Lib.Utf8
import LgxRuntime.LockFreePool.Pool
import LgxRuntime.Machine
import LgxRuntime.MemoryManager.Calls
import LgxRuntime.MemoryManager.IntentTracking
import LgxRuntime.MemoryManager.IntentTrackingRun
import LgxRuntime.MemoryManager.Manager
import LgxRuntime.MemoryManager.Ownership
import LgxRuntime.MemoryManager.OwnershipRun
import LgxRuntime.MemoryManager.OwnershipSteps
import LgxRuntime.MemoryManager.SizeClasses
import LgxRuntime.MemorySafety.DelayedReclamation
import LgxRuntime.MemorySafety.Layout
import LgxRuntime.MemorySafety.Lists
import LgxRuntime.MemorySafety.Reconfiguration
import LgxRuntime.MemorySafety.Safety
import LgxRuntime.MemorySafety.SafetyRun
import LgxRuntime.MemorySafety.Shutdown
import LgxRuntime.Net.ConnectionTimeouts
import LgxRuntime.Net.Connections
import LgxRuntime.Net.Delta
import LgxRuntime.Net.DeltaDecoding
import LgxRuntime.Net.Stream
import LgxRuntime.Net.StreamFailure
import LgxRuntime.PersistentHeap.Buddy
import LgxRuntime.PersistentHeap.BuddyCoalescing
import LgxRuntime.PersistentHeap.BuddyCompleteness
import LgxRuntime.PersistentHeap.BuddyInvariant
import LgxRuntime.PersistentHeap.BuddyRun
import LgxRuntime.PersistentHeap.DoubleFree
import LgxRuntime.PersistentHeap.Fragmentation
import LgxRuntime.PersistentHeap.Heap
import LgxRuntime.PersistentHeap.HeapAccounting
import LgxRuntime.PersistentHeap.HeapInvariant
import LgxRuntime.PersistentHeap.HeapPointers
import LgxRuntime.PersistentHeap.HeapRun
import LgxRuntime.PersistentHeap.SlabInvariant
import LgxRuntime.Platform.LogRateLimit
import LgxRuntime.Platform.LogRotation
import LgxRuntime.Profile.Dump
import LgxRuntime.Profile.DumpBounds
import LgxRuntime.Profile.Profiler
import LgxRuntime.Profile.ZoneNesting
import LgxRuntime.ResourceLimits.Limits
import LgxRuntime.ResourceLimits.LogRotation
import LgxRuntime.ResourceLimits.MemoryCap
import LgxRuntime.ResourceLimits.PeakTracking
import LgxRuntime.ResourceLimits.RateLimit
import LgxRuntime.Runtime.Core
import LgxRuntime.Runtime.ErrorHandler
import LgxRuntime.Runtime.ErrorNotification
import LgxRuntime.Runtime.InitCycles
import LgxRuntime.Runtime.LibraryManifest
import LgxRuntime.Runtime.NamedAccumulators
import LgxRuntime.Runtime.PerformanceCounters
import LgxRuntime.Runtime.SimdOps
import LgxRuntime.Runtime.SubsystemCycles
import LgxRuntime.Runtime.SubsystemRuns
import LgxRuntime.Runtime.SubsystemStarts
import LgxRuntime.Runtime.Subsystems
import LgxRuntime.Telemetry.Consent
import LgxRuntime.Telemetry.Hashing
import LgxRuntime.Telemetry.Process
import LgxRuntime.Telemetry.ProcessEvents
import LgxRuntime.Telemetry.RingContents
import LgxRuntime.Telemetry.RingSafety
import LgxRuntime.Threading.Barrier
import LgxRuntime.Threading.BatchSubmission
import LgxRuntime.Threading.CapacityRounding
import LgxRuntime.Threading.ConcurrentMap
import LgxRuntime.Threading.Fiber
import LgxRuntime.Threading.FiberPool
import LgxRuntime.Threading.FiberWait
import LgxRuntime.Threading.JobCompletion
import LgxRuntime.Threading.JobCompletionInvariant
import LgxRuntime.Threading.JobContents
import LgxRuntime.Threading.JobHandles
import LgxRuntime.Threading.JobHandlesInvariant
import LgxRuntime.Threading.JobShutdown
import LgxRuntime.Threading.JobSystem
import LgxRuntime.Threading.JobSystemInvariant
import LgxRuntime.Threading.JobTrace
import LgxRuntime.Threading.LockFreeStack
import LgxRuntime.Threading.MapSteps
import LgxRuntime.Threading.MpmcQueue
import LgxRuntime.Threading.MpmcSequential
import LgxRuntime.Threading.Mutex
import LgxRuntime.Threading.NumaTopology
import LgxRuntime.Threading.RwLock
import LgxRuntime.Threading.Semaphore
import LgxRuntime.Threading.SemaphoreTryWait
import LgxRuntime.Threading.SpscQueue
import LgxRuntime.Threading.StackSize
import LgxRuntime.Threading.WorkDeque
import LgxRuntime.Threading.WorkDequeInvariant
import LgxRuntime.Tools.HotZones
import LgxRuntime.Tools.MemTracker
import LgxRuntime.Tools.OutstandingAllocations
import LgxRuntime.Tools.PerfAnalyzer
import LgxRuntime.Trace.Export
import LgxRuntime.Trace.ExportedDocument
import LgxRuntime.Trace.Recording
import LgxRuntime.Trace.TraceEvents
