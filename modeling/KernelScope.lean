import KernelScope.Library.ByteCodec
import KernelScope.Library.ByteStream
import KernelScope.Library.KeyedFold
import KernelScope.Library.StepRun
import KernelScope.Library.Interleaving
import KernelScope.Library.Extremes
import KernelScope.Library.Decimal
import KernelScope.Library.Exposition
import KernelScope.Library.Binary64
import KernelScope.Library.Sorting
import KernelScope.Library.Documents
import KernelScope.Library.Numerals
import KernelScope.Library.Scanf
import KernelScope.Library.FixedPoint
import KernelScope.Library.Columns
import KernelScope.Library.ReadThrough
import KernelScope.Library.Interning
import KernelScope.Core.Events
import KernelScope.Core.EventDecoder
import KernelScope.Core.SyscallNames
import KernelScope.Core.Dimensions
import KernelScope.Core.DeliveryOrder
import KernelScope.Core.Summaries
import KernelScope.Core.EntryFields
import KernelScope.Core.Percentiles
import KernelScope.Core.HistogramContents
import KernelScope.Core.TopQueries
import KernelScope.Core.HotStacks
import KernelScope.Util.TimeFormat
import KernelScope.Bpf.SyscallPairing
import KernelScope.Bpf.OffcpuSlices
import KernelScope.Bpf.ThreadIdentity
import KernelScope.Bpf.ThreadLifetime
import KernelScope.Bpf.MapCapacity
import KernelScope.Bpf.TaskKeys
import KernelScope.Bpf.IdleTasks
import KernelScope.Bpf.FilterSoundness
import KernelScope.Bpf.StaleMemory
import KernelScope.Bpf.StackFlags
import KernelScope.Bpf.ConcurrentHandlers
import KernelScope.Bpf.LoaderLifecycle
import KernelScope.Bpf.SkeletonBridge
import KernelScope.Bpf.CountsWhileRunning
import KernelScope.Record.FailedWrites
import KernelScope.Record.FailedOpens
import KernelScope.Export.Prometheus
import KernelScope.Export.JsonExport
import KernelScope.Export.ScrapedTotals
import KernelScope.Symbolization.ElfSymbols
import KernelScope.Symbolization.CacheTransparency
import KernelScope.Symbolization.AddressResolution
import KernelScope.Symbolization.ProcMaps
import KernelScope.Symbolization.FrozenAnswers
import KernelScope.Symbolization.Kallsyms
import KernelScope.Symbolization.UserFrames
import KernelScope.Cli.ReplayCommand
import KernelScope.Cli.WindowResets
import KernelScope.Cli.StackDisplays
import KernelScope.Cli.Setup
import KernelScope.Cli.CaptureCommands
import KernelScope.Cli.EndToEnd
import KernelScope.Cli.OffcpuTotals
import KernelScope.Cli.TraceOutput
import KernelScope.Cli.SyscallScreen
import KernelScope.Cli.StackTimes
