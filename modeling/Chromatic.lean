import Chromatic.Foundation.Runs
import Chromatic.Foundation.Memory
import Chromatic.Foundation.Patches
import Chromatic.Foundation.IndexedRegistry
import Chromatic.Foundation.X86
import Chromatic.Foundation.ControlFlow
import Chromatic.Foundation.HexText
import Chromatic.Foundation.Slots
import Chromatic.Foundation.RingQueue
import Chromatic.Foundation.DecimalText
import Chromatic.Foundation.DoubleText
import Chromatic.Foundation.TwosComplement
import Chromatic.Foundation.PatternSearch
import Chromatic.Foundation.Interrupts
import Chromatic.Foundation.Leases
import Chromatic.Foundation.MicroSteps
import Chromatic.Foundation.BitFields
import Chromatic.Foundation.StreamDecoder
import Chromatic.Foundation.BucketChains
import Chromatic.Foundation.Alignment
import Chromatic.Foundation.Layouts
import Chromatic.Foundation.Simulation
import Chromatic.Foundation.Words
import Chromatic.Foundation.Handles
import Chromatic.Foundation.Shadows
import Chromatic.Foundation.Sweeps
import Chromatic.Foundation.Fills
import Chromatic.Foundation.Sessions
import Chromatic.State
import Chromatic.ExceptionHandler
import Chromatic.SignalLock
import Chromatic.CodePatching
import Chromatic.SoftwareBreakpoint
import Chromatic.BreakpointMemory
import Chromatic.HardwareBreakpoint
import Chromatic.TrapRouting
import Chromatic.BreakpointRuns
import Chromatic.Interceptor
import Chromatic.HookRuns
import Chromatic.HookMemory
import Chromatic.Cleanup
import Chromatic.Trampoline
import Chromatic.Transparency
import Chromatic.Arm64Relocator
import Chromatic.Arm64Relocation
import Chromatic.Arm64Trampoline
import Chromatic.InterceptorScript
import Chromatic.CodeRelocator
import Chromatic.Relocation
import Chromatic.RelocatedRun
import Chromatic.InstructionAnalysis
import Chromatic.CrossReferences
import Chromatic.MemoryAccessMonitor
import Chromatic.MonitorReports
import Chromatic.MonitorHandlers
import Chromatic.MonitorArming
import Chromatic.MonitorProtections
import Chromatic.MonitorDrains
import Chromatic.MonitorReentry
import Chromatic.PageRounding
import Chromatic.SharedHandler
import Chromatic.HandlerSurplus
import Chromatic.FailedInstalls
import Chromatic.Watchpoints
import Chromatic.HardwareSlots
import Chromatic.DebugRegisters
import Chromatic.DebugControl
import Chromatic.SafeRead
import Chromatic.AddressForms
import Chromatic.BoxedIntegers
import Chromatic.Utf8Strings
import Chromatic.NativeFunction
import Chromatic.NativeCallback
import Chromatic.CallbackHandler
import Chromatic.CallbackErrors
import Chromatic.CModule
import Chromatic.CModuleSymbols
import Chromatic.ScriptLifecycle
import Chromatic.Teardown
import Chromatic.FileWatcher
import Chromatic.EmbeddedConfig
import Chromatic.LibraryUnload
import Chromatic.MemoryScan
import Chromatic.ProcessMaps
import Chromatic.ModulePartition
import Chromatic.Hexdump
import Chromatic.ModuleScan
import Chromatic.MemoryRanges
import Chromatic.ScanPatterns
import Chromatic.Disassembly
import Chromatic.ImageLookup
import Chromatic.ExportTable
import Chromatic.Lifetimes
import Chromatic.Ownership
import Chromatic.BulkRemoval
import Chromatic.ArmingOrder
import Chromatic.DetouredCode
import Chromatic.DetouredRuns
import Chromatic.DetourTables
import Chromatic.TypedMemory
import Chromatic.MonitoredProgram
import Chromatic.CodePages
import Chromatic.CallbackCalls
import Chromatic.Handles
import Chromatic.PerfEvents
import Chromatic.CodeEdits
import Chromatic.RegionWalks
import Chromatic.WindowsPages
import Chromatic.BreakpointThreads
