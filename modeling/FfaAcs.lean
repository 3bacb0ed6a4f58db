import FfaAcs.Machine.ByteMemory
import FfaAcs.Machine.WordArithmetic
import FfaAcs.Machine.Fields
import FfaAcs.Machine.CString
import FfaAcs.Machine.Tiling
import FfaAcs.Machine.Runs
import FfaAcs.Machine.Arrays
import FfaAcs.Machine.Fairness
import FfaAcs.Machine.Aarch64
import FfaAcs.Machine.Ring
import FfaAcs.Machine.StraightLine
import FfaAcs.Machine.Interrupted
import FfaAcs.Machine.Programs
import FfaAcs.Platform.Libc
import FfaAcs.Platform.AbiShim
import FfaAcs.Platform.NvMemory
import FfaAcs.Platform.Entropy
import FfaAcs.Platform.Strings
import FfaAcs.Platform.Numeral
import FfaAcs.Platform.Printf
import FfaAcs.Heap.Malloc
import FfaAcs.Heap.BlockList
import FfaAcs.Heap.Coalesce
import FfaAcs.Heap.Operations
import FfaAcs.Heap.Realloc
import FfaAcs.Heap.Client
import FfaAcs.Heap.Layout
import FfaAcs.Heap.Aligned
import FfaAcs.Heap.Chain
import FfaAcs.Heap.Chained
import FfaAcs.Heap.PageAlloc
import FfaAcs.Heap.Resize
import FfaAcs.Heap.Guarantees
import FfaAcs.Heap.AlignedBlocks
import FfaAcs.Heap.DoubleFree
import FfaAcs.Heap.Calloc
import FfaAcs.Share.Descriptor
import FfaAcs.Share.Init
import FfaAcs.Share.RoundTrip
import FfaAcs.Share.Stale
import FfaAcs.Share.Fragment
import FfaAcs.Share.Retrieve
import FfaAcs.Tpm.Crb
import FfaAcs.Tpm.Service
import FfaAcs.Tpm.Effect
import FfaAcs.Tpm.System
import FfaAcs.Tpm.Notify
import FfaAcs.Tpm.Locality
import FfaAcs.Tpm.Deferral
import FfaAcs.Tpm.Execution
import FfaAcs.Tpm.Mmio
import FfaAcs.Tpm.Transfer
import FfaAcs.Tpm.Isolation
import FfaAcs.Tpm.Bitmap
import FfaAcs.Tpm.Pal
import FfaAcs.Tpm.Buffers
import FfaAcs.Tpm.Client
import FfaAcs.Tpm.Tests
import FfaAcs.Tpm.Registers
import FfaAcs.Tpm.Release
import FfaAcs.Tpm.Abandoned
import FfaAcs.Tpm.Surrounded
import FfaAcs.Tpm.Conformance
import FfaAcs.PageTable.Fill
import FfaAcs.PageTable.Walk
import FfaAcs.PageTable.Shape
import FfaAcs.PageTable.Create
import FfaAcs.PageTable.Termination
import FfaAcs.PageTable.Access
import FfaAcs.PageTable.Translation
import FfaAcs.PageTable.Filling
import FfaAcs.PageTable.Mapping
import FfaAcs.PageTable.Overlap
import FfaAcs.Sync.EndpointInfo
import FfaAcs.Sync.Protocol
import FfaAcs.Sync.Agreement
import FfaAcs.Sync.PartitionInfo
import FfaAcs.Sync.Relayer
import FfaAcs.Sync.Pages
import FfaAcs.Sync.Presence
import FfaAcs.Sync.Leaks
import FfaAcs.Sync.PartitionRegs
import FfaAcs.Event.Semaphore
import FfaAcs.Event.Exclusion
import FfaAcs.Event.Wakeup
import FfaAcs.Dispatch.Framework
import FfaAcs.Dispatch.Dispatcher
import FfaAcs.Dispatch.MultiPe
import FfaAcs.Dispatch.RunData
import FfaAcs.Boot.SymbolTable
import FfaAcs.Boot.Bss
import FfaAcs.Boot.RelaDyn
import FfaAcs.Driver.TestEngine
import FfaAcs.Driver.GicRouting
import FfaAcs.Driver.GicPriority
import FfaAcs.Driver.IrqHandlers
import FfaAcs.Driver.IrqDispatch
import FfaAcs.Driver.RefclkTimer
import FfaAcs.Console.PvConsole
import FfaAcs.Exception.Vectors
import FfaAcs.Exception.Conduit
