import Tpso.Lib.BitAlloc
import Tpso.Lib.Bytes
import Tpso.Lib.Overlay
import Tpso.Lib.Places
import Tpso.Lib.Run
import Tpso.Lib.Semaphore
import Tpso.Lib.Tasks
import Tpso.Memoria.Agreement
import Tpso.Memoria.PageTable
import Tpso.Memoria.State
import Tpso.Memoria.Steps
import Tpso.Memoria.Ownership
import Tpso.Memoria.PageWalk
import Tpso.Memoria.Mapped
import Tpso.Memoria.Slots
import Tpso.Memoria.Atomicity
import Tpso.Kernel.State
import Tpso.Kernel.Sections
import Tpso.Kernel.Effects
import Tpso.Kernel.Packages
import Tpso.Kernel.Partition
import Tpso.Kernel.Moves
import Tpso.Kernel.Assignment
import Tpso.Kernel.Locks
import Tpso.Kernel.Priority
import Tpso.Cpu.Mmu
import Tpso.Cpu.Victim
import Tpso.Cpu.PageWalk
import Tpso.Cpu.Execution
import Tpso.Cpu.Translation
import Tpso.Cpu.Transparency
import Tpso.Cpu.Outcome
import Tpso.Cpu.Retry
import Tpso.Cpu.Writeback
import Tpso.Cpu.Refinement
import Tpso.System.Suspension
import Tpso.System.Devices
import Tpso.Lib.Binary64
import Tpso.Kernel.Estimates
import Tpso.System.Admission
import Tpso.System.Deadlock
import Tpso.Memoria.Bounds
import Tpso.Cpu.Direct
import Tpso.Memoria.PageEntry
import Tpso.Cpu.Outside
import Tpso.Lib.Ring
import Tpso.Lib.Scan
import Tpso.Cpu.Representation
import Tpso.Lib.Sorting
import Tpso.Kernel.LongTerm
import Tpso.Lib.ComparisonSort
import Tpso.Kernel.Selection
import Tpso.Kernel.Preemption
import Tpso.Memoria.RoundTrip
import Tpso.Lib.Transfer
import Tpso.Utils.Buffer
import Tpso.Utils.Package
import Tpso.Utils.Messages
import Tpso.Utils.Reading
import Tpso.Utils.Wire
import Tpso.Cpu.Cycle
import Tpso.Cpu.Threads
import Tpso.Cpu.Turn
import Tpso.Cpu.Isolation
import Tpso.Cpu.Loading
import Tpso.Cpu.Eviction
import Tpso.Lib.Recency
import Tpso.Cpu.Replacement
import Tpso.Cpu.TlbShape
import Tpso.Cpu.Tracking
import Tpso.Cpu.Clock
import Tpso.Memoria.Creation
import Tpso.Memoria.Dump
import Tpso.Memoria.Frames
import Tpso.Lib.Words
import Tpso.Cpu.Parsing
import Tpso.Utils.Truncation
import Tpso.System.Syscalls
import Tpso.System.Links
import Tpso.System.Work
import Tpso.Memoria.Storage
import Tpso.Cpu.Sharing
import Tpso.System.Cluster
import Tpso.System.Coherence
import Tpso.Lib.Simulation
import Tpso.Lib.Diagram
import Tpso.Lib.Conservation
import Tpso.Kernel.Lifecycle
import Tpso.Kernel.Metrics
import Tpso.Kernel.Queues
import Tpso.System.Records
import Tpso.System.Capacity
import Tpso.Lib.Lines
import Tpso.Cpu.Script
import Tpso.Cpu.Language
import Tpso.System.Virtual
import Tpso.Lib.Causes
import Tpso.System.Causes
import Tpso.System.Waiting
