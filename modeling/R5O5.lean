import R5O5.Lib.Stdio
import R5O5.Lib.Memory
import R5O5.Lib.BitField
import R5O5.Lib.Rv64
import R5O5.Lib.Trace
import R5O5.Lib.Forest
import R5O5.Lib.Except
import R5O5.Mkfs
import R5O5.Mkfs.Area
import R5O5.Mkfs.Extents
import R5O5.Kernel.Debug.Log
import R5O5.Kernel.Debug.Rounds
import R5O5.Logs
import R5O5.Kernel.Declarations
import R5O5.Kernel.Disk
import R5O5.Kernel.Disk.Machine
import R5O5.Kernel.Disk.Requests
import R5O5.Kernel.Disk.Runs
import R5O5.Kernel.Disk.Wakeup
import R5O5.Kernel.Disk.Progress
import R5O5.Kernel.Disk.Synchronous
import R5O5.Kernel.Uservec
import R5O5.Kernel.Kernelvec
import R5O5.Lib.CircularBuffer
import R5O5.Kernel.Console
import R5O5.Kernel.Print
import R5O5.Lib.Screen
import R5O5.Kernel.Console.Screen
import R5O5.Kernel.MemoryAllocator
import R5O5.Kernel.MemoryAllocator.Outstanding
import R5O5.Lib.BoundedStack
import R5O5.Kernel.MemoryAllocator.Stack
import R5O5.Kernel.Paging
import R5O5.Kernel.Paging.Forest
import R5O5.Kernel.Paging.Invariant
import R5O5.Kernel.Paging.Allocate
import R5O5.Kernel.Paging.Deallocate
import R5O5.Kernel.Paging.Runs
import R5O5.Kernel.Paging.Separation
import R5O5.Kernel.Paging.Mapping
import R5O5.Kernel.Paging.Conservation
import R5O5.Lib.Sv39
import R5O5.Kernel.Paging.Hardware
import R5O5.Lib.Ring
import R5O5.Kernel.Buffer
import R5O5.Kernel.Buffer.Invariant
import R5O5.Kernel.Buffer.Replacement
import R5O5.Kernel.Buffer.Recency
import R5O5.Kernel.Buffer.Copying
import R5O5.Kernel.Debug
import R5O5.Kernel.Buffer.FlatDisk
import R5O5.Kernel.Buffer.Virtual
import R5O5.Lib.AddressSpace
import R5O5.Lib.LinkedList
import R5O5.Kernel.Paging.AddressSpace
import R5O5.Kernel.ElfReader
import R5O5.Kernel.Process
import R5O5.Kernel.InterruptHandler
import R5O5.Kernel.CreateProcess
import R5O5.Kernel.CreateProcess.Loading
import R5O5.Kernel.CreateProcess.Image
import R5O5.Kernel.Scheduling
import R5O5.Kernel.CreateProcess.Lifecycle
import R5O5.Kernel.ElfReader.Acceptance
import R5O5.Kernel.ElfReader.Headers
import R5O5.Kernel.ElfReader.Outcome
import R5O5.Kernel.ElfReader.Underrun
import R5O5.Kernel.ElfReader.Loadable
import R5O5.Kernel.ElfReader.DoublyLinked
import R5O5.Kernel.ElfReader.Safety
import R5O5.Kernel.CreateProcess.Stack
import R5O5.Kernel.Paging.Demand
import R5O5.Kernel.Paging.TwoPages
import R5O5.Kernel.CreateProcess.Admission
import R5O5.Kernel.CreateProcess.File
import R5O5.Kernel.Scheduling.Order
import R5O5.System
import R5O5.System.Start
import R5O5.Mkfs.Image
import R5O5.System.Image
import R5O5.System.Admission
import R5O5.Kernel.CreateProcess.Errors
import R5O5.Kernel.CreateProcess.Integrity
import R5O5.System.Safety
import R5O5.System.Reboot
import R5O5.Kernel.Print.Format
import R5O5.Kernel.Print.Error
