import OsArmv8a.Lib.Transition
import OsArmv8a.Lib.Chain
import OsArmv8a.Lib.Memory
import OsArmv8a.Lib.Word64
import OsArmv8a.Lib.Tiling
import OsArmv8a.Lib.Radix
import OsArmv8a.Lib.Queues
import OsArmv8a.Lib.Tally
import OsArmv8a.Lib.Bitmap
import OsArmv8a.Lib.SlotTable
import OsArmv8a.Lib.Bytes
import OsArmv8a.PageAlloc
import OsArmv8a.PageAllocInvariant
import OsArmv8a.PageAllocContiguous
import OsArmv8a.PageAllocRun
import OsArmv8a.PageAllocFrame
import OsArmv8a.PageAllocPolicy
import OsArmv8a.PageAllocRefs
import OsArmv8a.Heap
import OsArmv8a.HeapLayout
import OsArmv8a.HeapArena
import OsArmv8a.HeapInvariant
import OsArmv8a.HeapOps
import OsArmv8a.HeapRun
import OsArmv8a.HeapContract
import OsArmv8a.HeapStats
import OsArmv8a.HeapFree
import OsArmv8a.MmLifecycle
import OsArmv8a.MmTtbr
import OsArmv8a.MmuDesc
import OsArmv8a.Mmu
import OsArmv8a.MmuSpace
import OsArmv8a.MmuInvariant
import OsArmv8a.MmuSteps
import OsArmv8a.MmuContexts
import OsArmv8a.MmuTables
import OsArmv8a.MmuFaults
import OsArmv8a.MmuLifetime
import OsArmv8a.MmuClone
import OsArmv8a.MmuRun
import OsArmv8a.MmuDemand
import OsArmv8a.MmuOwn
import OsArmv8a.UserCopy
import OsArmv8a.MmuProtection
import OsArmv8a.MmuUnmap
import OsArmv8a.Asid
import OsArmv8a.Shootdown
import OsArmv8a.Elf
import OsArmv8a.ElfObjects
import OsArmv8a.ElfLayout
import OsArmv8a.ElfAgreement
import OsArmv8a.ElfBounds
import OsArmv8a.ImageOwnership
import OsArmv8a.ArgStack
import OsArmv8a.Sched
import OsArmv8a.SchedSpec
import OsArmv8a.SchedPick
import OsArmv8a.SysRead
import OsArmv8a.IpcCalls
import OsArmv8a.LinkerLoad
import OsArmv8a.LinkerLookup
import OsArmv8a.Malloc
import OsArmv8a.VfsLookup
import OsArmv8a.SchedStep
import OsArmv8a.SchedRun
import OsArmv8a.SchedZombies
import OsArmv8a.SchedWait
import OsArmv8a.SchedQueues
import OsArmv8a.Preempt
import OsArmv8a.Process
import OsArmv8a.ProcessRefs
import OsArmv8a.ProcessCalls
import OsArmv8a.ProcessRun
import OsArmv8a.Sync
import OsArmv8a.SyncQueues
import OsArmv8a.SyncServed
import OsArmv8a.SyncMutex
import OsArmv8a.SyncSemaphore
import OsArmv8a.SyncWake
import OsArmv8a.Ipc
import OsArmv8a.Pool
import OsArmv8a.PoolSteps
import OsArmv8a.PoolInvariant
import OsArmv8a.PoolPins
import OsArmv8a.PoolHandles
import OsArmv8a.Ramfs
import OsArmv8a.RamfsMap
import OsArmv8a.RamfsOpen
import OsArmv8a.Linker
import OsArmv8a.LinkerBias
import OsArmv8a.LinkerInit
import OsArmv8a.LinkerMap
import OsArmv8a.Mmap
import OsArmv8a.Brk
import OsArmv8a.BrkPages
import OsArmv8a.Munmap
import OsArmv8a.Shell
