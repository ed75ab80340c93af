import TinyKernel.Lib.Machine
import TinyKernel.Lib.Bytes
import TinyKernel.Lib.CInt
import TinyKernel.Str
import TinyKernel.StrFill
import TinyKernel.Alloc.Slab
import TinyKernel.Alloc.SlabRun
import TinyKernel.Alloc.Heap
import TinyKernel.Alloc.HeapRun
import TinyKernel.Lib.Radix
import TinyKernel.Mm.Paging
import TinyKernel.Mm.PagingRun
import TinyKernel.Mp.JobPaging
import TinyKernel.Lib.Ring
import TinyKernel.Mp.Job
import TinyKernel.Mp.JobRun
import TinyKernel.Mp.Sched
import TinyKernel.Mp.SchedRun
import TinyKernel.Mp.KernelTimer
import TinyKernel.Device.Virtioblk
import TinyKernel.Device.VirtioblkRun
import TinyKernel.Fs.Fat
import TinyKernel.Fs.FatFs
import TinyKernel.Alloc.KernelHeap
import TinyKernel.Device.DiskWait
import TinyKernel.Fs.RamFs
import TinyKernel.Alloc.Kalloc
import TinyKernel.Fs.Inode
import TinyKernel.Elf.Elf
import TinyKernel.Elf.ElfBounds
import TinyKernel.Fs.FatName
import TinyKernel.Mp.Spawn
import TinyKernel.Elf.ElfLoad
import TinyKernel.Mp.SpawnMem
import TinyKernel.Mp.System
import TinyKernel.Mp.SpawnImage
import TinyKernel.Mp.SpawnRoom
import TinyKernel.Mp.ProgramImage
import TinyKernel.Alloc.HeapCalls
import TinyKernel.Alloc.SlabCalls
import TinyKernel.Mp.RoundRobin
import TinyKernel.Fs.FatRead
import TinyKernel.Mp.SpawnFails
import TinyKernel.Mp.Leak
import TinyKernel.Fs.FatLoad
import TinyKernel.Fs.FatSectors
import TinyKernel.Fs.FatLookup
import TinyKernel.Fs.RamDir
import TinyKernel.Fs.RamDirRun
import TinyKernel.Mp.FsOpen
import TinyKernel.Elf.ElfLookup
import TinyKernel.Mp.JobSize
import TinyKernel.Log.Numeral
import TinyKernel.Log.Format
import TinyKernel.Log.Klog
import TinyKernel.Exceptions.OpenCall
import TinyKernel.Exceptions.GetCall
import TinyKernel.Exceptions.Distributor
import TinyKernel.Alloc.HeapWith
import TinyKernel.Fs.Unmount
import TinyKernel.Alloc.HeapBounds
import TinyKernel.StrOrder
import TinyKernel.Mp.JobName
import TinyKernel.Gic.Handlers
import TinyKernel.Gic.Registers
import TinyKernel.Lib.Memories
import TinyKernel.Mp.Isolation
import TinyKernel.Mp.Waiting
import TinyKernel.Alloc.HeapTable
import TinyKernel.Mp.Boot
import TinyKernel.Exceptions.SvcEntry
import TinyKernel.Lib.Parties
import TinyKernel.Mp.Running
import TinyKernel.Mp.Process
import TinyKernel.Mp.ProcessFiles
import TinyKernel.Device.DiskService
import TinyKernel.Fs.FatOnDisk
