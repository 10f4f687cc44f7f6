import OpenIon.Lib.Chain
import OpenIon.Lib.Run
import OpenIon.Mm.Slab
import OpenIon.Sched.Task
import OpenIon.Sched.ReadyQueue.Operations
import OpenIon.Sched.ReadyQueue.Wf
import OpenIon.Sched.ReadyQueue.Push
import OpenIon.Sched.ReadyQueue.Pop
import OpenIon.Sched.State
import OpenIon.Sched.Scheduler
import OpenIon.Sched.Placement.Basic
import OpenIon.Sched.Placement.Ready
import OpenIon.Sched.Placement.Sleep
import OpenIon.Sched.Placement.Enqueue
import OpenIon.Sched.Placement.Tick
import OpenIon.Sched.Placement.Dispatch
import OpenIon.Sched.Placement.Current
import OpenIon.Sched.Machine
import OpenIon.Sched.Riscv.Places
import OpenIon.Sched.Riscv.Idle
import OpenIon.Sched.Riscv.Preempt
import OpenIon.Sched.CortexM
import OpenIon.Lib.Loop
import OpenIon.Sched.WaitQueue
import OpenIon.Sched.Semaphore.Machine
import OpenIon.Sched.Semaphore.Ledger
import OpenIon.Sched.Semaphore.Wakeups
import OpenIon.Sched.Semaphore.Conservation
import OpenIon.Sched.Async.Executor
import OpenIon.Sched.Async.Machine
import OpenIon.Sched.Async.Wake
import OpenIon.Lib.Sum
import OpenIon.Sched.Async.Spawn
import OpenIon.Arch.Riscv.Sv39.Entry
import OpenIon.Lib.TableTree
import OpenIon.Arch.Riscv.Sv39.Table
import OpenIon.Arch.Riscv.Sv39.Tree
import OpenIon.Arch.Riscv.Sv39.Lookup
import OpenIon.Arch.Riscv.Sv39.Refines
import OpenIon.Platform.RiscvGeneric.Mmu
import OpenIon.Platform.RiscvGeneric.Superpages
import OpenIon.Platform.RiscvGeneric.EmptySuperpage
import OpenIon.Mm.Frame
import OpenIon.Mm.FreePages
import OpenIon.Driver.Manager
import OpenIon.Driver.Registry
import OpenIon.Drivers.VirtioBlk.Machine
import OpenIon.Drivers.VirtioBlk.Stale
import OpenIon.Sched.EventTasks
import OpenIon.Sched.Async.EventWaits
import OpenIon.Sched.Async.Forgotten
import OpenIon.Lib.While
import OpenIon.Fs.Exfat.Entry
import OpenIon.Fs.Exfat.Volume
import OpenIon.Fs.Exfat.Mounted
import OpenIon.Fs.Exfat.Terminates
import OpenIon.Fs.Exfat.Contained
import OpenIon.Fs.Exfat.EntrySets
import OpenIon.Fs.Exfat.Boundaries
import OpenIon.Fs.Ramfs
import OpenIon.Fs.Mount
import OpenIon.Shell.Path
import OpenIon.Fs.Visible
import OpenIon.Fdt.Walk
import OpenIon.Fdt.Tree
import OpenIon.Fdt.Accessors
import OpenIon.Fdt.Blob
import OpenIon.Driver.RxBuffer
import OpenIon.Mm.Init
import OpenIon.Net.Smoltcp.Socket
import OpenIon.Sched.Blocks
import OpenIon.Fs.MountTable
import OpenIon.Fs.NamedFiles
import OpenIon.Fs.Disk
import OpenIon.Arch.Riscv.PageMap
import OpenIon.Arch.Riscv.Sv32
import OpenIon.Arch.Riscv.Agree
import OpenIon.Driver.AutoProbe
import OpenIon.Driver.ProbeSound
import OpenIon.Arch.Riscv.Trap
import OpenIon.Arch.Riscv.ContextSwitch
import OpenIon.Arch.Riscv.Interrupts
import OpenIon.Lib.Replies
import OpenIon.Sched.ReadyQueue.Fifo
import OpenIon.Mm.SlabRun
import OpenIon.Sched.Decision
import OpenIon.Sched.TickConserves
import OpenIon.Sched.DelayTiming
import OpenIon.Sched.Async.SleepTable
import OpenIon.Sched.Async.Sleeps
import OpenIon.Fs.Exfat.ReadFile
import OpenIon.Fs.Exfat.FindEntry
import OpenIon.Fs.Exfat.SharedBuffer
import OpenIon.Fs.CreateFails
import OpenIon.Shell.Normalize
import OpenIon.Shell.Create
import OpenIon.Lib.Buffer
import OpenIon.Lib.Utf8
import OpenIon.Shell.Editor
import OpenIon.Shell.EditorBounds
import OpenIon.Shell.Completion
import OpenIon.Driver.ConsoleInput
import OpenIon.Platform.RiscvGeneric.Coverage
import OpenIon.Arch.Riscv.Hypervisor.GStage
import OpenIon.Arch.Riscv.Hypervisor.Region
import OpenIon.Arch.Riscv.Hypervisor.Entry
import OpenIon.Arch.Riscv.CriticalSections
import OpenIon.Driver.Dispatch
import OpenIon.Driver.Stats
import OpenIon.Drivers.Lan9118
import OpenIon.Arch.Riscv.Pmp
import OpenIon.Drivers.Virtio.QueueMemory
import OpenIon.Drivers.VirtioGpu.Framebuffer
import OpenIon.Drivers.VirtioGpu.HostImage
import OpenIon.Drivers.Virtio.Transport
import OpenIon.Drivers.Virtio.Init
import OpenIon.Drivers.Virtio.InitProtocol
import OpenIon.Lib.Fallible
import OpenIon.Process.Elf.Loader
import OpenIon.Process.Elf.Turn
import OpenIon.Process.Elf.Bounds
import OpenIon.Process.Elf.Rejected
import OpenIon.Process.Elf.Image
import OpenIon.Timer
import OpenIon.Sched.WaitStorage
import OpenIon.Fs.DeviceName
import OpenIon.Fs.Detect
import OpenIon.Sched.Stealing
import OpenIon.Sched.IdleSteal
import OpenIon.Lib.Thumb
import OpenIon.Arch.Arm.CortexM.Context
import OpenIon.Lib.Gateway
import OpenIon.Arch.Riscv.Plic
import OpenIon.Irq
import OpenIon.Platform.RiscvGeneric.ExternalIrq
import OpenIon.Platform.RiscvGeneric.Discovery
