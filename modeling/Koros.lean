import Koros.Lib.Words
import Koros.Lib.Places
import Koros.Lib.Text
import Koros.Lib.Tiles
import Koros.Lib.Chain
import Koros.Lib.Effect
import Koros.Lib.Look
import Koros.Lib.Runs
import Koros.Lib.Maps
import Koros.Lib.Checked
import Koros.Frame.Alloc
import Koros.Frame.Search
import Koros.Frame.Sound
import Koros.Frame.Single
import Koros.Fs.BlockCache
import Koros.Fs.Coherence
import Koros.Fs.Faults
import Koros.Fs.Refine
import Koros.Fs.BulkWrite
import Koros.Sched.Model
import Koros.Sched.Conserve
import Koros.Sched.Semaphore
import Koros.Sched.Channel
import Koros.Mmu.Format
import Koros.Mmu.PageTable
import Koros.Mmu.Shape
import Koros.Mmu.Engine
import Koros.Mmu.Refine
import Koros.Mmu.Kinds
import Koros.Mmu.Census
import Koros.Mmu.Walk
import Koros.Mmu.Unmap
import Koros.Mmu.Map
import Koros.Mmu.Split
import Koros.Mm.AddressSpace
import Koros.Mm.Tree
import Koros.Mm.Space
import Koros.Mm.Coherent
import Koros.Mm.Held
import Koros.Mm.Fence
import Koros.Mm.Isolation
import Koros.Mm.Regions
import Koros.Heap.Slab
import Koros.Heap.Lists
import Koros.Heap.Sound
import Koros.Hv.Virtio
import Koros.Hv.Dma
import Koros.Ext2.Bitmap
import Koros.Ext2.Account
import Koros.Ext2.Inode
import Koros.Ext2.File
import Koros.Ext2.Footprint
import Koros.Ext2.Locking
import Koros.Ext2.LockOrder
import Koros.Ext2.Deadlock
import Koros.Ext2.Xattr
import Koros.Ext2.Dir
import Koros.Ext2.Ops
import Koros.Ext2.ReadRace
import Koros.Ext2.Mount
import Koros.Ext2.Open
import Koros.Ext2.Geometry
import Koros.Ext2.Outcome
import Koros.Ext2.BlockMap
import Koros.Ext2.Edits
import Koros.Ext2.Grow
import Koros.Ext2.Content
import Koros.Ext2.Write
import Koros.Ext2.Slots
import Koros.Ext2.Shrink
import Koros.Ext2.Read
import Koros.Ext2.Truncate
import Koros.Ext2.Extend
import Koros.Ext2.Stop
import Koros.Ext2.NoSpace
import Koros.Ext2.DirImage
import Koros.Ext2.DirEdit
import Koros.Ext2.ReadOnly
import Koros.Ext2.Refusal
import Koros.Ext2.Immutable
import Koros.Proc.Model
import Koros.Proc.Teardown
import Koros.Signal.Context
import Koros.Signal.Deliver
import Koros.Signal.Privilege
import Koros.Signal.RoundTrip
import Koros.Signal.Calls
import Koros.Signal.Unblockable
import Koros.Signal.Return
import Koros.Ext2.NonDirectory
import Koros.Fd.Table
import Koros.Fd.Calls
import Koros.Fd.Integrity
import Koros.Fd.Sockets
import Koros.Vfs.Types
import Koros.Fd.Open
import Koros.Hv.Guests
import Koros.Hv.Irq
import Koros.Hv.Console
import Koros.Lib.Forest
import Koros.Lib.Pointers
import Koros.Ram.Inode
import Koros.Ram.Tree
import Koros.Proc.Wait
import Koros.Vfs.Symlinks
import Koros.Vfs.Mount
import Koros.Vfs.Resolve
import Koros.Ext2.Directory
import Koros.Ext2.Listing
import Koros.Mmu.Codec
import Koros.Mmu.Atomic
import Koros.Lib.Partial
import Koros.User.Memory
import Koros.User.Stack
import Koros.User.Elf
import Koros.User.Reject
import Koros.User.Copy
import Koros.Frame.Complete
import Koros.Frame.Collect
import Koros.Sched.Asleep
import Koros.Sched.Timeout
import Koros.Vfs.Lookup
import Koros.Fd.Dents
import Koros.Fd.Alias
import Koros.Fd.Io
import Koros.Fd.Survive
import Koros.Signal.Suspend
import Koros.Fd.Path
import Koros.Hv.Uart
import Koros.Fd.Ports
import Koros.Fd.Poll
import Koros.Fd.Timeouts
import Koros.Hv.Notify
import Koros.Hv.Stage2
import Koros.User.Image
import Koros.Virtio.Request
import Koros.Virtio.Bars
import Koros.Proc.Futex
import Koros.Sched.Roots
import Koros.Fs.ReadAt
import Koros.Mm.Protect
import Koros.Mm.Teardown
import Koros.Mm.Transact
