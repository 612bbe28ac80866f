import Elks.Lib.Chain
import Elks.Lib.Sweep
import Elks.Lib.Bytes
import Elks.Lib.Machine
import Elks.Lib.Coop
import Elks.Lib.Holding
import Elks.Lib.Owner
import Elks.Lib.Outcome
import Elks.Lib.Tally
import Elks.Lib.Ring
import Elks.Lib.Refs
import Elks.Mm.Malloc
import Elks.Mm.Layout
import Elks.Mm.Calls
import Elks.Mm.Resize
import Elks.Mm.Strung
import Elks.Mm.Dup
import Elks.Mm.Swap
import Elks.Mm.RoundTrip
import Elks.Mm.Runs
import Elks.Buffer.Head
import Elks.Buffer.Store
import Elks.Buffer.Hand
import Elks.Buffer.Tasks
import Elks.Buffer.Cache
import Elks.Buffer.Race
import Elks.Buffer.Core
import Elks.Buffer.Coherent
import Elks.Buffer.Transparent
import Elks.Buffer.Read
import Elks.Buffer.Ahead
import Elks.Buffer.Books
import Elks.Buffer.Requests
import Elks.Buffer.BlockCalls
import Elks.Buffer.Elevator
import Elks.Buffer.Lru
import Elks.Minix.Super
import Elks.Minix.Bitmap
import Elks.Minix.Alloc
import Elks.Minix.Tree
import Elks.Minix.Bmap
import Elks.Minix.Truncate
import Elks.Minix.Ownership
import Elks.Minix.TruncExact
import Elks.Minix.BmapStable
import Elks.Minix.File
import Elks.Minix.Arrays
import Elks.Minix.WriteFail
import Elks.Minix.ReadFail
import Elks.Minix.WriteBack
import Elks.Minix.SuperState
import Elks.Minix.ReadSuper
import Elks.Block.Rd
import Elks.Block.RdStore
import Elks.Block.Genhd
import Elks.Block.Scan
import Elks.Block.Partitions
import Elks.Block.Agreement
import Elks.Block.Walk
import Elks.Block.Ready
import Elks.Block.ScanEnds
import Elks.Vfs.InodeList
import Elks.Vfs.MountTable
import Elks.Vfs.Tree
import Elks.Minix.Namei
import Elks.Vfs.Namei
import Elks.Vfs.PathCalls
import Elks.Vfs.Confine
import Elks.Minix.Symlink
import Elks.Minix.DirPins
import Elks.Minix.DirScan
import Elks.Minix.EmptyDir
import Elks.Files.FdSet
import Elks.Files.Table
import Elks.Files.Counts
import Elks.Files.Pipes
import Elks.Files.PipeCall
import Elks.Lib.Fifo
import Elks.Pipe.Io
import Elks.Pipe.Tasks
import Elks.Pipe.Whole
import Elks.Sched.Machine
import Elks.Sched.Queue
import Elks.Sched.RunQueue
import Elks.Sched.Idle
import Elks.Sched.Timers
import Elks.Sched.TimerList
import Elks.Signals.DoSignal
import Elks.Signals.Pending
import Elks.Family.Pids
import Elks.Signals.Kill
import Elks.Sched.Semaphore
import Elks.Sched.Waits
import Elks.Lib.Dlist
import Elks.Lib.Agenda
import Elks.Lib.Loop
import Elks.Family.Tree
import Elks.Family.Wait
import Elks.Exec.Image
import Elks.Exec.UserArea
import Elks.Exec.Brk
import Elks.Mm.Ledger
import Elks.Exec.Segments
import Elks.Exec.Execve
import Elks.Exec.Permits
import Elks.Tty.Chqueue
import Elks.Tty.QueueCalls
import Elks.Tty.Dircon
import Elks.Tty.DirconScreen
import Elks.Tty.DirconLanguage
import Elks.Tty.Select
import Elks.Tty.Streams
import Elks.Inet.Tcpdev
import Elks.Inet.Replies
import Elks.Unix.Sockets
import Elks.Unix.Queue
import Elks.Unix.Calls
import Elks.Unix.Pending
import Elks.Unix.Entries
import Elks.Unix.Pairs
import Elks.Unix.Peers
import Elks.Unix.Stream
import Elks.Romfs.Image
import Elks.Romfs.Copyfrom
import Elks.Romfs.Dir
import Elks.Minix.Readdir
import Elks.Block.Doshd
import Elks.Vfs.Carry
import Elks.Vfs.Rename
import Elks.Lib.Splice
import Elks.Lib.Prompt
import Elks.Buffer.Prompt
import Elks.Block.BlockDev
import Elks.Block.Partial
import Elks.Files.Transfers
import Elks.Files.Stat
import Elks.Time.TimeOfDay
import Elks.Lib.Copy
import Elks.Lib.I8086
import Elks.I86.Ldivmod
import Elks.I86.Memmove
import Elks.I86.Strlen
import Elks.Tty.Atoi
import Elks.Kernel.Numout
import Elks.Elksfs.Truncate
import Elks.Kernel.Printk
import Elks.Buffer.Durable
import Elks.Exec.Identity
import Elks.Mm.Usage
