import Q9OS.Lib.Word
import Q9OS.Lib.Mem
import Q9OS.Lib.Chain
import Q9OS.Lib.Blocks
import Q9OS.Lib.Run
import Q9OS.Lib.Table
import Q9OS.Date.Calendar
import Q9OS.Date.Julian
import Q9OS.Date.Bijection
import Q9OS.Memory.Arena
import Q9OS.Memory.FreeList
import Q9OS.Memory.Partition
import Q9OS.Memory.SysMem
import Q9OS.Memory.Ownership
import Q9OS.Memory.Release
import Q9OS.Lib.Heap
import Q9OS.Process.Kernel
import Q9OS.Process.Sched
import Q9OS.Process.Signal
import Q9OS.Process.Event
import Q9OS.Process.Tick
import Q9OS.Process.Module
import Q9OS.Process.Frame
import Q9OS.Process.Fields
import Q9OS.Process.Overlap
import Q9OS.Process.End
import Q9OS.Process.Debug
import Q9OS.Process.Leak
import Q9OS.Date.Clock
import Q9OS.Lib.Crc
import Q9OS.Module.Crc
import Q9OS.Module.Seal
import Q9OS.Lib.Ring
import Q9OS.Trace.RingBuf
import Q9OS.Trace.Records
import Q9OS.Trace.Loss
import Q9OS.Memory.Tables
import Q9OS.Module.Ledger
import Q9OS.Process.EventTable
import Q9OS.Process.EventIdentity
import Q9OS.Lib.Cyclic
import Q9OS.Process.Queues
import Q9OS.Process.Waiters
import Q9OS.Irq.Registrations
import Q9OS.Ioman.Lifecycle
import Q9OS.Dhf.Device
import Q9OS.Dhf.Handles
import Q9OS.Dhf.Confine
import Q9OS.Dhf.Socket
import Q9OS.Ioman.BlockTable
import Q9OS.Trace.Decode
import Q9OS.Process.Calls
import Q9OS.Process.Threshold
import Q9OS.Memory.Request
import Q9OS.Pipe.Io
import Q9OS.Rbf.Sector
import Q9OS.Pipe.Queue
import Q9OS.Pipe.Wakeup
import Q9OS.Pipe.Directory
import Q9OS.Process.Undo
import Q9OS.Rbf.File
import Q9OS.Rbf.Write
import Q9OS.Pipe.Ends
import Q9OS.Pipe.Counts
import Q9OS.Process.Chain
import Q9OS.Process.Sleep
import Q9OS.Lib.Rounds
import Q9OS.Process.Wake
import Q9OS.Lib.Fifo
import Q9OS.Process.Semaphore
import Q9OS.Process.Ticks
import Q9OS.Process.Schedule
import Q9OS.Process.AlarmTiming
import Q9OS.Process.Layout
import Q9OS.Module.Links
import Q9OS.Process.Replace
import Q9OS.Lib.Stretch
import Q9OS.Lib.Wildcard
import Q9OS.Memory.Bitmap
import Q9OS.Memory.BlockMap
import Q9OS.Module.Lookup
import Q9OS.Names.Compare
import Q9OS.Names.Match
import Q9OS.Names.Pathname
import Q9OS.Lib.Reading
import Q9OS.Memory.Return
import Q9OS.Module.Create
import Q9OS.Module.Scan
import Q9OS.Process.Loader
import Q9OS.Process.TrapLink
import Q9OS.Lib.LastWrite
import Q9OS.Process.Services
import Q9OS.Process.Strap
import Q9OS.Process.Stepping
import Q9OS.Lib.Brackets
import Q9OS.Trace.Nesting
import Q9OS.Ioman.Dispatch
import Q9OS.Ioman.Routing
import Q9OS.Dhf.Framing
import Q9OS.Dhf.Lines
import Q9OS.Dhf.Touch
import Q9OS.Pipe.CopyMem
import Q9OS.Process.EventArithmetic
import Q9OS.Rbf.Bitmap
import Q9OS.Rbf.Create
import Q9OS.Rbf.Delete
import Q9OS.Rbf.Mapping
import Q9OS.Rbf.Read
import Q9OS.Rbf.Resolve
import Q9OS.Rbf.Space
import Q9OS.Lib.Cells
import Q9OS.Process.Slots
import Q9OS.Process.Paths
import Q9OS.Process.PathTally
import Q9OS.Process.PathCounts
import Q9OS.Process.PathUsers
