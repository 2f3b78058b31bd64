import Nachos.Basic
import Nachos.Program.Exec
import Nachos.Program.Bytes
import Nachos.Machine.State
import Nachos.Machine.Translate
import Nachos.Machine.Decode
import Nachos.Machine.OneInstruction
import Nachos.Machine.PageTable
import Nachos.Machine.Safety
import Nachos.Machine.Precise
import Nachos.Machine.DelayedLoad
import Nachos.Machine.Interrupt
import Nachos.Machine.Arithmetic
import Nachos.Program.Ownership
import Nachos.Program.Run
import Nachos.Host.Posix
import Nachos.Userprog.AddrSpace
import Nachos.Userprog.Image
import Nachos.Userprog.Kernel
import Nachos.Userprog.Exception
import Nachos.Userprog.Frame
import Nachos.Userprog.Return
import Nachos.Userprog.SocketTable
import Nachos.Machine.UserMemory
import Nachos.Machine.Text
import Nachos.Userprog.Stubs
import Nachos.Machine.VirtualMemory
import Nachos.Machine.Unaligned
import Nachos.Userprog.SocketOwnership
import Nachos.Userprog.Transfer
import Nachos.Userprog.FileCalls
import Nachos.Userprog.NameCalls
import Nachos.Userprog.FileOffsets
import Nachos.Userprog.ReadWrite
import Nachos.Userprog.ReadBytes
import Nachos.Userprog.StringTransfer
import Nachos.Userprog.Toupper
import Nachos.Userprog.WriteBytes
import Nachos.Userprog.CopyFile
import Nachos.Userprog.SocketData
import Nachos.Userprog.Descriptors
import Nachos.Userprog.OpenFileTable
import Nachos.Userprog.StoredNames
import Nachos.Userprog.Buffers
import Nachos.FileSys.Disk
import Nachos.Machine.DiskDevice
import Nachos.FileSys.Allocation
import Nachos.FileSys.Bitmap
import Nachos.FileSys.BitmapSet
import Nachos.FileSys.Directory
import Nachos.FileSys.FileHeader
import Nachos.FileSys.FileSystem
import Nachos.FileSys.Isolation
import Nachos.FileSys.NameMap
import Nachos.FileSys.EntryNames
import Nachos.FileSys.Agreement
import Nachos.FileSys.OpenFile
import Nachos.FileSys.Operations
import Nachos.FileSys.Bounds
import Nachos.FileSys.Session
import Nachos.FileSys.Creation
import Nachos.Program.Simulation
import Nachos.Program.Table
import Nachos.FileSys.FileStore
import Nachos.FileSys.Volume
import Nachos.Threads.CommandLine
import Nachos.Threads.Commands
import Nachos.Lib.List
import Nachos.Lib.LinkedList
import Nachos.Program.Segment
import Nachos.Lib.HeapList
import Nachos.Lib.SortedList
import Nachos.Lib.HashTable
import Nachos.Lib.HashContents
import Nachos.Threads.Scheduler
import Nachos.Threads.Placement
import Nachos.Threads.ContextSwitch
import Nachos.Threads.RoundRobin
import Nachos.Threads.Semaphore
import Nachos.Machine.PendingInterrupts
import Nachos.Machine.Timer
import Nachos.Program.Interleave
import Nachos.Program.Calls
import Nachos.Threads.Turns
import Nachos.Threads.Lock
import Nachos.Threads.Wakeup
import Nachos.FileSys.SynchDisk
import Nachos.Program.Blocks
import Nachos.Machine.DiskImage
import Nachos.Threads.Condition
import Nachos.Threads.Waiters
import Nachos.Threads.Signals
import Nachos.Threads.SynchList
import Nachos.Threads.Transit
import Nachos.Userprog.SynchConsole
import Nachos.Userprog.EndOfInput
import Nachos.Userprog.ConsoleRead
import Nachos.Userprog.ReadString
import Nachos.Userprog.ConsoleOutput
import Nachos.Network.Packet
import Nachos.Program.Custody
import Nachos.Network.MailBox
import Nachos.Network.MailOrder
import Nachos.Network.Sending
import Nachos.Network.PostOffice
import Nachos.Network.Desk
import Nachos.Network.Clients
import Nachos.Network.Delivery
