import Nachos.Prelude.Bytes
import Nachos.Prelude.Input
import Nachos.Prelude.Decimal
import Nachos.Prelude.Loop
import Nachos.Prelude.Outcome
import Nachos.Prelude.Command
import Nachos.Prelude.Exchange
import Nachos.Prelude.Transition
import Nachos.Fault
import Nachos.Lib.Bitmap
import Nachos.Lib.BitmapSet
import Nachos.Prelude.Chain
import Nachos.Lib.List
import Nachos.Lib.ListSpec
import Nachos.Lib.Hash
import Nachos.Lib.HashSpec
import Nachos.Lib.HashIterator
import Nachos.Prelude.CString
import Nachos.Prelude.Lists
import Nachos.Filesys.Directory
import Nachos.Filesys.Pbitmap
import Nachos.Prelude.FixedFile
import Nachos.Filesys.ByteFile
import Nachos.Filesys.FileSys
import Nachos.Filesys.FileSysInv
import Nachos.Filesys.FileSysOps
import Nachos.Filesys.FreeMap
import Nachos.Filesys.Isolation
import Nachos.Threads.Thread
import Nachos.Threads.Abstract
import Nachos.Threads.Placement
import Nachos.Threads.History
import Nachos.Threads.Handlers
import Nachos.Threads.Switch
import Nachos.Threads.KernelSpec
import Nachos.Threads.StepSpec
import Nachos.Threads.Elsewhere
import Nachos.Threads.Refinement
import Nachos.Threads.Moves
import Nachos.Prelude.I386
import Nachos.Threads.SwitchCode
import Nachos.Threads.ThreadRoot
import Nachos.Threads.SwitchSafety
import Nachos.Threads.LevelSafety
import Nachos.Threads.Bookkeeping
import Nachos.Threads.TimeSlice
import Nachos.Threads.Counting
import Nachos.Threads.Synch
import Nachos.Threads.Monitor
import Nachos.Threads.LockSafety
import Nachos.Threads.ConditionSafety
import Nachos.Threads.SynchListSafety
import Nachos.Threads.Guarded
import Nachos.Threads.GuardedRefinement
import Nachos.Threads.GuardedSteps
import Nachos.Threads.GuardedSafety
import Nachos.Machine.Machine
import Nachos.Machine.Translate
import Nachos.Prelude.Words
import Nachos.Machine.Mips
import Nachos.Machine.Multiply
import Nachos.Machine.Precise
import Nachos.Machine.TranslateSpec
import Nachos.Machine.Access
import Nachos.Machine.Instructions
import Nachos.Machine.Arithmetic
import Nachos.Machine.Unaligned
import Nachos.Machine.Preempt
import Nachos.Machine.Run
import Nachos.Machine.TickSafety
import Nachos.Machine.Drivers
import Nachos.Machine.Latency
import Nachos.Machine.LatencySafety
import Nachos.Machine.DueLoopSafety
import Nachos.Machine.DriverSafety
import Nachos.Machine.Keyboard
import Nachos.Machine.KeyboardSafety
import Nachos.Network.PostOffice
import Nachos.Network.Delivery
import Nachos.Network.Wire
import Nachos.Network.WireSafety
import Nachos.Network.NetworkTest
import Nachos.Network.NetworkTestSafety
import Nachos.Network.NetworkTestRuns
import Nachos.Lib.SortedList
import Nachos.Lib.SortedInsert
import Nachos.Machine.Interrupt
import Nachos.Machine.InterruptOrder
import Nachos.Machine.InterruptRule
import Nachos.Prelude.Slots
import Nachos.Prelude.Posix
import Nachos.Filesys.Interface
import Nachos.Filesys.Stub
import Nachos.Filesys.StubSpec
import Nachos.Filesys.StubFile
import Nachos.Machine.DiskFile
import Nachos.Filesys.Real
import Nachos.Filesys.CreateOpen
import Nachos.Filesys.WriteLog
import Nachos.Filesys.Crash
import Nachos.Filesys.Reboot
import Nachos.Filesys.CrashSafety
import Nachos.Filesys.HeaderCapacity
import Nachos.Filesys.ImplicitPosition
import Nachos.Userprog.UserMemory
import Nachos.Userprog.UserMemorySpec
import Nachos.Userprog.AddrSpace
import Nachos.Userprog.Console
import Nachos.Userprog.Lines
import Nachos.Userprog.FileCalls
import Nachos.Userprog.Exception
import Nachos.Userprog.Progress
import Nachos.Userprog.Table
import Nachos.Userprog.CallSteps
import Nachos.Userprog.OpenTable
import Nachos.Userprog.OpenTableSafety
import Nachos.Userprog.Names
import Nachos.Userprog.FileSafety
import Nachos.Userprog.CreateSafety
import Nachos.Userprog.Arguments
import Nachos.Userprog.KernelTranslate
import Nachos.Userprog.AdvancePC
import Nachos.Userprog.Programs
import Nachos.Userprog.ProgramSafety
import Nachos.Userprog.RoundTrip
import Nachos.Userprog.StringCopy
import Nachos.Userprog.Cursors
import Nachos.Userprog.Transfers
import Nachos.Userprog.LineSafety
import Nachos.Userprog.Faults
import Nachos.Userprog.OpenFiles
import Nachos.Userprog.ReadString
import Nachos.Userprog.Numbers
import Nachos.Userprog.Process
import Nachos.Userprog.BubbleSort
import Nachos.Userprog.BubbleSortSpec
import Nachos.Userprog.Context
import Nachos.Userprog.ContextSafety
import Nachos.Coff2noff.Noff
import Nachos.Coff2noff.Main
import Nachos.Coff2noff.Spec
import Nachos.Coff2noff.Bss
import Nachos.Coff2noff.BssSafety
import Nachos.Userprog.Load
import Nachos.Userprog.LoadSafety
import Nachos.Userprog.LoadBounds
import Nachos.Machine.Hardware
import Nachos.Machine.HardwareQueue
import Nachos.Machine.HardwareSafety
