import Xv6.Log.Reservation
import Xv6.Proc.ExitRecords
import Xv6.Mem.Reaped
import Xv6.Regs.ExecThreads
import Xv6.Fs.ReportRefs
import Xv6.Mem.ThreadTable
import Xv6.Locks.Order
import Xv6.Locks.Interrupts
import Xv6.Locks.SleepLock
import Xv6.Mem.MainThread
import Xv6.Proc.FreeSlots
import Xv6.Pipe.Wakeups
import Xv6.Log.Admission
import Xv6.Virtio.Protocol
import Xv6.Console.Reads
import Xv6.Cache.Contents
import Xv6.FileTable.Exact
import Xv6.Sched.Activations
import Xv6.Sched.ScanLocks
import Xv6.Regs.ThreadTurns
import Xv6.Printf.Agreement
import Xv6.FileData.SharedWrites
import Xv6.Mkfs.Boot
import Xv6.Fs.Seek
import Xv6.Proc.Deadlines
import Xv6.Regs.Answers
import Xv6.FileData.ReadBack
import Xv6.FileData.FailedWrite
import Xv6.User.Grep
import Xv6.Proc.ExecStack
import Xv6.Fs.Resolve
import Xv6.User.Memmove
import Xv6.Proc.Top
import Xv6.Pipe.BadReads
import Xv6.Heap.Requests
import Xv6.Proc.SleepWakeup
import Xv6.Fs.WriteLog
