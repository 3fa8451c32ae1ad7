/-
  Xv6.Locks.Paths — the spin locks that the kernel's paths take.

  Every function is given by its calls of acquire, release, sched and swtch.  A test on data
  is a `choice`; which buffer, inode or pipe is meant is a `pick`.
-/
import Xv6.Lib.Locks
import Xv6.Sched.MinCpuUsage

namespace Xv6.Locks

open Lib.Locks Lib.Locks.Stmt

/-! ## §1. Locks. -/

inductive Lock where
  | waitLock
  | procLock
  | tickslock
  | ftable
  | pipe (i : Nat)
  | log
  | itable
  | bcache
  /-- The spin lock in the sleep lock of an inode or of a buffer. -/
  | inode (i : Nat)
  | buf (i : Nat)
  | vdiskLock
  | proc (p : Slot)
  | tidLock
  | kmem
  deriving DecidableEq

abbrev Path : Type := Stmt Lock Slot

/-- `acquire(l); …; release(l)` around something that takes no lock. -/
def brief (l : Lock) : Path := locked l skip

def forSlots (f : Slot → Path) : Path := block ((List.finRange NPROC).map f)

/-! ## §2. Leaves. -/

def kalloc : Path := brief .kmem
def kfree : Path := brief .kmem
def alloctid : Path := brief .tidLock
def killed (p : Slot) : Path := brief (.proc p)

/-! ## §3. sleep, wakeup, yield (proc.c). -/

def sleep (p : Slot) (lk : Lock) : Path :=
  block [acquire (.proc p), release lk, sched, release (.proc p), acquire lk]

/-- The process itself is left out: `if(p != myproc())`. -/
def wakeup (me : Option Slot) : Path :=
  forSlots fun p => if me = some p then skip else brief (.proc p)

def yield (p : Slot) : Path := block [acquire (.proc p), sched, release (.proc p)]

/-! ## §4. The clock (trap.c, sysproc.c). -/

def dropDeadProcesses : Path := forSlots fun p => brief (.proc p)

/-- Only CPU 0 counts the ticks. -/
def clockintr (c : Nat) (me : Option Slot) : Path :=
  if c = 0 then locked .tickslock (block [wakeup me, dropDeadProcesses]) else skip

def timer (c : Nat) (me : Option Slot) : Path :=
  block [clockintr c me, match me with
    | some p => yield p
    | none => skip]

/-- The loop ends because the time is over or because the process is killed. -/
def sysSleep (p : Slot) : Path :=
  locked .tickslock
    (block [loop (block [killed p, sleep p .tickslock]), maybe (killed p)])

def sysUptime : Path := brief .tickslock

def cpuUsage (p : Slot) : Path := locked (.proc p) (brief .tickslock)

/-! ## §5. kill and the thread calls (proc.c). -/

def killFrom : List Slot → Path
  | [] => skip
  | p :: l => block [brief (.proc p), choice skip (killFrom l)]

def kill : Path := killFrom (List.finRange NPROC)

def createThread (p : Slot) : Path :=
  locked (.proc p) (block [maybe alloctid, maybe (block [alloctid, kalloc])])

/-! ## §6. The disk and the buffers (virtio_disk.c, sleeplock.c, bio.c). -/

section Files

variable (p : Slot)

def acquiresleep (lk : Lock) : Path := locked lk (loop (sleep p lk))

def releasesleep (lk : Lock) : Path := locked lk (wakeup (some p))

def holdingsleep (lk : Lock) : Path := brief lk

/-- free_desc wakes up who waits for a descriptor. -/
def virtioDiskRw : Path :=
  locked .vdiskLock
    (block
      [loop (block [loop (wakeup (some p)), sleep p .vdiskLock]),
        loop (sleep p .vdiskLock),
        loop (wakeup (some p))])

def bget (i : Nat) : Path := block [brief .bcache, acquiresleep p (.buf i)]

def bread (i : Nat) : Path := block [bget p i, maybe (virtioDiskRw p)]

def bwrite (i : Nat) : Path := block [holdingsleep (.buf i), virtioDiskRw p]

def brelse (i : Nat) : Path :=
  block [holdingsleep (.buf i), releasesleep p (.buf i), brief .bcache]

def bpin : Path := brief .bcache
def bunpin : Path := brief .bcache

/-! ## §7. Transactions (log.c). -/

def writeLog : Path :=
  loop (pick fun i => pick fun j =>
    block [bread p i, bread p j, bwrite p i, brelse p j, brelse p i])

def writeHead : Path := pick fun i => block [bread p i, bwrite p i, brelse p i]

def installTrans : Path :=
  loop (pick fun i => pick fun j =>
    block [bread p i, bread p j, bwrite p j, bunpin, brelse p i, brelse p j])

def commit : Path := maybe (block [writeLog p, writeHead p, installTrans p, writeHead p])

def logWrite : Path := locked .log (maybe bpin)

def beginOp : Path := locked .log (loop (sleep p .log))

/-- Either the transaction goes on, or it is committed. -/
def endOp : Path :=
  choice (locked .log (wakeup (some p)))
    (block [brief .log, commit p, locked .log (wakeup (some p))])

/-! ## §8. Inodes and files (fs.c, pipe.c, file.c). -/

def bfree : Path := pick fun i => block [bread p i, logWrite, brelse p i]

def iupdate : Path := pick fun i => block [bread p i, logWrite, brelse p i]

def itrunc : Path :=
  block
    [loop (bfree p),
      maybe (block [pick fun i => block [bread p i, loop (bfree p), brelse p i], bfree p]),
      iupdate p]

/-- The sleep lock is taken with itable.lock held. -/
def iput (i : Nat) : Path :=
  locked .itable
    (maybe (block [acquiresleep p (.inode i), release .itable, itrunc p, iupdate p,
      releasesleep p (.inode i), acquire .itable]))

def pipeclose (i : Nat) : Path := block [locked (.pipe i) (wakeup (some p)), maybe kfree]

def fileclose : Path :=
  block
    [brief .ftable,
      choice skip (choice (pick (pipeclose p)) (block [beginOp p, pick (iput p), endOp p]))]

/-! ## §9. exit, wait and thread_cleanup (proc.c). -/

def reparent : Path := forSlots fun _ => maybe (wakeup (some p))

def exit : Path :=
  block
    [loop (fileclose p), beginOp p, pick (iput p), endOp p, acquire .waitLock, reparent p,
      wakeup (some p), acquire (.proc p), release .waitLock, sched, halt]

/-- The trapframe, the page table and the memory go back to the allocator. -/
def freeproc : Path := loop kfree

/-- A pass of wait that finds children, none of them a zombie. -/
def waitPass : Path := forSlots fun pp => maybe (brief (.proc pp))

/-- The pass in which wait returns: with a zombie, or at its end without
children or killed. -/
def waitLast : List Slot → Path
  | [] => block [maybe (killed p), release .waitLock]
  | pp :: l =>
    choice (block [maybe (brief (.proc pp)), waitLast l])
      (block [acquire (.proc pp), maybe freeproc, release (.proc pp), release .waitLock])

def wait : Path :=
  block
    [acquire .waitLock, loop (block [waitPass, killed p, sleep p .waitLock]),
      waitLast p (List.finRange NPROC)]

/-- No entry, an entry that is free already, the main thread, another one. -/
def threadCleanup : Path :=
  block
    [acquire (.proc p),
      choice (release (.proc p))
        (choice (block [release (.proc p), yield p])
          (choice
            (block [kfree, loop kfree, release (.proc p), exit p])
            (block [kfree, release (.proc p), yield p])))]

end Files

/-! ## §10. The schedulers (proc.c). -/

def rrScan : Path := forSlots fun p => locked (.proc p) (maybe (swtch p))

def scanOp : Sched.LockOp → Path
  | .acquire p => acquire (.proc p)
  | .release p => release (.proc p)

/-- `proc` is what the scan reads of each process while it holds its lock. -/
def minCuRound (proc : Slot → Proc) (quotaEnable : Bool) : Path :=
  block
    [acquire .procLock, block ((Sched.scan proc quotaEnable).locks.map scanOp), release .procLock,
      match (Sched.scan proc quotaEnable).minCuProc with
      | none => skip
      | some p =>
        block [if (Sched.pickThread (proc p)).isSome then swtch p else skip, release (.proc p)]]

inductive Round where
  | rr
  | minCu (proc : Slot → Proc) (quotaEnable : Bool)

def Round.path : Round → Path
  | .rr => rrScan
  | .minCu proc quotaEnable => minCuRound proc quotaEnable

/-! ## §11. The kernel. -/

inductive Call where
  | sysSleep
  | sysUptime
  | cpuUsage
  | kill
  | exit
  | wait
  | createThread
  | threadCleanup
  deriving DecidableEq

def Call.path (p : Slot) : Call → Path
  | .sysSleep => Locks.sysSleep p
  | .sysUptime => Locks.sysUptime
  | .cpuUsage => Locks.cpuUsage p
  | .kill => Locks.kill
  | .exit => Locks.exit p
  | .wait => Locks.wait p
  | .createThread => Locks.createThread p
  | .threadCleanup => Locks.threadCleanup p

def kernel : Kernel Lock Slot Call Round where
  own := .proc
  intr := timer
  call := Call.path
  round := Round.path

abbrev RunWith (n : Nat) (allowed : Call → Prop) : State n Lock Slot → Prop :=
  kernel.RunWith allowed

end Xv6.Locks
