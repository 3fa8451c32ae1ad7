/-
  Xv6.Proc.Types — the process table of proc.h.

  One record per slot of `proc[NPROC]`, with the fields that the modelled functions read or
  write.
-/
import Xv6.Vm.PageTable

namespace Xv6

abbrev NPROC : Nat := 64

abbrev MAX_THREAD : Nat := 4

instance : NeZero NPROC := ⟨by decide⟩

instance : NeZero MAX_THREAD := ⟨by decide⟩

/-- A slot of the process table: the model of a `struct proc *`. -/
abbrev Slot := Fin NPROC

inductive ProcState where
  | UNUSED | USED | SLEEPING | RUNNABLE | RUNNING | ZOMBIE
  deriving DecidableEq

inductive ThreadState where
  | THREAD_FREE | THREAD_RUNNABLE | THREAD_RUNNING | THREAD_JOINED
  deriving DecidableEq

/-- What a process can sleep on: a process record (`wait`) or any other
address of the kernel. -/
inductive Chan where
  | proc (p : Slot)
  | addr (a : Nat)
  deriving DecidableEq

structure CpuUsage where
  sumOfTicks : UInt32
  startTick : UInt32
  quota : UInt32
  deriving DecidableEq

structure Thread where
  state : ThreadState
  trapframe : Option Pa
  id : UInt32
  join : UInt32
  deriving DecidableEq

def Thread.zero : Thread :=
  { state := .THREAD_FREE, trapframe := none, id := 0, join := 0 }

structure Proc where
  state : ProcState
  chan : Option Chan
  killed : Bool
  xstate : Int
  pid : UInt32
  parent : Option Slot
  sz : Nat
  pagetable : Option Pagetable
  trapframe : Option Pa
  threads : Fin MAX_THREAD → Thread
  lastRunningThreadIndex : Fin MAX_THREAD
  runningThreadsCount : Int
  cpuUsage : CpuUsage
  deadline : UInt32

/-- A slot of the zero-initialised table after `procinit`. -/
def Proc.init : Proc :=
  { state := .UNUSED, chan := none, killed := false, xstate := 0, pid := 0, parent := none,
    sz := 0, pagetable := none, trapframe := none, threads := fun _ => Thread.zero,
    lastRunningThreadIndex := 0, runningThreadsCount := 0,
    cpuUsage := { sumOfTicks := 0, startTick := 0, quota := 0 }, deadline := 0 }

def Proc.allocated (p : Proc) (pid : UInt32) : Proc :=
  { p with
    pid := pid, state := .USED, lastRunningThreadIndex := 0, runningThreadsCount := 0,
    cpuUsage := { sumOfTicks := 0, startTick := -1, quota := 0 }, deadline := -1,
    threads := fun _ => Thread.zero }

def Proc.freed (p : Proc) : Proc :=
  { p with
    trapframe := none, pagetable := none, sz := 0, pid := 0, parent := none,
    chan := none, killed := false, xstate := 0, state := .UNUSED }

end Xv6
