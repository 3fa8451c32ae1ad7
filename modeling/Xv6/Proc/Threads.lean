/-
  Xv6.Proc.Threads — the thread table of a process.

  An `int` tid is compared with the `uint` id, so both are 32-bit words here.
-/
import Xv6.Sched.MinCpuUsage
import Xv6.Vm.Uvm

namespace Xv6

open Lib Function

abbrev ThreadTable := Fin MAX_THREAD → Thread

/-- How a function of this file ends: with a return value, with
`yield(); usertrapret()`, or in `exit(0)`. -/
inductive After where
  | returns (value : UInt32)
  | yields
  | exits
  deriving DecidableEq

structure ThreadsResult where
  threads : ThreadTable
  thread : Option (Fin MAX_THREAD)
  after : After

/-! ## §1. create_thread. -/

/-- `if (p->threads[0].state == THREAD_FREE)`: the main thread enters the table. -/
def addMainThread (threads : ThreadTable) (trapframe : Option Pa)
    (thread : Option (Fin MAX_THREAD)) : Kernel (ThreadTable × Option (Fin MAX_THREAD)) :=
  if (threads 0).state = .THREAD_FREE then do
    let id ← alloctid
    pure (update threads 0
      { state := .THREAD_RUNNING, id := id, join := 0, trapframe := trapframe }, some 0)
  else pure (threads, thread)

def firstFree (threads : ThreadTable) : Option (Fin MAX_THREAD) :=
  (List.finRange MAX_THREAD).find? fun i => (threads i).state = .THREAD_FREE

/-- The result of `kalloc` is used without a test: `memset(0, …)` is a kernel
fault. -/
def createThread (threads : ThreadTable) (trapframe : Option Pa)
    (thread : Option (Fin MAX_THREAD)) : Kernel ThreadsResult := do
  let (threads, thread) ← addMainThread threads trapframe thread
  match firstFree threads with
  | none => pure { threads := threads, thread := thread, after := .returns (-1) }
  | some i => do
    let id ← alloctid
    match ← kalloc with
    | none => .abort "kerneltrap"
    | some page =>
      pure
        { threads := update threads i
            { state := .THREAD_RUNNABLE, id := id, join := 0, trapframe := some page }
          thread := thread
          after := .returns id }

/-! ## §2. join_thread. -/

/-- `none` stands for the kernel fault that a null `mycpu()->thread` is. -/
def joinThread (threads : ThreadTable) (thread : Option (Fin MAX_THREAD)) (tid : UInt32) :
    Option ThreadsResult :=
  if ∃ i, (threads i).id = tid ∧ (threads i).state ≠ .THREAD_FREE then
    thread.map fun t =>
      { threads := update threads t
          { threads t with join := tid, state := .THREAD_JOINED }
        thread := thread
        after := .yields }
  else some { threads := threads, thread := thread, after := .returns (-1) }

/-! ## §3. thread_cleanup. -/

/-- `kfree(t->trapframe)`; a null pointer is a panic of `kfree`. -/
def kfreeTrapframe (t : Thread) : Kernel Unit :=
  match t.trapframe with
  | some page => kfree page
  | none => .abort "kfree"

def findThread (threads : ThreadTable) (tid : UInt32) : Option (Fin MAX_THREAD) :=
  (List.finRange MAX_THREAD).find? fun i => (threads i).id = tid

/-- The main thread takes the other threads with it. -/
def freeOthers (threads : ThreadTable) : List (Fin MAX_THREAD) → Kernel Unit
  | [] => pure ()
  | i :: l =>
    if (threads i).state ≠ .THREAD_FREE then do
      kfreeTrapframe (threads i)
      freeOthers threads l
    else freeOthers threads l

/-- Wake up the threads that have joined `id`. -/
def wakeJoined (threads : ThreadTable) (id : UInt32) : ThreadTable := fun i =>
  if (threads i).state = .THREAD_JOINED ∧ (threads i).join = id then
    { threads i with join := 0, state := .THREAD_RUNNABLE }
  else threads i

def threadCleanup (threads : ThreadTable) (thread : Option (Fin MAX_THREAD)) (tid : UInt32) :
    Kernel ThreadsResult :=
  match findThread threads tid with
  | none => pure { threads := threads, thread := thread, after := .returns (-1) }
  | some i =>
    if (threads i).state ≠ .THREAD_FREE then do
      let t := threads i
      let threads := update threads i { t with state := .THREAD_FREE }
      kfreeTrapframe t
      if t.id = 1 then do
        freeOthers threads (List.finRange MAX_THREAD)
        pure { threads := threads, thread := thread, after := .exits }
      else pure { threads := wakeJoined threads t.id, thread := thread, after := .yields }
    else pure { threads := threads, thread := thread, after := .yields }

/-! ## §4. Dispatch and sched. -/

/-- What a scheduler does to the record before it switches to it, and the
`c->thread` it leaves for it. -/
def dispatched (p : Proc) (ticks : UInt32) : Sched.Choice → Proc × Option (Fin MAX_THREAD)
  | .mainOnly =>
    ({ p with
        state := .RUNNING
        runningThreadsCount := p.runningThreadsCount + 1
        cpuUsage := { p.cpuUsage with startTick := ticks } }, none)
  | .thread t =>
    ({ p with
        state := .RUNNING
        threads := update p.threads t { p.threads t with state := .THREAD_RUNNING }
        lastRunningThreadIndex := t
        runningThreadsCount := p.runningThreadsCount + 1
        cpuUsage := { p.cpuUsage with startTick := ticks } }, some t)

def parked (threads : ThreadTable) : Option (Fin MAX_THREAD) → ThreadTable
  | none => threads
  | some t =>
    if (threads t).state = .THREAD_RUNNING then
      update threads t { threads t with state := .THREAD_RUNNABLE }
    else threads

/-- From `sched` to the scheduler's lines after its `swtch`, with the state
that the caller of `sched` has set. -/
def switchedOut (p : Proc) (thread : Option (Fin MAX_THREAD)) (state : ProcState)
    (ticks : UInt32) : Proc :=
  { p with
    state := state
    threads := parked p.threads thread
    runningThreadsCount := p.runningThreadsCount - 1
    cpuUsage := { p.cpuUsage with
      sumOfTicks := p.cpuUsage.sumOfTicks + (ticks - p.cpuUsage.startTick) } }

end Xv6
