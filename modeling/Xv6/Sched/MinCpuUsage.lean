/-
  Xv6.Sched.MinCpuUsage — one iteration of `min_cpu_usage_scheduler`.
-/
import Xv6.Proc.Types

namespace Xv6.Sched

/-! ## §1. The scan. -/

def INF : UInt32 := 0xFFFFFFFF

/-- `acquire`/`release` of the lock of a slot, in program order. -/
inductive LockOp where
  | acquire (p : Slot)
  | release (p : Slot)
  deriving DecidableEq

structure ScanState where
  quotaEnable : Bool
  minCu : UInt32
  minCuProc : Option Slot
  locks : List LockOp
  deriving DecidableEq

/-- `p->cpu_usage.quota <= p->cpu_usage.sum_of_ticks`. -/
def overQuota (p : Proc) : Bool := decide (p.cpuUsage.quota ≤ p.cpuUsage.sumOfTicks)

def scanStep (proc : Slot → Proc) (s : ScanState) (p : Slot) : ScanState :=
  let held := s.locks ++ [.acquire p]
  if (proc p).state = .RUNNABLE ∧ (proc p).cpuUsage.sumOfTicks < s.minCu then
    if overQuota (proc p) && s.quotaEnable then
      -- release(&p->lock); continue;
      { s with locks := held ++ [.release p] }
    else
      { quotaEnable := if overQuota (proc p) then s.quotaEnable else true
        minCu := (proc p).cpuUsage.sumOfTicks
        minCuProc := some p
        locks := held ++ (s.minCuProc.map LockOp.release).toList }
  else if (proc p).state = .RUNNABLE ∧ (proc p).cpuUsage.sumOfTicks = s.minCu then
    match s.minCuProc with
    | some q =>
      if (proc p).deadline < (proc q).deadline then
        { s with minCuProc := some p, locks := held ++ [.release q] }
      else { s with locks := held ++ [.release p] }
    | none => { s with locks := held ++ [.release p] }
  else { s with locks := held ++ [.release p] }

def scanInit (quotaEnable : Bool) : ScanState :=
  { quotaEnable := quotaEnable, minCu := INF, minCuProc := none, locks := [] }

def scan (proc : Slot → Proc) (quotaEnable : Bool) : ScanState :=
  (List.finRange NPROC).foldl (scanStep proc) (scanInit quotaEnable)

/-! ## §2. The choice of a thread. -/

/-- What the scheduler loads: the trapframe of the process itself or that of
one of its threads. -/
inductive Choice where
  | mainOnly
  | thread (t : Fin MAX_THREAD)
  deriving DecidableEq

def nextRunnable (threads : Fin MAX_THREAD → Thread) : Nat → Fin MAX_THREAD → Option (Fin MAX_THREAD)
  | 0, _ => none
  | k + 1, next =>
    let next := next + 1
    if (threads next).state = .THREAD_RUNNABLE then some next
    else nextRunnable threads k next

/-- Which context of the process is to run, if any. -/
def pickThread (p : Proc) : Option Choice :=
  if (p.threads 0).state = .THREAD_FREE then some .mainOnly
  else (nextRunnable p.threads MAX_THREAD p.lastRunningThreadIndex).map Choice.thread

/-! ## §3. One iteration of the loop. -/

/-- One pass through `for(;;)`: the process and the context it dispatches, if
any, and `quota_enable` afterwards. -/
def minCuIteration (proc : Slot → Proc) (quotaEnable : Bool) : Option (Slot × Choice) × Bool :=
  let s := scan proc quotaEnable
  match s.minCuProc with
  | none => (none, false)
  | some p =>
    match pickThread (proc p) with
    | some c => (some (p, c), s.quotaEnable)
    -- found == 0: nothing to run
    | none => (none, false)

end Xv6.Sched
