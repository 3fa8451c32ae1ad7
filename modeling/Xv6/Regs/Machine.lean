/-
  Xv6.Regs.Machine — the registers of the threads of one process.

  `sched` copies `*p->trapframe` to the trapframe of the thread that leaves; a scheduler
  copies the trapframe of the thread it has picked into it, keeps the old contents in its
  local `ptf` and puts them back after its `swtch`.  The ghost `last` is the register file
  each thread left user mode with, as changed by its own system calls.
-/
import Xv6.Proc.ThreadPages
import Xv6.Lib.Run

namespace Xv6.Regs

open Lib Function

/-! ## §1. Trapframes. -/

/-- The user registers of `struct trapframe`. `rest` is gp, tp, t0-t6, s0-s11 and a3-a6. -/
structure Trapframe where
  epc : UInt64
  ra : UInt64
  sp : UInt64
  a0 : UInt64
  a1 : UInt64
  a2 : UInt64
  a7 : UInt64
  rest : Fin 25 → UInt64
  deriving DecidableEq

/-- A page filled with one word: what `memset` leaves. -/
def Trapframe.fill (w : UInt64) : Trapframe :=
  { epc := w, ra := w, sp := w, a0 := w, a1 := w, a2 := w, a7 := w, rest := fun _ => w }

/-- `memset(pa, 1, PGSIZE)` in `kfree`. -/
def freeJunk : Trapframe := .fill 0x0101010101010101

/-- `memset(r, 5, PGSIZE)` in `kalloc`. -/
def allocJunk : Trapframe := .fill 0x0505050505050505

def newFrame (runner arg stack : UInt64) : Trapframe :=
  { Trapframe.fill 0 with epc := runner, sp := stack, a0 := arg, ra := -1 }

/-- The pages after calls of `kalloc` and `kfree`. -/
def scrubbed (frames : Pa → Trapframe) : List (Event Pa) → Pa → Trapframe
  | [] => frames
  | .alloc _ pa :: l => scrubbed (update frames pa allocJunk) l
  | .free pa :: l => scrubbed (update frames pa freeJunk) l

/-! ## §2. System call numbers (syscall.h). -/

abbrev SYS_exit : Int := 2
abbrev SYS_read : Int := 5
abbrev SYS_exec : Int := 7
abbrev SYS_create_thread : Int := 26
abbrev SYS_join_thread : Int := 27
abbrev SYS_stop_thread : Int := 28

abbrev NSYSCALLS : Int := 34

def sysNum (tf : Trapframe) : Int := tf.a7.toUInt32.toInt32.toInt

/-- An `int` as the `uint64` that a system call returns. -/
def ofInt (v : UInt32) : UInt64 := v.toInt32.toInt64.toUInt64

/-! ## §3. The state. -/

/-- Where the kernel path of the process is, with the thread that made the system call. -/
inductive Path where
  | user (regs : Trapframe)
  /-- In usertrap, about to enter `syscall`. -/
  | ecall (t : Fin MAX_THREAD)
  | call (t : Fin MAX_THREAD) (num : Int)
  /-- `syscalls[num]()` has returned; `p->trapframe->a0` is not written yet. -/
  | result (t : Fin MAX_THREAD) (value : UInt64)
  /-- Before `yield`, with `usertrapret` to follow. -/
  | yield
  /-- Before `usertrapret`. -/
  | ret
  | exit
  deriving DecidableEq

/-- The thread whose system call the path is in. -/
def Path.maker : Path → Option (Fin MAX_THREAD)
  | .ecall t | .call t _ | .result t _ => some t
  | .user _ | .yield | .ret | .exit => none

def Path.inKernel : Path → Bool
  | .user _ => false
  | .ecall _ | .call _ _ | .result _ _ | .yield | .ret | .exit => true

structure State where
  proc : Proc
  /-- `c->thread` of the CPU that runs the process. -/
  thread : Option (Fin MAX_THREAD)
  /-- The scheduler's `ptf`, if it has saved `*p->trapframe` there. -/
  ptf : Option Trapframe
  /-- The contents of pages, read as trapframes. -/
  frames : Pa → Trapframe
  path : Path
  heap : Heap Pa UInt32
  /-- The pages of everybody else: other processes, and the memory and the
  page table of this one. -/
  others : Multiset Pa
  /-- Ghost: the registers each thread is to resume with. -/
  last : Fin MAX_THREAD → Trapframe

namespace State

def tf (s : State) : Pa := s.proc.trapframe.getD 0

def frame (s : State) : Trapframe := s.frames s.tf

/-- The thread that runs; the main thread if there is no other. -/
def current (s : State) : Fin MAX_THREAD := s.thread.getD 0

def Running (s : State) : Prop := s.proc.state = .RUNNING

instance (s : State) : Decidable s.Running := inferInstanceAs (Decidable (_ = _))

def setFrame (s : State) (f : Trapframe) : State :=
  { s with frames := update s.frames s.tf f }

def setLast (s : State) (t : Fin MAX_THREAD) (f : Trapframe) : State :=
  { s with last := update s.last t f }

def goto (s : State) (path : Path) : State := { s with path := path }

/-- uservec and the head of usertrap: the registers of the running thread are
saved. -/
def trapped (s : State) (regs : Trapframe) : State := (s.setFrame regs).setLast s.current regs

end State

/-! ## §4. Switching. -/

/-- The copying in `sched`. -/
def saved (s : State) : Pa → Trapframe :=
  match s.thread with
  | none => s.frames
  | some t =>
    if (s.proc.threads t).state ≠ .THREAD_FREE ∧
        (s.proc.threads t).trapframe ≠ s.proc.trapframe then
      update s.frames ((s.proc.threads t).trapframe.getD 0) s.frame
    else s.frames

/-- `*(p->trapframe) = ptf` in the scheduler, after its `swtch`. -/
def restored (s : State) (frames : Pa → Trapframe) : Pa → Trapframe :=
  match s.ptf with
  | none => frames
  | some f => update frames s.tf f

/-- From `sched` to the end of the scheduler's turn. -/
def switchOut (s : State) (state : ProcState) (ticks : UInt32) : State :=
  { s with
    proc := switchedOut s.proc s.thread state ticks
    frames := restored s (saved s)
    thread := none
    ptf := none }

/-- The scheduler's `tf`. -/
def chosenFrame (p : Proc) : Sched.Choice → Option Pa
  | .mainOnly => p.trapframe
  | .thread t => (p.threads t).trapframe

def chosenThread : Sched.Choice → Fin MAX_THREAD
  | .mainOnly => 0
  | .thread t => t

def switchIn (s : State) (c : Sched.Choice) (ticks : UInt32) : State :=
  let s' := { s with proc := (dispatched s.proc ticks c).1, thread := (dispatched s.proc ticks c).2 }
  if chosenFrame s.proc c ≠ s.proc.trapframe then
    { s' with
      ptf := some s.frame
      frames := update s.frames s.tf (s.frames ((chosenFrame s.proc c).getD 0)) }
  else { s' with ptf := none }

/-! ## §5. Thread calls. -/

def runThreads (kend : Pa) (s : State) (prog : Kernel ThreadsResult) : Option (State × After) :=
  (prog.run (kfreeOk kend) (· + 1) 0 s.heap).map fun r =>
    ({ s with
        proc := { s.proc with threads := r.1.threads }
        thread := r.1.thread
        heap := r.2
        frames := scrubbed s.frames (r.2.trace.drop s.heap.trace.length) }, r.1.after)

/-- The entry that create_thread has filled. -/
def newEntry (old new : ThreadTable) : Option (Fin MAX_THREAD) :=
  (List.finRange MAX_THREAD).find? fun i =>
    (old i).state = .THREAD_FREE ∧ (new i).state = .THREAD_RUNNABLE

def initFrame (old : ThreadTable) (s : State) (f : Trapframe) : State :=
  match newEntry old s.proc.threads with
  | none => s
  | some i =>
    { s with
      frames := update s.frames ((s.proc.threads i).trapframe.getD 0) f
      last := update s.last i f }

def afterPath (t : Fin MAX_THREAD) : After → Path
  | .returns v => .result t (ofInt v)
  | .yields => .yield
  | .exits => .exit

/-- The id that `stop_thread(tid)` hands to thread_cleanup. -/
def stopTarget (threads : ThreadTable) (thread : Option (Fin MAX_THREAD)) (tid : UInt32) :
    Option UInt32 :=
  if tid = -1 then thread.map fun t => (threads t).id else some tid

def stopAfter (tid : UInt32) : After → After
  | .returns v => .returns (if tid = -1 then 0 else v)
  | .yields => .yields
  | .exits => .exits

/-- sys_create_thread, called for `t`. -/
def callCreateThread (kend : Pa) (s : State) (t : Fin MAX_THREAD) : Option State :=
  let f := newFrame s.frame.a0 s.frame.a1 s.frame.a2
  (runThreads kend s (createThread s.proc.threads s.proc.trapframe s.thread)).map fun r =>
    (initFrame s.proc.threads r.1 f).goto (afterPath t r.2)

def callJoinThread (s : State) (t : Fin MAX_THREAD) : Option State :=
  (joinThread s.proc.threads s.thread s.frame.a0.toUInt32).map fun r =>
    { s with proc := { s.proc with threads := r.threads }, path := afterPath t r.after }

def callStopThread (kend : Pa) (s : State) (t : Fin MAX_THREAD) : Option State :=
  match stopTarget s.proc.threads s.thread s.frame.a0.toUInt32 with
  | none => some (s.goto (.result t 0))
  | some tid =>
    (runThreads kend s (threadCleanup s.proc.threads s.thread tid)).map fun r =>
      r.1.goto (afterPath t (stopAfter s.frame.a0.toUInt32 r.2))

/-- `cleanup()` and `usertrapret()`, for a fault with `ra` = -1. -/
def faultCleanup (kend : Pa) (s : State) : Option State :=
  match s.thread with
  | none => some (s.goto .ret)
  | some t =>
    (runThreads kend s
      (threadCleanup s.proc.threads s.thread (s.proc.threads t).id)).map fun r =>
        match r.2 with
        | .returns _ => r.1.goto .ret
        | .yields => r.1.goto .yield
        | .exits => r.1.goto .exit

/-! ## §6. Steps. -/

inductive Act where
  | compute (regs : Trapframe)
  | timer
  | device
  | ecall
  | fault
  | syscall
  /-- A system call that leaves the thread table alone returns. -/
  | serve (value : UInt64)
  /-- `exec` writes to the trapframe. -/
  | execRegs (a1 epc sp : UInt64)
  | createThread
  | joinThread
  | stopThread
  | store
  | usertrapret
  /-- `exit` is called, or the process finds itself killed. -/
  | callExit
  | exit (ticks : UInt32)
  /-- A timer interrupt in the kernel. -/
  | preempt (ticks : UInt32)
  | yield (ticks : UInt32)
  | sleep (ticks : UInt32)
  | wakeup
  | dispatch (ticks : UInt32)
  /-- The others use the allocator and write to their pages. -/
  | otherKalloc
  | otherKfree (pa : Pa)
  | otherWrite (pa : Pa) (f : Trapframe)
  | otherTid

def runningStep (kend : Pa) (s : State) : Act → Path → Option State
  | .compute regs, .user _ => some (s.goto (.user regs))
  | .timer, .user regs => some ((s.trapped regs).goto .yield)
  | .device, .user regs => some ((s.trapped regs).goto .ret)
  | .ecall, .user regs =>
    some ((s.trapped { regs with epc := regs.epc + 4 }).goto (.ecall s.current))
  | .fault, .user regs =>
    if regs.ra = -1 then faultCleanup kend (s.trapped regs)
    else some ((s.trapped regs).goto .exit)
  | .syscall, .ecall t => some (s.goto (.call t (sysNum s.frame)))
  | .serve v, .call t num =>
    if num ∉ [SYS_exit, SYS_create_thread, SYS_join_thread, SYS_stop_thread] ∧
        (0 < num ∧ num < NSYSCALLS ∨ v = -1) then
      some (s.goto (.result t v))
    else none
  | .execRegs a1 epc sp, .call t num =>
    if num = SYS_exec then
      let set (f : Trapframe) : Trapframe := { f with a1 := a1, epc := epc, sp := sp }
      some ((s.setFrame (set s.frame)).setLast t (set (s.last t)))
    else none
  | .createThread, .call t num =>
    if num = SYS_create_thread then callCreateThread kend s t else none
  | .joinThread, .call t num => if num = SYS_join_thread then callJoinThread s t else none
  | .stopThread, .call t num => if num = SYS_stop_thread then callStopThread kend s t else none
  | .store, .result t v =>
    some (((s.setFrame { s.frame with a0 := v }).setLast t { s.last t with a0 := v }).goto .ret)
  | .usertrapret, .ret => some (s.goto (.user s.frame))
  | .callExit, .ecall _ | .callExit, .ret => some (s.goto .exit)
  | .callExit, .call _ num => if num = SYS_exit then some (s.goto .exit) else none
  | .exit ticks, .exit => some (switchOut s .ZOMBIE ticks)
  | .preempt ticks, path => if path.inKernel then some (switchOut s .RUNNABLE ticks) else none
  | .yield ticks, .yield => some ((switchOut s .RUNNABLE ticks).goto .ret)
  | .sleep ticks, .call _ _ | .sleep ticks, .exit => some (switchOut s .SLEEPING ticks)
  | _, _ => none

def otherStep (s : State) : Act → Option State
  | .wakeup =>
    if s.proc.state = .SLEEPING then some { s with proc := { s.proc with state := .RUNNABLE } }
    else none
  | .dispatch ticks =>
    if s.proc.state = .RUNNABLE then
      (Sched.pickThread s.proc).map fun c => switchIn s c ticks
    else none
  | .otherKalloc =>
    match s.heap.free with
    | [] => none
    | pa :: rest =>
      some
        { s with
          heap := { s.heap with free := rest, trace := s.heap.trace ++ [.alloc 1 pa] }
          others := pa ::ₘ s.others
          frames := scrubbed s.frames [.alloc 1 pa] }
  | .otherKfree pa =>
    if pa ∈ s.others then
      some
        { s with
          heap := { s.heap with free := pa :: s.heap.free, trace := s.heap.trace ++ [.free pa] }
          others := s.others.erase pa
          frames := scrubbed s.frames [.free pa] }
    else none
  | .otherWrite pa f =>
    if pa ∈ s.others then some { s with frames := update s.frames pa f } else none
  | .otherTid => some { s with heap := { s.heap with next := s.heap.next + 1 } }
  | _ => none

def step (kend : Pa) (s : State) (a : Act) : Option State :=
  match otherStep s a with
  | some s' => some s'
  | none => if s.Running then runningStep kend s a s.path else none

/-! ## §7. Runs. -/

/-- A process that has never run: after `fork` or `userinit`. -/
structure Start (s : State) : Prop where
  state : s.proc.state = .RUNNABLE
  trapframe : s.proc.trapframe = some s.tf
  threads : s.proc.threads = fun _ => Thread.zero
  path : s.path = .ret
  last : s.last 0 = s.frame
  nodup : ((s.heap.free : Multiset Pa) + (s.others + {s.tf})).Nodup

def RunWith (kend : Pa) (ok : State → Act → Prop) : State → Prop :=
  Reachable Start fun s s' => ∃ a, step kend s a = some s' ∧ ok s a

end Xv6.Regs
