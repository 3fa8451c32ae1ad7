/-
  Xv6.Mem.Machine — the kernel as far as physical pages go.

  A step is one `kalloc`, one `kfree` or one `alloctid` of one process's kernel path.  A path
  that holds the lock of the process it works on keeps its CPU until it is done.  Ghost
  fields number the processes (`born`) and list those that a `wait` has freed (`reaped`).
-/
import Xv6.Proc.Exec
import Xv6.Proc.Threads
import Xv6.Lib.Run

namespace Xv6.Mem

open Lib Function

/-! ## §1. The state. -/

/-- Two addresses that the linker decides. -/
structure Layout where
  kend : Pa
  trampoline : Pa

inductive Work where
  /-- `growproc` or `exec`; `none` if the old image stays. -/
  | image (prog : Kernel (Option Image))
  /-- `create_thread` or `thread_cleanup`, with `p->lock` held. -/
  | threads (prog : Kernel ThreadsResult)
  /-- `fork_core`, with the lock of the new slot held. -/
  | child (np : Slot) (prog : Kernel (Option (Pa × Image)))
  /-- `freeproc(pp)` in `wait`, with the lock of the child held. -/
  | reap (pp : Slot) (prog : Kernel Unit)

/-- The slot whose memory the path works on. -/
def Work.target (p : Slot) : Work → Slot
  | .image _ => p
  | .threads _ => p
  | .child np _ => np
  | .reap pp _ => pp

/-- The path holds no spin lock. -/
def Work.preemptible : Work → Bool
  | .image _ => true
  | .threads _ | .child _ _ | .reap _ _ => false

def Work.step (ld : Layout) (who : Nat) (heap : Heap Pa UInt32) :
    Work → Option (Work × Heap Pa UInt32)
  | .image prog =>
    (prog.step (kfreeOk ld.kend) (· + 1) who heap).map fun r => (.image r.1, r.2)
  | .threads prog =>
    (prog.step (kfreeOk ld.kend) (· + 1) who heap).map fun r => (.threads r.1, r.2)
  | .child np prog =>
    (prog.step (kfreeOk ld.kend) (· + 1) who heap).map fun r => (.child np r.1, r.2)
  | .reap pp prog =>
    (prog.step (kfreeOk ld.kend) (· + 1) who heap).map fun r => (.reap pp r.1, r.2)

inductive Path where
  /-- In user mode, or in the kernel outside the calls below. -/
  | user
  | work (w : Work)
  /-- At the `yield()` that ends join_thread and thread_cleanup. -/
  | yield
  | exit (status : Int)

/-- Where the path goes on after it has given up the CPU. -/
def Path.resumed : Path → Path
  | .yield => .user
  | path => path

def Path.preemptible : Path → Bool
  | .work w => w.preemptible
  | .user | .yield | .exit _ => true

def After.path : After → Path
  | .returns _ => .user
  | .yields => .yield
  | .exits => .exit 0

structure State where
  heap : Heap Pa UInt32
  proc : Slot → Proc
  thread : Slot → Option (Fin MAX_THREAD)
  path : Slot → Path
  initproc : Slot
  nextpid : UInt32
  born : Slot → Nat
  nextBorn : Nat
  reaped : List Nat

namespace State

@[simps -fullyApplied proc path]
def setHeap (s : State) (heap : Heap Pa UInt32) : State := { s with heap := heap }

@[simps -fullyApplied heap path thread]
def setProc (s : State) (p : Slot) (r : Proc) : State :=
  { s with proc := update s.proc p r }

@[simps -fullyApplied heap proc thread]
def setPath (s : State) (p : Slot) (path : Path) : State :=
  { s with path := update s.path p path }

@[simps -fullyApplied proc path]
def setThread (s : State) (p : Slot) (thread : Option (Fin MAX_THREAD)) : State :=
  { s with thread := update s.thread p thread }

section Setters

variable (s : State) (p q : Slot) (r : Proc) (path : Path) (thread : Option (Fin MAX_THREAD))

@[simp] theorem setProc_proc : (s.setProc p r).proc q = if q = p then r else s.proc q := by
  simp [setProc, update_apply]

@[simp] theorem setPath_path : (s.setPath p path).path q = if q = p then path else s.path q := by
  simp [setPath, update_apply]

@[simp] theorem setThread_thread :
    (s.setThread p thread).thread q = if q = p then thread else s.thread q := by
  simp [setThread, update_apply]

end Setters

def InUser (s : State) (p : Slot) : Prop := (s.proc p).state = .RUNNING ∧ s.path p = .user

def Busy (s : State) (q : Slot) : Prop := ∃ p w, s.path p = .work w ∧ w.target p = q

end State

/-! ## §2. The calls. -/

def imageOf (r : Proc) : Option Image := r.pagetable.map fun pt => { pagetable := pt, sz := r.sz }

/-- `fork_core` in `allocproc`: slot `np` is taken. -/
def startFork (ld : Layout) (s : State) (p np : Slot) (parent : Image) : State :=
  { (s.setProc np ((s.proc np).allocated s.nextpid)).setPath p
      (.work (.child np (forkCore ld.trampoline parent))) with
    nextpid := s.nextpid + 1
    born := update s.born np s.nextBorn
    nextBorn := s.nextBorn + 1 }

/-- The record of the child when `fork_core` returns. -/
def forked (r : Proc) (p : Slot) : Option (Pa × Image) → Proc
  | none => r.freed
  | some (tf, image) =>
    { r with
      trapframe := some tf, pagetable := some image.pagetable, sz := image.sz,
      parent := some p, state := .RUNNABLE }

def withImage (r : Proc) : Option Image → Proc
  | none => r
  | some image => { r with pagetable := some image.pagetable, sz := image.sz }

def growWork (image : Image) (n : Int) : Work := .image do
  let r ← growproc image n
  pure (some r.1)

def execWork (ld : Layout) (tf : Pa) (image : Image) (file : Option (List UInt8))
    (argv : List (List UInt8)) : Work := .image do
  let r ← exec ld.trampoline tf image file argv
  pure (r.map Execed.image)

def reparented (s : State) (p : Slot) : Slot → Proc := fun q =>
  if (s.proc q).parent = some p then { s.proc q with parent := some s.initproc } else s.proc q

/-- `exit` from `reparent` to the switch into the scheduler. -/
def exited (s : State) (p : Slot) (status : Int) (ticks : UInt32) : State :=
  let r := reparented s p p
  (({ s with proc := reparented s p }.setProc p
      (switchedOut { r with xstate := status } (s.thread p) .ZOMBIE ticks)).setPath p
        .user).setThread p none

def reapDone (s : State) (p pp : Slot) : State :=
  { (s.setProc pp (s.proc pp).freed).setPath p .user with reaped := s.reaped ++ [s.born pp] }

/-! ## §3. Steps. -/

inductive Act where
  | fork (p np : Slot)
  | createThread (p : Slot)
  | joinThread (p : Slot) (tid : UInt32)
  /-- stop_thread, or the return of a thread's function. -/
  | threadCleanup (p : Slot) (tid : UInt32)
  | growproc (p : Slot) (n : Int)
  | exec (p : Slot) (file : Option (List UInt8)) (argv : List (List UInt8))
  | callExit (p : Slot) (status : Int)
  | exit (p : Slot) (status : Int)
  | wait (p pp : Slot)
  | goOn (p : Slot)
  | dispatch (p : Slot)
  | leave (p : Slot) (state : ProcState)
  | wakeup (p : Slot)

inductive Step (ld : Layout) : Act → State → State → Prop
  | fork {s : State} {p np : Slot} {parent : Image} (hp : s.InUser p)
    (himage : imageOf (s.proc p) = some parent) (hnp : (s.proc np).state = .UNUSED) :
    Step ld (.fork p np) s (startFork ld s p np parent)
  | forkDone {s : State} {p np : Slot} {r : Option (Pa × Image)}
    (hrun : (s.proc p).state = .RUNNING) (hw : s.path p = .work (.child np (.ret r))) :
    Step ld (.goOn p) s ((s.setProc np (forked (s.proc np) p r)).setPath p .user)
  | createThread {s : State} {p : Slot} (hp : s.InUser p) :
    Step ld (.createThread p) s (s.setPath p (.work (.threads
      (createThread (s.proc p).threads (s.proc p).trapframe (s.thread p)))))
  | threadCleanup {s : State} {p : Slot} {tid : UInt32} (hp : s.InUser p) :
    Step ld (.threadCleanup p tid) s (s.setPath p (.work (.threads
      (threadCleanup (s.proc p).threads (s.thread p) tid))))
  | threadsDone {s : State} {p : Slot} {r : ThreadsResult}
    (hrun : (s.proc p).state = .RUNNING) (hw : s.path p = .work (.threads (.ret r))) :
    Step ld (.goOn p) s
      (((s.setProc p { s.proc p with threads := r.threads }).setThread p r.thread).setPath p
        (After.path r.after))
  | joinThread {s : State} {p : Slot} {tid : UInt32} {r : ThreadsResult} (hp : s.InUser p)
    (hr : joinThread (s.proc p).threads (s.thread p) tid = some r) :
    Step ld (.joinThread p tid) s
      ((s.setProc p { s.proc p with threads := r.threads }).setPath p (After.path r.after))
  | growproc {s : State} {p : Slot} {image : Image} {n : Int} (hp : s.InUser p)
    (himage : imageOf (s.proc p) = some image) :
    Step ld (.growproc p n) s (s.setPath p (.work (growWork image n)))
  | exec {s : State} {p : Slot} {image : Image} {tf : Pa} {file : Option (List UInt8)}
    {argv : List (List UInt8)} (hp : s.InUser p) (himage : imageOf (s.proc p) = some image)
    (htf : (s.proc p).trapframe = some tf) :
    Step ld (.exec p file argv) s (s.setPath p (.work (execWork ld tf image file argv)))
  | imageDone {s : State} {p : Slot} {r : Option Image} (hrun : (s.proc p).state = .RUNNING)
    (hw : s.path p = .work (.image (.ret r))) :
    Step ld (.goOn p) s ((s.setProc p (withImage (s.proc p) r)).setPath p .user)
  | callExit {s : State} {p : Slot} {status : Int} (hp : s.InUser p) :
    Step ld (.callExit p status) s (s.setPath p (.exit status))
  | exit {s : State} {p : Slot} {status : Int} {ticks : UInt32}
    (hrun : (s.proc p).state = .RUNNING) (hpath : s.path p = .exit status)
    (hinit : p ≠ s.initproc) : Step ld (.exit p status) s (exited s p status ticks)
  | wait {s : State} {p pp : Slot} (hp : s.InUser p) (hchild : (s.proc pp).parent = some p)
    (hzombie : (s.proc pp).state = .ZOMBIE) (hfree : ¬ s.Busy pp) :
    Step ld (.wait p pp) s (s.setPath p (.work (.reap pp
      (freeproc (s.proc pp).trapframe (s.proc pp).pagetable (s.proc pp).sz))))
  | waitDone {s : State} {p pp : Slot} (hrun : (s.proc p).state = .RUNNING)
    (hw : s.path p = .work (.reap pp (.ret ()))) : Step ld (.goOn p) s (reapDone s p pp)
  | effect {s : State} {p : Slot} {w w' : Work} {heap : Heap Pa UInt32}
    (hrun : (s.proc p).state = .RUNNING) (hw : s.path p = .work w)
    (hstep : w.step ld (s.born (w.target p)) s.heap = some (w', heap)) :
    Step ld (.goOn p) s ((s.setPath p (.work w')).setHeap heap)
  | dispatch {s : State} {p : Slot} {c : Sched.Choice} {ticks : UInt32}
    (hp : (s.proc p).state = .RUNNABLE) (hc : Sched.pickThread (s.proc p) = some c) :
    Step ld (.dispatch p) s
      ((s.setProc p (dispatched (s.proc p) ticks c).1).setThread p
        (dispatched (s.proc p) ticks c).2)
  | leave {s : State} {p : Slot} {state : ProcState} {ticks : UInt32}
    (hrun : (s.proc p).state = .RUNNING) (hpath : (s.path p).preemptible = true)
    (hstate : state = .RUNNABLE ∨ state = .SLEEPING ∧ (s.path p).resumed = s.path p) :
    Step ld (.leave p state) s
      (((s.setProc p (switchedOut (s.proc p) (s.thread p) state ticks)).setPath p
        (s.path p).resumed).setThread p none)
  | wakeup {s : State} {p : Slot} (hp : (s.proc p).state = .SLEEPING) :
    Step ld (.wakeup p) s (s.setProc p { s.proc p with state := .RUNNABLE })

/-! ## §4. Boot. -/

def kernelTakes : Nat → Kernel Unit
  | 0 => pure ()
  | n + 1 => do
    match ← kalloc with
    | none => .abort "kerneltrap"
    | some _ => kernelTakes n

def bootProg (ld : Layout) (n : Nat) : Kernel (Pa × Image) := do
  kernelTakes n
  userinit ld.trampoline

/-- The free list after `kinit`: each page is freed once, the last one first. -/
def kinit (ld : Layout) : Heap Pa UInt32 :=
  { free := (freerange ld.kend).reverse, next := 1, trace := (freerange ld.kend).map .free }

def firstProc (r : Pa × Image) : Proc :=
  { Proc.init.allocated 1 with
    trapframe := some r.1, pagetable := some r.2.pagetable, sz := r.2.sz, state := .RUNNABLE }

def firstState (r : Pa × Image) (heap : Heap Pa UInt32) : State :=
  { heap := heap
    proc := fun q => if q = 0 then firstProc r else Proc.init
    thread := fun _ => none
    path := fun _ => .user
    initproc := 0
    nextpid := 2
    born := fun _ => 1
    nextBorn := 2
    reaped := [] }

/-- `none` if there is not enough memory.  What is allocated up to here is
charged to nobody (0). -/
def boot (ld : Layout) (n : Nat) : Option State :=
  ((bootProg ld n).run (kfreeOk ld.kend) (· + 1) 0 (kinit ld)).map fun r => firstState r.1 r.2

def RunWith (ld : Layout) (ok : State → Act → Prop) : State → Prop :=
  Reachable (fun s => ∃ n, boot ld n = some s) fun s s' => ∃ a, Step ld a s s' ∧ ok s a

end Xv6.Mem
