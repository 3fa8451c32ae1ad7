/-
  Xv6.Proc.Lifecycle — fork, exit and wait at the granularity of locks.

  A step runs one path from one lock acquisition to the next.  Memory allocation only
  decides between the two outcomes of `fork_core`.  Ghost fields number the processes
  (`born`) and record every exit and every successful wait.
-/
import Xv6.Proc.Types
import Xv6.Lib.Run

namespace Xv6.Lifecycle

open Lib Function

/-! ## §1. The state. -/

/-- Where the kernel path of a process stands.  `addr` tells whether the
argument of `wait` is non-zero. -/
inductive Path where
  /-- In user mode, or in the kernel outside fork, exit and wait. -/
  | user
  /-- `allocproc`: about to lock slot `i`. -/
  | forkScan (i : Nat)
  /-- `allocproc` has taken `np`; its lock is held up to the end of `uvmcopy`. -/
  | forkCopy (np : Slot)
  | forkLink (np : Slot)
  | forkRun (np : Slot)
  | exit (status : Int)
  /-- In the loop of `reparent`, at slot `i`. -/
  | reparent (status : Int) (i : Nat)
  /-- In `wakeup(initproc)`, at slot `k`, for the child in slot `i`. -/
  | reparentWake (status : Int) (i k : Nat)
  /-- In `wakeup(p->parent)`, at slot `k`. -/
  | exitWake (status : Int) (k : Nat)
  /-- ZOMBIE, with `p->lock` held until the scheduler has switched away. -/
  | exitSched
  /-- No process, or one that never runs again. -/
  | dead
  /-- `wait`: before `acquire(&wait_lock)`, at first or after `sleep`. -/
  | wait (addr : Bool)
  /-- In the scan for exited children, at slot `i`. -/
  | waitScan (addr : Bool) (i : Nat) (havekids : Bool)
  /-- `sleep(p, &wait_lock)`: before `acquire(&p->lock)`. -/
  | waitSleep (addr : Bool)
  /-- `sleep`: `p->lock` held, `wait_lock` released, not yet SLEEPING. -/
  | waitSched (addr : Bool)
  /-- Switched away in `sleep`. -/
  | asleep (addr : Bool)
  deriving DecidableEq

def Path.holdsWait : Path → Bool
  | .reparent _ _ | .reparentWake _ _ _ | .exitWake _ _ | .waitScan _ _ _ | .waitSleep _ => true
  | .user | .forkScan _ | .forkCopy _ | .forkLink _ | .forkRun _ | .exit _ | .exitSched | .dead
  | .wait _ | .waitSched _ | .asleep _ => false

/-- The path holds no spin lock, so that a timer interrupt may take its CPU. -/
def Path.preemptible : Path → Bool
  | .user | .forkScan _ | .forkLink _ | .forkRun _ | .exit _ | .wait _ => true
  | .forkCopy _ | .reparent _ _ | .reparentWake _ _ _ | .exitWake _ _ | .exitSched | .dead
  | .waitScan _ _ _ | .waitSleep _ | .waitSched _ | .asleep _ => false

/-- Where a path goes on when its process is dispatched again. -/
def Path.resume : Path → Path
  -- sleep() returns into acquire(&wait_lock)
  | .asleep addr => .wait addr
  | path => path

structure Exit where
  slot : Slot
  born : Nat
  pid : UInt32
  status : Int
  deriving DecidableEq

structure Wait where
  waiter : Nat
  child : Nat
  forker : Nat
  pid : UInt32
  status : Option Int
  deriving DecidableEq

structure State where
  proc : Slot → Proc
  initproc : Option Slot
  nextpid : UInt32
  waitLock : Option Slot
  /-- `p->lock`: the process whose path holds it across steps. -/
  lock : Slot → Option Slot
  path : Slot → Path
  born : Slot → Nat
  nextBorn : Nat
  forker : Slot → Nat
  exits : List Exit
  waits : List Wait

namespace State

def goto (s : State) (p : Slot) (path : Path) : State :=
  { s with path := update s.path p path }

def setProc (s : State) (p : Slot) (r : Proc) : State :=
  { s with proc := update s.proc p r }

def setLock (s : State) (p : Slot) (holder : Option Slot) : State :=
  { s with lock := update s.lock p holder }

def setWaitLock (s : State) (holder : Option Slot) : State := { s with waitLock := holder }

def parent (s : State) (p : Slot) : Option Slot := (s.proc p).parent

def state (s : State) (p : Slot) : ProcState := (s.proc p).state

section Setters

variable (s : State) (p q : Slot) (path : Path) (r : Proc) (holder : Option Slot)

@[simp] theorem goto_path : (s.goto p path).path q = if q = p then path else s.path q := by
  simp [goto, update_apply]

@[simp] theorem goto_state : (s.goto p path).state = s.state := rfl

@[simp] theorem goto_parent : (s.goto p path).parent = s.parent := rfl

@[simp] theorem goto_lock : (s.goto p path).lock = s.lock := rfl

@[simp] theorem setProc_state : (s.setProc p r).state q = if q = p then r.state else s.state q := by
  simp only [setProc, state, update_apply]
  split <;> rfl

@[simp] theorem setProc_parent :
    (s.setProc p r).parent q = if q = p then r.parent else s.parent q := by
  simp only [setProc, parent, update_apply]
  split <;> rfl

theorem setProc_parent_eq {r : Proc} (hr : r.parent = s.parent p) :
    (s.setProc p r).parent q = s.parent q := by
  rw [setProc_parent]
  split
  · next hq => rw [hq, hr]
  · rfl

@[simp] theorem setProc_path : (s.setProc p r).path = s.path := rfl

@[simp] theorem setProc_lock : (s.setProc p r).lock = s.lock := rfl

@[simp] theorem setLock_lock :
    (s.setLock p holder).lock q = if q = p then holder else s.lock q := by
  simp [setLock, update_apply]

@[simp] theorem setLock_path : (s.setLock p holder).path = s.path := rfl

@[simp] theorem setLock_state : (s.setLock p holder).state = s.state := rfl

@[simp] theorem setLock_parent : (s.setLock p holder).parent = s.parent := rfl

@[simp] theorem setWaitLock_path : (s.setWaitLock holder).path = s.path := rfl

end Setters

/-! ## §2. Critical sections. -/

/-- `allocproc` takes the UNUSED slot `np`: `allocpid` and the assignments. -/
def allocproc (s : State) (np : Slot) (forker : Nat) : State :=
  { (s.setProc np ((s.proc np).allocated s.nextpid)).goto np .user with
    nextpid := s.nextpid + 1
    born := update s.born np s.nextBorn
    nextBorn := s.nextBorn + 1
    forker := update s.forker np forker }

def userinit (s : State) (p : Slot) : State :=
  { (s.allocproc p 0).setProc p
      { (s.proc p).allocated s.nextpid with sz := PGSIZE, state := .RUNNABLE } with
    initproc := some p }

def freeproc (s : State) (p : Slot) : State :=
  (s.setProc p (s.proc p).freed).goto p .dead

/-- The body of the loop of `wakeup(chan)` for a slot other than the caller's. -/
def wakeupSlot (s : State) (k : Slot) (chan : Option Chan) : State :=
  if (s.proc k).state = .SLEEPING ∧ (s.proc k).chan = chan then
    s.setProc k { s.proc k with state := .RUNNABLE }
  else s

/-- `kill`, `setkilled` or `drop_dead_processes` at one slot. -/
def killSlot (s : State) (q : Slot) : State :=
  s.setProc q { s.proc q with
    killed := true
    state := if (s.proc q).state = .SLEEPING then .RUNNABLE else (s.proc q).state }

def dispatch (s : State) (p : Slot) : State :=
  (s.setProc p { s.proc p with
    state := .RUNNING
    chan := match s.path p with
      -- tidy up at the end of sleep()
      | .asleep _ => none
      | _ => (s.proc p).chan }).goto p (s.path p).resume

def zombie (s : State) (p : Slot) (status : Int) : State :=
  { ((s.setProc p { s.proc p with xstate := status, state := .ZOMBIE }).setLock p (some p)).goto p
      .exitSched with
    waitLock := none
    exits := s.exits ++
      [{ slot := p, born := s.born p, pid := (s.proc p).pid, status := status }] }

/-- `wait` by `p` has found the ZOMBIE `c`: its pid is returned, and its status
unless `addr` is 0. -/
def reap (s : State) (p c : Slot) (addr : Bool) : State :=
  { ((s.freeproc c).goto p .user) with
    waitLock := none
    waits := s.waits ++
      [{ waiter := s.born p, child := s.born c, forker := s.forker c, pid := (s.proc c).pid,
         status := if addr then some (s.proc c).xstate else none }] }

section Fields

variable (s : State) (p c k q : Slot)

@[simp] theorem allocproc_path (f : Nat) :
    (s.allocproc p f).path q = if q = p then .user else s.path q :=
  goto_path (s.setProc p ((s.proc p).allocated s.nextpid)) p q .user

@[simp] theorem allocproc_state (f : Nat) :
    (s.allocproc p f).state q = if q = p then .USED else s.state q :=
  setProc_state s p q ((s.proc p).allocated s.nextpid)

@[simp] theorem allocproc_parent (f : Nat) : (s.allocproc p f).parent q = s.parent q :=
  setProc_parent_eq s p q rfl

@[simp] theorem userinit_path :
    (s.userinit p).path q = if q = p then .user else s.path q := allocproc_path s p q 0

@[simp] theorem userinit_state :
    (s.userinit p).state q = if q = p then .RUNNABLE else s.state q := by
  show ((s.allocproc p 0).setProc p _).state q = _
  rw [setProc_state, allocproc_state]
  split <;> rfl

@[simp] theorem userinit_parent : (s.userinit p).parent q = s.parent q := by
  show ((s.allocproc p 0).setProc p _).parent q = _
  rw [setProc_parent_eq, allocproc_parent]
  exact (allocproc_parent s p p 0).symm

@[simp] theorem freeproc_path :
    (s.freeproc p).path q = if q = p then .dead else s.path q := goto_path _ p q .dead

@[simp] theorem freeproc_state :
    (s.freeproc p).state q = if q = p then .UNUSED else s.state q := setProc_state s p q _

@[simp] theorem freeproc_parent :
    (s.freeproc p).parent q = if q = p then none else s.parent q := setProc_parent s p q _

@[simp] theorem wakeupSlot_path (chan : Option Chan) : (s.wakeupSlot k chan).path = s.path := by
  unfold wakeupSlot
  split <;> rfl

@[simp] theorem wakeupSlot_lock (chan : Option Chan) : (s.wakeupSlot k chan).lock = s.lock := by
  unfold wakeupSlot
  split <;> rfl

@[simp] theorem wakeupSlot_parent (chan : Option Chan) :
    (s.wakeupSlot k chan).parent q = s.parent q := by
  unfold wakeupSlot
  split
  · exact setProc_parent_eq s k q rfl
  · rfl

@[simp] theorem killSlot_parent : (s.killSlot k).parent q = s.parent q :=
  setProc_parent_eq s k q rfl

@[simp] theorem killSlot_state : (s.killSlot k).state q =
      if q = k ∧ s.state k = .SLEEPING then .RUNNABLE else s.state q := by
  unfold killSlot
  rw [setProc_state]
  by_cases hq : q = k
  · simp [hq, state]
  · simp [hq]

@[simp] theorem dispatch_path :
    (s.dispatch p).path q = if q = p then (s.path p).resume else s.path q := goto_path _ p q _

@[simp] theorem dispatch_state :
    (s.dispatch p).state q = if q = p then .RUNNING else s.state q := setProc_state s p q _

@[simp] theorem dispatch_parent : (s.dispatch p).parent q = s.parent q :=
  setProc_parent_eq s p q rfl

@[simp] theorem zombie_path (status : Int) :
    (s.zombie p status).path q = if q = p then .exitSched else s.path q := goto_path _ p q _

@[simp] theorem zombie_state (status : Int) :
    (s.zombie p status).state q = if q = p then .ZOMBIE else s.state q := setProc_state s p q _

@[simp] theorem zombie_lock (status : Int) :
    (s.zombie p status).lock q = if q = p then some p else s.lock q := setLock_lock _ p q _

@[simp] theorem zombie_parent (status : Int) : (s.zombie p status).parent q = s.parent q :=
  setProc_parent_eq s p q rfl

@[simp] theorem reap_path (addr : Bool) :
    (s.reap p c addr).path q = if q = p then .user else if q = c then .dead else s.path q := by
  show ((s.freeproc c).goto p .user).path q = _
  rw [goto_path, freeproc_path]

@[simp] theorem reap_state (addr : Bool) :
    (s.reap p c addr).state q = if q = c then .UNUSED else s.state q := freeproc_state s c q

@[simp] theorem reap_parent (addr : Bool) :
    (s.reap p c addr).parent q = if q = c then none else s.parent q := freeproc_parent s c q

end Fields

end State

/-! ## §3. The steps. -/

inductive Move (s : State) (p : Slot) : Path → Path → Prop
  | fork : Move s p .user (.forkScan 0)
  /-- The slot is taken: next one. -/
  | forkSkip {i : Slot} (hl : s.lock i = none) (hs : s.state i ≠ .UNUSED) :
    Move s p (.forkScan i) (.forkScan (i + 1))
  | forkNone : Move s p (.forkScan NPROC) .user
  /-- `exit` panics in initproc. -/
  | exit {status : Int} (hi : s.initproc ≠ some p) : Move s p .user (.exit status)
  | reparentSkip {status : Int} {i : Slot} (hp : s.parent i ≠ some p) :
    Move s p (.reparent status i) (.reparent status (i + 1))
  | reparentNext {status : Int} {i : Slot} :
    Move s p (.reparentWake status i NPROC) (.reparent status (i + 1))
  | reparentDone {status : Int} : Move s p (.reparent status NPROC) (.exitWake status 0)
  | wait {addr : Bool} : Move s p .user (.wait addr)
  | waitSkip {addr havekids : Bool} {i : Slot} (hp : s.parent i ≠ some p) :
    Move s p (.waitScan addr i havekids) (.waitScan addr (i + 1) havekids)
  | waitBusy {addr havekids : Bool} {i : Slot} (hp : s.parent i = some p) (hl : s.lock i = none)
    (hs : s.state i ≠ .ZOMBIE) :
    Move s p (.waitScan addr i havekids) (.waitScan addr (i + 1) true)
  /-- There are children and the process is not killed. -/
  | waitSleep {addr : Bool} (hl : s.lock p = none) (hk : (s.proc p).killed = false) :
    Move s p (.waitScan addr NPROC true) (.waitSleep addr)

/-- The first steps under `wait_lock`. -/
inductive Enter : Path → Path → Prop
  | exit {status : Int} : Enter (.exit status) (.reparent status 0)
  | wait {addr : Bool} : Enter (.wait addr) (.waitScan addr 0 false)

/-- Where `wait` returns -1, releasing `wait_lock`. -/
inductive Fails (s : State) (p : Slot) : Path → Prop
  | fault {i : Slot} {havekids : Bool} (hp : s.parent i = some p) (hl : s.lock i = none)
    (hz : s.state i = .ZOMBIE) : Fails s p (.waitScan true i havekids)
  | noKids {addr : Bool} : Fails s p (.waitScan addr NPROC false)
  | killed {addr : Bool} (hl : s.lock p = none) (hk : (s.proc p).killed = true) :
    Fails s p (.waitScan addr NPROC true)

/-- The iterations of `wakeup` in `exit`: the slot, the channel and where the loop goes on. -/
inductive Wakes (s : State) (p : Slot) : Path → Slot → Option Chan → Path → Prop
  | init {status : Int} {i : Nat} {k : Slot} :
    Wakes s p (.reparentWake status i k) k (s.initproc.map .proc)
      (.reparentWake status i (k + 1))
  | parent {status : Int} {k : Slot} :
    Wakes s p (.exitWake status k) k ((s.parent p).map .proc) (.exitWake status (k + 1))

inductive Step : State → State → Prop
  | userinit {s : State} {p : Slot} (hi : s.initproc = none) (hu : s.state p = .UNUSED)
    (hfirst : ∀ j < p, s.state j ≠ .UNUSED) :
    Step s (s.userinit p)
  | dispatch {s : State} {p : Slot} (hr : s.state p = .RUNNABLE) (hl : s.lock p = none) :
    Step s (s.dispatch p)
  | yield {s : State} {p : Slot} (hr : s.state p = .RUNNING) (hl : s.lock p = none)
    (hpre : (s.path p).preemptible = true) :
    Step s (s.setProc p { s.proc p with state := .RUNNABLE })
  | kill {s : State} {q : Slot} (hl : s.lock q = none) : Step s (s.killSlot q)
  | move {s : State} {p : Slot} {a b : Path} (hr : s.state p = .RUNNING)
    (hp : s.path p = a) (h : Move s p a b) : Step s (s.goto p b)
  | forkAlloc {s : State} {p np : Slot} (hr : s.state p = .RUNNING)
    (hp : s.path p = .forkScan np) (hl : s.lock np = none) (hu : s.state np = .UNUSED) :
    Step s (((s.allocproc np (s.born p)).setLock np (some p)).goto p (.forkCopy np))
  /-- An allocation failed: `freeproc(np)`, -1. -/
  | forkFail {s : State} {p np : Slot} (hr : s.state p = .RUNNING)
    (hp : s.path p = .forkCopy np) :
    Step s (((s.freeproc np).setLock np none).goto p .user)
  | forkCopied {s : State} {p np : Slot} (hr : s.state p = .RUNNING)
    (hp : s.path p = .forkCopy np) (trapframe : Pa) (pagetable : Pagetable) :
    Step s (((s.setProc np { s.proc np with
      sz := (s.proc p).sz, trapframe := some trapframe, pagetable := some pagetable }).setLock np
        none).goto p (.forkLink np))
  | forkLink {s : State} {p np : Slot} (hr : s.state p = .RUNNING)
    (hp : s.path p = .forkLink np) (hw : s.waitLock = none) :
    Step s ((s.setProc np { s.proc np with parent := some p }).goto p (.forkRun np))
  | forkRun {s : State} {p np : Slot} (hr : s.state p = .RUNNING)
    (hp : s.path p = .forkRun np) (hl : s.lock np = none) :
    Step s ((s.setProc np { s.proc np with state := .RUNNABLE }).goto p .user)
  | enter {s : State} {p : Slot} {a b : Path} (hr : s.state p = .RUNNING)
    (hp : s.path p = a) (h : Enter a b) (hw : s.waitLock = none) :
    Step s ((s.setWaitLock (some p)).goto p b)
  | reparent {s : State} {p i : Slot} {status : Int} (hr : s.state p = .RUNNING)
    (hp : s.path p = .reparent status i) (hc : s.parent i = some p) :
    Step s ((s.setProc i { s.proc i with parent := s.initproc }).goto p (.reparentWake status i 0))
  | wakeup {s : State} {p k : Slot} {chan : Option Chan} {a b : Path}
    (hr : s.state p = .RUNNING) (hp : s.path p = a) (h : Wakes s p a k chan b)
    (hk : k ≠ p) (hl : s.lock k = none) : Step s ((s.wakeupSlot k chan).goto p b)
  | wakeupSelf {s : State} {p : Slot} {chan : Option Chan} {a b : Path}
    (hr : s.state p = .RUNNING) (hp : s.path p = a) (h : Wakes s p a p chan b) :
    Step s (s.goto p b)
  | zombie {s : State} {p : Slot} {status : Int} (hr : s.state p = .RUNNING)
    (hp : s.path p = .exitWake status NPROC) (hl : s.lock p = none) : Step s (s.zombie p status)
  | exitSched {s : State} {p : Slot} (hp : s.path p = .exitSched) :
    Step s ((s.setLock p none).goto p .dead)
  | waitFails {s : State} {p : Slot} {a : Path} (hr : s.state p = .RUNNING)
    (hp : s.path p = a) (h : Fails s p a) : Step s ((s.setWaitLock none).goto p .user)
  | waitReap {s : State} {p c : Slot} {addr havekids : Bool} (hr : s.state p = .RUNNING)
    (hp : s.path p = .waitScan addr c havekids) (hc : s.parent c = some p)
    (hl : s.lock c = none) (hz : s.state c = .ZOMBIE) : Step s (s.reap p c addr)
  | waitSleep {s : State} {p : Slot} {addr : Bool} (hr : s.state p = .RUNNING)
    (hp : s.path p = .waitSleep addr) (hl : s.lock p = none) :
    Step s (((s.setWaitLock none).setLock p (some p)).goto p (.waitSched addr))
  | waitSched {s : State} {p : Slot} {addr : Bool} (hr : s.state p = .RUNNING)
    (hp : s.path p = .waitSched addr) :
    Step s (((s.setProc p { s.proc p with chan := some (.proc p), state := .SLEEPING }).setLock p
      none).goto p (.asleep addr))

def State.init : State :=
  { proc := fun _ => Proc.init, initproc := none, nextpid := 1, waitLock := none
    lock := fun _ => none, path := fun _ => .dead, born := fun _ => 0, nextBorn := 0
    forker := fun _ => 0, exits := [], waits := [] }

abbrev Run : State → Prop := Reachable (· = State.init) Step

end Xv6.Lifecycle
