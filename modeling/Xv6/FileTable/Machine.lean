/-
  Xv6.FileTable.Machine — the open files of all processes (file.c, pipe.c, sysfile.c,
  and what fork and exit of proc.c do to files).

  A critical section of ftable.lock, of a pipe's lock or of kmem.lock is one step, and so is
  an access of a process to its own descriptors.  A process has `ops` to do before its `call`
  goes on: what is left of fileclose, and the undoing of a call that has failed.
-/
import Xv6.Fs.Files
import Xv6.Lib.Count
import Xv6.Lib.Run

namespace Xv6.FileTable

open Lib Function
open Fs (NFILE NOFILE NINODE NDEV FdType Dinode T_DEVICE)

/-! ## §1. The state. -/

structure File extends Fs.File where
  pipe : Option Nat

def File.zero : File := { Fs.File.zero with pipe := none }

structure Pipe where
  readopen : Bool
  writeopen : Bool
  deriving DecidableEq

/-- What a process has to do next, whatever call it is in. -/
inductive Op where
  | fileclose (f : Fin NFILE)
  | pipeclose (pi : Option Nat) (writable : Bool)
  | kfree (pi : Nat)
  | iput (ip : Option (Fin NINODE))
  | clear (fd : Fin NOFILE)
  deriving DecidableEq

/-- What sys_open has found: a locked inode, with a reference. -/
structure Opening where
  ip : Fin NINODE
  d : Dinode
  omode : UInt32
  deriving DecidableEq

inductive Call where
  | idle
  | openFile (o : Opening)
  | openFd (o : Opening) (f : Fin NFILE)
  | dupFd (f : Fin NFILE)
  | dupRef (f : Fin NFILE) (fd : Fin NOFILE)
  | pipeFile0
  | pipeFile1 (f0 : Fin NFILE)
  | pipeKalloc (f0 f1 : Fin NFILE)
  | pipeFd0 (rf wf : Fin NFILE)
  | pipeFd1 (rf wf : Fin NFILE) (fd0 : Fin NOFILE)
  | pipeCopyout (rf wf : Fin NFILE) (fd0 fd1 : Fin NOFILE)
  | forkCopy (np : Slot)
  | forkFd (np : Slot) (i : Nat)
  | forkStore (np : Slot) (i : Fin NOFILE) (f : Fin NFILE)
  | exitFd (i : Nat)
  deriving DecidableEq

inductive Status where
  | unused | used | live | zombie
  deriving DecidableEq

structure Proc where
  status : Status
  ofile : Fin NOFILE → Option (Fin NFILE)
  ops : List Op
  call : Call

structure State where
  file : Fin NFILE → File
  proc : Slot → Proc
  pipe : Nat → Option Pipe
  irefs : Fin NINODE → Int

def Proc.unused : Proc := { status := .unused, ofile := fun _ => none, ops := [], call := .idle }

def State.start (init : Slot) : State where
  file := fun _ => .zero
  proc := update (fun _ => .unused) init { Proc.unused with status := .live }
  pipe := fun _ => none
  irefs := fun _ => 0

/-- The panics of file.c; a release of what is not allocated; a null pointer. -/
inductive Panic where
  | fileclose | filedup | pipeclose | kfree | iput | null
  deriving DecidableEq

/-! ## §2. The functions. -/

def State.filealloc (s : State) : Option (Fin NFILE) :=
  (List.finRange NFILE).find? fun f => (s.file f).ref = 0

def fdalloc (ofile : Fin NOFILE → Option (Fin NFILE)) : Option (Fin NOFILE) :=
  (List.finRange NOFILE).find? fun fd => ofile fd = none

def State.setProc (s : State) (p : Slot) (x : Proc) : State :=
  { s with proc := update s.proc p x }

def State.setFile (s : State) (f : Fin NFILE) (file : File) : State :=
  { s with file := update s.file f file }

def State.setPipe (s : State) (pi : Nat) (q : Option Pipe) : State :=
  { s with pipe := update s.pipe pi q }

def State.setIrefs (s : State) (ip : Fin NINODE) (n : Int) : State :=
  { s with irefs := update s.irefs ip n }

def File.setRef (file : File) (n : Int) : File := { file with ref := n }

def File.closed (file : File) : File := { file with ref := 0, type := .FD_NONE }

/-- What fileclose does after the last reference is gone. -/
def File.release (ff : File) : List Op :=
  match ff.type with
  | .FD_PIPE => [.pipeclose ff.pipe ff.writable]
  | .FD_INODE | .FD_DEVICE => [.iput ff.ip]
  | .FD_NONE => []

def File.opened (file : File) (o : Opening) : File :=
  { file.toFile.opened o.ip o.d o.omode with pipe := file.pipe }

def File.pipeEnd (file : File) (pi : Nat) (write : Bool) : File :=
  { file with type := .FD_PIPE, readable := !write, writable := write, pipe := some pi }

def Pipe.close (q : Pipe) (writable : Bool) : Pipe :=
  if writable then { q with writeopen := false } else { q with readopen := false }

def Pipe.isClosed (q : Pipe) : Bool := !q.readopen && !q.writeopen

section Steps

variable (s : State) (p : Slot)

def State.op (rest : List Op) : Op → Except Panic State
  | .fileclose f =>
    let ff := s.file f
    if ff.ref < 1 then .error .fileclose
    else if ff.ref - 1 > 0 then
      .ok ((s.setFile f (ff.setRef (ff.ref - 1))).setProc p { s.proc p with ops := rest })
    else .ok ((s.setFile f ff.closed).setProc p { s.proc p with ops := ff.release ++ rest })
  | .pipeclose none _ => .error .null
  | .pipeclose (some pi) writable =>
    match s.pipe pi with
    | none => .error .pipeclose
    | some q =>
      let ops := if (q.close writable).isClosed then .kfree pi :: rest else rest
      .ok ((s.setPipe pi (some (q.close writable))).setProc p { s.proc p with ops := ops })
  | .kfree pi =>
    match s.pipe pi with
    | none => .error .kfree
    | some _ => .ok ((s.setPipe pi none).setProc p { s.proc p with ops := rest })
  | .iput none => .error .null
  | .iput (some ip) =>
    if s.irefs ip < 1 then .error .iput
    else .ok ((s.setIrefs ip (s.irefs ip - 1)).setProc p { s.proc p with ops := rest })
  | .clear fd =>
    .ok (s.setProc p { s.proc p with
      ofile := update (s.proc p).ofile fd none, ops := rest })

def State.goto (call : Call) : State := s.setProc p { s.proc p with call := call }

def State.finish (ops : List Op) : State :=
  s.setProc p { s.proc p with ops := ops, call := .idle }

def State.install (fd : Fin NOFILE) (f : Fin NFILE) (call : Call) : State :=
  s.setProc p { s.proc p with ofile := update (s.proc p).ofile fd (some f), call := call }

def State.inherit (np : Slot) (i : Fin NOFILE) (f : Fin NFILE) : State :=
  s.setProc np { s.proc np with ofile := update (s.proc np).ofile i (some f) }

def State.filedup (f : Fin NFILE) : Except Panic State :=
  if (s.file f).ref < 1 then .error .filedup
  else .ok (s.setFile f ((s.file f).setRef ((s.file f).ref + 1)))

def State.take (f : Fin NFILE) : State := s.setFile f ((s.file f).setRef 1)

def State.setStatus (status : Status) : State :=
  s.setProc p { s.proc p with status := status }

/-- The two ends of a new pipe, which nobody else can see yet. -/
def State.initPipe (f0 f1 : Fin NFILE) (pi : Nat) : State :=
  let s := s.setPipe pi (some { readopen := true, writeopen := true })
  let s := s.setFile f0 ((s.file f0).pipeEnd pi false)
  s.setFile f1 ((s.file f1).pipeEnd pi true)

end Steps

/-- What kalloc and copyout or uvmcopy answer. -/
structure Answer where
  page : Option Nat
  ok : Bool

section Calls

variable (s : State) (p : Slot)

/-- A page that is free, if kalloc has one. -/
def State.kalloc (ans : Answer) : Option Nat := ans.page.filter fun pi => s.pipe pi = none

def State.next (ans : Answer) : Call → Except Panic State
  | .idle => .ok s
  | .openFile o =>
    if o.d.type = T_DEVICE ∧ (o.d.major < 0 ∨ o.d.major ≥ NDEV) then
      .ok (s.finish p [.iput (some o.ip)])
    else
      match s.filealloc with
      | none => .ok (s.finish p [.iput (some o.ip)])
      | some f => .ok ((s.take f).goto p (.openFd o f))
  | .openFd o f =>
    match fdalloc (s.proc p).ofile with
    | none => .ok (s.finish p [.fileclose f, .iput (some o.ip)])
    | some fd => .ok ((s.setFile f ((s.file f).opened o)).install p fd f .idle)
  | .dupFd f =>
    match fdalloc (s.proc p).ofile with
    | none => .ok (s.finish p [])
    | some fd => .ok (s.install p fd f (.dupRef f fd))
  | .dupRef f _ => (s.filedup f).map fun s => s.goto p .idle
  | .pipeFile0 =>
    match s.filealloc with
    | none => .ok (s.finish p [])
    | some f0 => .ok ((s.take f0).goto p (.pipeFile1 f0))
  | .pipeFile1 f0 =>
    match s.filealloc with
    | none => .ok (s.finish p [.fileclose f0])
    | some f1 => .ok ((s.take f1).goto p (.pipeKalloc f0 f1))
  | .pipeKalloc f0 f1 =>
    match s.kalloc ans with
    | none => .ok (s.finish p [.fileclose f0, .fileclose f1])
    | some pi => .ok ((s.initPipe f0 f1 pi).goto p (.pipeFd0 f0 f1))
  | .pipeFd0 rf wf =>
    match fdalloc (s.proc p).ofile with
    | none => .ok (s.finish p [.fileclose rf, .fileclose wf])
    | some fd0 => .ok (s.install p fd0 rf (.pipeFd1 rf wf fd0))
  | .pipeFd1 rf wf fd0 =>
    match fdalloc (s.proc p).ofile with
    | none => .ok (s.finish p [.clear fd0, .fileclose rf, .fileclose wf])
    | some fd1 => .ok (s.install p fd1 wf (.pipeCopyout rf wf fd0 fd1))
  | .pipeCopyout rf wf fd0 fd1 =>
    if ans.ok then .ok (s.finish p [])
    else .ok (s.finish p [.clear fd0, .clear fd1, .fileclose rf, .fileclose wf])
  | .forkCopy np =>
    if ans.ok then .ok (s.goto p (.forkFd np 0))
    else .ok ((s.setStatus np .unused).goto p .idle)
  | .forkFd np i =>
    if h : i < NOFILE then
      match (s.proc p).ofile ⟨i, h⟩ with
      | none => .ok (s.goto p (.forkFd np (i + 1)))
      | some f => (s.filedup f).map fun s => s.goto p (.forkStore np ⟨i, h⟩ f)
    else .ok ((s.setStatus np .live).goto p .idle)
  | .forkStore np i f =>
    .ok ((s.inherit np i f).goto p (.forkFd np (i + 1)))
  | .exitFd i =>
    if h : i < NOFILE then
      match (s.proc p).ofile ⟨i, h⟩ with
      | none => .ok (s.goto p (.exitFd (i + 1)))
      | some f => .ok (s.setProc p { s.proc p with
        ops := [.fileclose f, .clear ⟨i, h⟩], call := .exitFd (i + 1) })
    else .ok ((s.setStatus p .zombie).goto p .idle)

end Calls

/-! ## §3. Runs. -/

inductive Start where
  | opens (o : Opening)
  | close (fd : Fin NOFILE)
  | dup (fd : Fin NOFILE)
  | pipe
  | fork (np : Slot)
  | exit

def State.begin (s : State) (p : Slot) : Start → State
  | .opens o => (s.setIrefs o.ip (s.irefs o.ip + 1)).goto p (.openFile o)
  | .close fd =>
    match (s.proc p).ofile fd with
    | none => s
    | some f => s.finish p [.clear fd, .fileclose f]
  | .dup fd =>
    match (s.proc p).ofile fd with
    | none => s
    | some f => s.goto p (.dupFd f)
  | .pipe => s.goto p .pipeFile0
  | .fork np =>
    if (s.proc np).status = .unused then (s.setStatus np .used).goto p (.forkCopy np) else s
  | .exit => s.goto p (.exitFd 0)

inductive Act where
  | begin (p : Slot) (c : Start)
  | go (p : Slot) (ans : Answer)
  /-- wait of the parent frees a zombie. -/
  | reap (p : Slot)

def State.go (s : State) (p : Slot) (ans : Answer) : Except Panic State :=
  match (s.proc p).ops with
  | op :: rest => s.op p rest op
  | [] => s.next p ans (s.proc p).call

/-- Nothing happens if the step is not possible. -/
def State.step (s : State) : Act → Except Panic State
  | .begin p c =>
    match (s.proc p).status, (s.proc p).ops, (s.proc p).call with
    | .live, [], .idle => .ok (s.begin p c)
    | _, _, _ => .ok s
  | .go p ans => if (s.proc p).status = .live then s.go p ans else .ok s
  | .reap p => if (s.proc p).status = .zombie then .ok (s.setStatus p .unused) else .ok s

def FileRun : State → Prop :=
  Reachable (fun s => ∃ init, s = .start init) fun s s' => ∃ a, s.step a = .ok s'

/-! ## §4. What a step does. -/

/-- The process that fork is making. -/
def Call.child : Call → Option Slot
  | .forkCopy np | .forkFd np _ | .forkStore np _ _ => some np
  | _ => none

inductive Turn (x : Proc) : List Op → Call → Prop
  | close {fd f} (hc : x.call = .idle) (hf : x.ofile fd = some f) :
    Turn x [.clear fd, .fileclose f] .idle
  | dup {fd f} (hc : x.call = .idle) (hf : x.ofile fd = some f) : Turn x [] (.dupFd f)
  | pipe (hc : x.call = .idle) : Turn x [] .pipeFile0
  | exit (hc : x.call = .idle) : Turn x [] (.exitFd 0)
  | openNoFile {o} (hc : x.call = .openFile o) : Turn x [.iput (some o.ip)] .idle
  | openNoFd {o f} (hc : x.call = .openFd o f) : Turn x [.fileclose f, .iput (some o.ip)] .idle
  | dupNoFd {f} (hc : x.call = .dupFd f) : Turn x [] .idle
  | pipeNoFile0 (hc : x.call = .pipeFile0) : Turn x [] .idle
  | pipeNoFile1 {f0} (hc : x.call = .pipeFile1 f0) : Turn x [.fileclose f0] .idle
  | pipeNoPage {f0 f1} (hc : x.call = .pipeKalloc f0 f1) :
    Turn x [.fileclose f0, .fileclose f1] .idle
  | pipeNoFd0 {rf wf} (hc : x.call = .pipeFd0 rf wf) : Turn x [.fileclose rf, .fileclose wf] .idle
  | pipeNoFd1 {rf wf fd0} (hc : x.call = .pipeFd1 rf wf fd0) :
    Turn x [.clear fd0, .fileclose rf, .fileclose wf] .idle
  | pipeDone {rf wf fd0 fd1} (hc : x.call = .pipeCopyout rf wf fd0 fd1) : Turn x [] .idle
  | pipeNoCopy {rf wf fd0 fd1} (hc : x.call = .pipeCopyout rf wf fd0 fd1) :
    Turn x [.clear fd0, .clear fd1, .fileclose rf, .fileclose wf] .idle
  | forkCopied {np} (hc : x.call = .forkCopy np) : Turn x [] (.forkFd np 0)
  | forkSkip {np i} (hc : x.call = .forkFd np i) (h : i < NOFILE) (hf : x.ofile ⟨i, h⟩ = none) :
    Turn x [] (.forkFd np (i + 1))
  | exitSkip {i} (hc : x.call = .exitFd i) (h : i < NOFILE) (hf : x.ofile ⟨i, h⟩ = none) :
    Turn x [] (.exitFd (i + 1))
  | exitClose {i f} (hc : x.call = .exitFd i) (h : i < NOFILE) (hf : x.ofile ⟨i, h⟩ = some f) :
    Turn x [.fileclose f, .clear ⟨i, h⟩] (.exitFd (i + 1))

inductive Allocs (f : Fin NFILE) : Call → Call → Prop
  | opens {o} : Allocs f (.openFile o) (.openFd o f)
  | pipe0 : Allocs f .pipeFile0 (.pipeFile1 f)
  | pipe1 {f0} : Allocs f (.pipeFile1 f0) (.pipeKalloc f0 f)

inductive Installs (fd : Fin NOFILE) (f : Fin NFILE) : Call → Call → Prop
  | fd0 {wf} : Installs fd f (.pipeFd0 f wf) (.pipeFd1 f wf fd)
  | fd1 {rf fd0} : Installs fd f (.pipeFd1 rf f fd0) (.pipeCopyout rf f fd0 fd)

structure Runs (s : State) (p : Slot) (ops : List Op) (x : Proc) : Prop where
  proc : s.proc p = x
  live : x.status = .live
  ops : x.ops = ops

inductive Move (s : State) : State → Prop
  | stay : Move s s
  | turn {p x ops call} (hr : Runs s p [] x) (h : Turn x ops call) :
    Move s (s.setProc p { x with ops := ops, call := call })
  | opening {p x} (o : Opening) (hr : Runs s p [] x) (hc : x.call = .idle) :
    Move s ((s.setIrefs o.ip (s.irefs o.ip + 1)).setProc p { x with call := .openFile o })
  | dropped {p x f rest} (hr : Runs s p (.fileclose f :: rest) x) (href : 1 < (s.file f).ref) :
    Move s ((s.setFile f ((s.file f).setRef ((s.file f).ref - 1))).setProc p { x with ops := rest })
  | closed {p x f rest} (hr : Runs s p (.fileclose f :: rest) x) (href : (s.file f).ref = 1) :
    Move s ((s.setFile f (s.file f).closed).setProc p
      { x with ops := (s.file f).release ++ rest })
  | pipeclosed {p x pi w rest q} (hr : Runs s p (.pipeclose (some pi) w :: rest) x)
    (hq : s.pipe pi = some q) :
    Move s ((s.setPipe pi (some (q.close w))).setProc p
      { x with ops := if (q.close w).isClosed then .kfree pi :: rest else rest })
  | freed {p x pi rest} (hr : Runs s p (.kfree pi :: rest) x) :
    Move s ((s.setPipe pi none).setProc p { x with ops := rest })
  | iput {p x ip rest} (hr : Runs s p (.iput (some ip) :: rest) x) :
    Move s ((s.setIrefs ip (s.irefs ip - 1)).setProc p { x with ops := rest })
  | cleared {p x fd rest} (hr : Runs s p (.clear fd :: rest) x) :
    Move s (s.setProc p { x with ofile := update x.ofile fd none, ops := rest })
  | alloc {p x f call} (hr : Runs s p [] x) (hf : (s.file f).ref = 0) (hc : Allocs f x.call call) :
    Move s ((s.take f).setProc p { x with call := call })
  | opened {p x o f fd} (hr : Runs s p [] x) (hc : x.call = .openFd o f) (hfd : x.ofile fd = none) :
    Move s ((s.setFile f ((s.file f).opened o)).setProc p
      { x with ofile := update x.ofile fd (some f), call := .idle })
  | reserved {p x f fd} (hr : Runs s p [] x) (hc : x.call = .dupFd f) (hfd : x.ofile fd = none) :
    Move s (s.setProc p
      { x with ofile := update x.ofile fd (some f), call := .dupRef f fd })
  | duped {p x f fd} (hr : Runs s p [] x) (hc : x.call = .dupRef f fd) :
    Move s ((s.setFile f ((s.file f).setRef ((s.file f).ref + 1))).setProc p
      { x with call := .idle })
  | installed {p x f fd call} (hr : Runs s p [] x) (hc : Installs fd f x.call call)
    (hfd : x.ofile fd = none) :
    Move s (s.setProc p { x with ofile := update x.ofile fd (some f), call := call })
  | piped {p x f0 f1 pi} (hr : Runs s p [] x) (hc : x.call = .pipeKalloc f0 f1)
    (hpi : s.pipe pi = none) :
    Move s ((s.initPipe f0 f1 pi).setProc p { x with call := .pipeFd0 f0 f1 })
  | forking {p x np y} (hr : Runs s p [] x) (hc : x.call = .idle) (hy : s.proc np = y)
    (hnp : y.status = .unused) :
    Move s ((s.setProc np { y with status := .used }).setProc p { x with call := .forkCopy np })
  | unforked {p x np y} (hr : Runs s p [] x) (hc : x.call = .forkCopy np) (hy : s.proc np = y) :
    Move s ((s.setProc np { y with status := .unused }).setProc p { x with call := .idle })
  | forkDup {p x np i f} (hr : Runs s p [] x) (h : i < NOFILE) (hc : x.call = .forkFd np i)
    (hf : x.ofile ⟨i, h⟩ = some f) :
    Move s ((s.setFile f ((s.file f).setRef ((s.file f).ref + 1))).setProc p
      { x with call := .forkStore np ⟨i, h⟩ f })
  | forkStored {p x np y i f} (hr : Runs s p [] x) (hc : x.call = .forkStore np i f)
    (hy : s.proc np = y) :
    Move s ((s.setProc np { y with ofile := update y.ofile i (some f) }).setProc p
      { x with call := .forkFd np (i + 1) })
  | forked {p x np y i} (hr : Runs s p [] x) (h : ¬ i < NOFILE) (hc : x.call = .forkFd np i)
    (hy : s.proc np = y) :
    Move s ((s.setProc np { y with status := .live }).setProc p { x with call := .idle })
  | exited {p x i} (hr : Runs s p [] x) (h : ¬ i < NOFILE) (hc : x.call = .exitFd i) :
    Move s (s.setProc p { x with status := .zombie, call := .idle })
  | reaped {p x} (hx : s.proc p = x) (hz : x.status = .zombie) :
    Move s (s.setProc p { x with status := .unused })

section Moves

variable {s s' : State} {p : Slot}

theorem move_of_op {op : Op} {rest : List Op} (hlive : (s.proc p).status = .live)
    (hops : (s.proc p).ops = op :: rest) (h : s.op p rest op = .ok s') : Move s s' := by
  have hr : Runs s p (op :: rest) (s.proc p) := ⟨rfl, hlive, hops⟩
  cases op with
  | fileclose f =>
    simp only [State.op] at h
    split at h
    · cases h
    · split at h
      · next href =>
        cases h
        exact .dropped hr (by omega)
      · next href =>
        cases h
        exact .closed hr (by omega)
  | pipeclose pi w =>
    cases pi with
    | none => cases h
    | some pi =>
      simp only [State.op] at h
      split at h
      · cases h
      · next q hq =>
        cases h
        exact .pipeclosed hr hq
  | kfree pi =>
    simp only [State.op] at h
    split at h
    · cases h
    · cases h
      exact .freed hr
  | iput ip =>
    cases ip with
    | none => cases h
    | some ip =>
      simp only [State.op] at h
      split at h
      · cases h
      · cases h
        exact .iput hr
  | clear fd =>
    cases h
    exact .cleared hr

theorem filealloc_eq_some {f : Fin NFILE} (h : s.filealloc = some f) : (s.file f).ref = 0 := by
  simpa using List.find?_some h

theorem fdalloc_eq_some {ofile : Fin NOFILE → Option (Fin NFILE)} {fd : Fin NOFILE}
    (h : fdalloc ofile = some fd) : ofile fd = none := by
  simpa using List.find?_some h

theorem filedup_map_eq_ok {f : Fin NFILE} {g : State → State} (h : (s.filedup f).map g = .ok s') :
    s' = g (s.setFile f ((s.file f).setRef ((s.file f).ref + 1))) := by
  unfold State.filedup at h
  split at h
  · cases h
  · cases h
    rfl

def ChildrenUsed (s : State) : Prop :=
  ∀ p np, (s.proc p).call.child = some np → (s.proc np).status = .used

theorem ChildrenUsed.ne (h : ChildrenUsed s) {np : Slot} (hc : (s.proc p).call.child = some np)
    (hlive : (s.proc p).status = .live) : p ≠ np := by
  intro he
  have hused := h p np hc
  rw [← he, hlive] at hused
  cases hused

theorem move_of_next (hchild : ChildrenUsed s) {ans : Answer} (hlive : (s.proc p).status = .live)
    (hops : (s.proc p).ops = []) (h : s.next p ans (s.proc p).call = .ok s') : Move s s' := by
  have hr : Runs s p [] (s.proc p) := ⟨rfl, hlive, hops⟩
  have hne : ∀ {np}, (s.proc p).call.child = some np → p ≠ np := fun hc => hchild.ne hc hlive
  -- a step that leaves ops as they are
  have hgoto : ∀ call, { s.proc p with ops := [], call := call } = { s.proc p with call := call } := by
    intro call
    rw [← hops]
  cases hc : (s.proc p).call with
  | idle =>
    rw [hc] at h
    cases h
    exact .stay
  | openFile o =>
    rw [hc] at h
    simp only [State.next] at h
    split at h
    · cases h
      exact .turn hr (.openNoFile hc)
    · split at h
      · cases h
        exact .turn hr (.openNoFile hc)
      · next f hf =>
        cases h
        exact .alloc hr (filealloc_eq_some hf) (hc ▸ .opens)
  | openFd o f =>
    rw [hc] at h
    simp only [State.next] at h
    split at h
    · cases h
      exact .turn hr (.openNoFd hc)
    · next fd hfd =>
      cases h
      exact .opened hr hc (fdalloc_eq_some hfd)
  | dupFd f =>
    rw [hc] at h
    simp only [State.next] at h
    split at h
    · cases h
      exact .turn hr (.dupNoFd hc)
    · next fd hfd =>
      cases h
      exact .reserved hr hc (fdalloc_eq_some hfd)
  | dupRef f fd =>
    rw [hc] at h
    rw [filedup_map_eq_ok h]
    exact .duped hr hc
  | pipeFile0 =>
    rw [hc] at h
    simp only [State.next] at h
    split at h
    · cases h
      exact .turn hr (.pipeNoFile0 hc)
    · next f hf =>
      cases h
      exact .alloc hr (filealloc_eq_some hf) (hc ▸ .pipe0)
  | pipeFile1 f0 =>
    rw [hc] at h
    simp only [State.next] at h
    split at h
    · cases h
      exact .turn hr (.pipeNoFile1 hc)
    · next f hf =>
      cases h
      exact .alloc hr (filealloc_eq_some hf) (hc ▸ .pipe1)
  | pipeKalloc f0 f1 =>
    rw [hc] at h
    simp only [State.next] at h
    split at h
    · cases h
      exact .turn hr (.pipeNoPage hc)
    · next pi hpi =>
      cases h
      exact .piped hr hc (by simpa using (Option.filter_eq_some_iff.mp hpi).2)
  | pipeFd0 rf wf =>
    rw [hc] at h
    simp only [State.next] at h
    split at h
    · cases h
      exact .turn hr (.pipeNoFd0 hc)
    · next fd hfd =>
      cases h
      exact .installed hr (hc ▸ .fd0) (fdalloc_eq_some hfd)
  | pipeFd1 rf wf fd0 =>
    rw [hc] at h
    simp only [State.next] at h
    split at h
    · cases h
      exact .turn hr (.pipeNoFd1 hc)
    · next fd hfd =>
      cases h
      exact .installed hr (hc ▸ .fd1) (fdalloc_eq_some hfd)
  | pipeCopyout rf wf fd0 fd1 =>
    rw [hc] at h
    simp only [State.next] at h
    split at h
    · cases h
      exact .turn hr (.pipeDone hc)
    · cases h
      exact .turn hr (.pipeNoCopy hc)
  | forkCopy np =>
    rw [hc] at h
    simp only [State.next] at h
    split at h
    · cases h
      rw [State.goto, ← hgoto]
      exact .turn hr (.forkCopied hc)
    · cases h
      have hp : (s.setStatus np .unused).proc p = s.proc p :=
        update_of_ne (hne (by rw [hc]; rfl)) _ _
      rw [State.goto, hp]
      exact .unforked hr hc rfl
  | forkFd np i =>
    rw [hc] at h
    simp only [State.next] at h
    split at h
    · next hi =>
      split at h
      · next hf =>
        cases h
        rw [State.goto, ← hgoto]
        exact .turn hr (.forkSkip hc hi hf)
      · next f hf =>
        rw [filedup_map_eq_ok h]
        exact .forkDup hr hi hc hf
    · next hi =>
      cases h
      have hp : (s.setStatus np .live).proc p = s.proc p := update_of_ne (hne (by rw [hc]; rfl)) _ _
      rw [State.goto, hp]
      exact .forked hr hi hc rfl
  | forkStore np i f =>
    rw [hc] at h
    cases h
    have hp : (s.inherit np i f).proc p = s.proc p := update_of_ne (hne (by rw [hc]; rfl)) _ _
    rw [State.goto, hp]
    exact .forkStored hr hc rfl
  | exitFd i =>
    rw [hc] at h
    simp only [State.next] at h
    split at h
    · next hi =>
      split at h
      · next hf =>
        cases h
        rw [State.goto, ← hgoto]
        exact .turn hr (.exitSkip hc hi hf)
      · next f hf =>
        cases h
        exact .turn hr (.exitClose hc hi hf)
    · next hi =>
      cases h
      have heq : (s.setStatus p .zombie).goto p .idle =
          s.setProc p { s.proc p with status := .zombie, call := .idle } := by
        simp [State.goto, State.setStatus, State.setProc]
      rw [heq]
      exact .exited hr hi hc

theorem move_of_begin (hlive : (s.proc p).status = .live) (hops : (s.proc p).ops = [])
    (hc : (s.proc p).call = .idle) (c : Start) : Move s (s.begin p c) := by
  have hr : Runs s p [] (s.proc p) := ⟨rfl, hlive, hops⟩
  have hgoto : ∀ call, { s.proc p with ops := [], call := call } = { s.proc p with call := call } := by
    intro call
    rw [← hops]
  cases c with
  | opens o => exact .opening o hr hc
  | close fd =>
    simp only [State.begin]
    split
    · exact .stay
    · next f hf => exact .turn hr (.close hc hf)
  | dup fd =>
    simp only [State.begin]
    split
    · exact .stay
    · next f hf =>
      rw [State.goto, ← hgoto]
      exact .turn hr (.dup hc hf)
  | pipe =>
    rw [State.begin, State.goto, ← hgoto]
    exact .turn hr (.pipe hc)
  | fork np =>
    simp only [State.begin]
    split
    · next hnp =>
      have hne : p ≠ np := by
        rintro rfl
        rw [hlive] at hnp
        cases hnp
      have hp : (s.setStatus np .used).proc p = s.proc p := update_of_ne hne _ _
      rw [State.goto, hp]
      exact .forking hr hc rfl hnp
    · exact .stay
  | exit =>
    rw [State.begin, State.goto, ← hgoto]
    exact .turn hr (.exit hc)

/-- **Every step is one of these.** -/
theorem move_of_step (hchild : ChildrenUsed s) {a : Act} (h : s.step a = .ok s') : Move s s' := by
  cases a with
  | begin p c =>
    simp only [State.step] at h
    split at h
    · next hlive hops hc =>
      cases h
      exact move_of_begin hlive hops hc c
    · cases h
      exact .stay
  | go p ans =>
    simp only [State.step] at h
    split at h
    · next hlive =>
      unfold State.go at h
      split at h
      · next op rest hops => exact move_of_op hlive hops h
      · next hops => exact move_of_next hchild hlive hops h
    · cases h
      exact .stay
  | reap p =>
    simp only [State.step] at h
    split at h
    · next hz =>
      cases h
      exact .reaped rfl hz
    · cases h
      exact .stay

end Moves

end Xv6.FileTable
