/-
  Xv6.Fs.Files — open files, working directories and the system calls on them (file.c,
  sysfile.c, and what fork and exit of proc.c do to files).

  A call runs from its start to its end, with no commit in progress.
-/
import Xv6.Fs.Directory
import Xv6.Log.Defs
import Xv6.Proc.Types

namespace Xv6.Fs

open Lib

abbrev NFILE : Nat := 100

instance : NeZero NFILE := ⟨by decide⟩

abbrev NOFILE : Nat := 16

instance : NeZero NOFILE := ⟨by decide⟩

def NDEV : Int16 := 10

def O_RDONLY : UInt32 := 0x000
def O_WRONLY : UInt32 := 0x001
def O_RDWR : UInt32 := 0x002
def O_CREATE : UInt32 := 0x200
def O_TRUNC : UInt32 := 0x400

/-! ## §1. The state. -/

inductive FdType where
  | FD_NONE | FD_PIPE | FD_INODE | FD_DEVICE
  deriving DecidableEq

/-- `struct file`; the pipe of an FD_PIPE is left out. -/
structure File where
  type : FdType
  ref : Int
  readable : Bool
  writable : Bool
  ip : Option (Fin NINODE)
  off : UInt32
  major : Int16
  deriving DecidableEq

def File.zero : File :=
  { type := .FD_NONE, ref := 0, readable := false, writable := false, ip := none, off := 0,
    major := 0 }

inductive Table where
  | ftable | kftable
  deriving DecidableEq

/-- `_internal_report_list`; a report is the array of its bytes. -/
structure ReportList where
  reports : Nat → Bytes
  count : Int32
  writeIndex : Nat

structure Sys where
  fs : State
  outstanding : Int
  file : Table → Fin NFILE → File
  cwd : Slot → Option (Fin NINODE)
  ofile : Slot → Fin NOFILE → Option (Fin NFILE)
  reportList : ReportList

abbrev SysM := Comp Sys Stop

namespace Sys

def setFs (s : Sys) (fs : State) : Sys := { s with fs := fs }

def setOutstanding (s : Sys) (n : Int) : Sys := { s with outstanding := n }

def setFile (s : Sys) (t : Table) (f : Fin NFILE) (file : File) : Sys :=
  { s with file := fun u => if u = t then put (s.file t) f file else s.file u }

def setCwd (s : Sys) (p : Slot) (cwd : Option (Fin NINODE)) : Sys :=
  { s with cwd := put s.cwd p cwd }

def setOfile (s : Sys) (p : Slot) (fd : Fin NOFILE) (f : Option (Fin NFILE)) : Sys :=
  { s with ofile := put s.ofile p (put (s.ofile p) fd f) }

def log (s : Sys) (sb : Superblock) : LogLayer.Log :=
  { start := sb.logstart, size := sb.nlog, outstanding := s.outstanding, committing := false,
    lh := s.fs.lh }

end Sys

def liftFs {α : Type} (m : FsM α) : SysM α := Comp.zoom Sys.fs (fun v s => s.setFs v) m

def modifyFile (t : Table) (f : Fin NFILE) (g : File → File) : SysM Unit :=
  modify fun s => s.setFile t f (g (s.file t f))

section Functions

variable (sb : Superblock)

/-! ## §2. Transactions. -/

def beginOp : SysM Unit := do
  match LogLayer.beginOp ((← get).log sb) with
  | none => throw .hang
  | some log => modify fun s => s.setOutstanding log.outstanding

/-- `commit()` included: it empties the log. -/
def endOp : SysM Unit := do
  match LogLayer.endOp ((← get).log sb) with
  | .error _ => throw (.panic "log.committing")
  | .ok (log, doCommit) =>
    modify fun s =>
      (s.setOutstanding log.outstanding).setFs
        { s.fs with lh := if doCommit then [] else s.fs.lh }

/-! ## §3. The file tables (file.c, kfile.c). -/

def allocIn (t : Table) : SysM (Option (Fin NFILE)) := do
  let s ← get
  match (List.finRange NFILE).find? fun f => (s.file t f).ref = 0 with
  | none => pure none
  | some f => do
    modifyFile t f fun file => { file with ref := 1 }
    pure (some f)

def filealloc : SysM (Option (Fin NFILE)) := allocIn .ftable

def filedup (f : Fin NFILE) : SysM Unit := do
  if ((← get).file .ftable f).ref < 1 then throw (.panic "filedup")
  else modifyFile .ftable f fun file => { file with ref := file.ref + 1 }

/-- `begin_op(); iput(ip); end_op();`. -/
def putInode (ip : Option (Fin NINODE)) : SysM Unit := do
  beginOp sb
  liftFs (deref ip >>= iput sb)
  endOp sb

/-- Close a file of the table `t`: decrement its count, close it at 0.
pipeclose changes nothing here. -/
def closeIn (t : Table) (f : Fin NFILE) : SysM Unit := do
  let ff := (← get).file t f
  if ff.ref < 1 then throw (.panic "fileclose")
  else if ff.ref - 1 > 0 then modifyFile t f fun file => { file with ref := file.ref - 1 }
  else do
    modifyFile t f fun file => { file with ref := 0, type := .FD_NONE }
    Comp.guarded (ff.type = .FD_INODE ∨ ff.type = .FD_DEVICE) (putInode sb ff.ip)

def fileclose (f : Fin NFILE) : SysM Unit := closeIn sb .ftable f

def fdalloc (p : Slot) (f : Fin NFILE) : SysM (Option (Fin NOFILE)) := do
  let s ← get
  match (List.finRange NOFILE).find? fun fd => s.ofile p fd = none with
  | none => pure none
  | some fd => do
    modify fun s => s.setOfile p fd (some f)
    pure (some fd)

/-! ## §4. System calls on paths (sysfile.c).

A path argument that argstr cannot fetch is `none`. -/

/-- The `else` branch of sys_open: an existing file, locked. -/
def openExisting (cwd : Option (Fin NINODE)) (path : List UInt8) (omode : UInt32) :
    FsM (Option (Fin NINODE)) := do
  match ← namei sb cwd path with
  | none => pure none
  | some ip => do
    ilock sb ip
    if ((← get).itable ip).copy.type = T_DIR ∧ omode ≠ O_RDONLY then do
      iunlockput sb ip
      pure none
    else pure (some ip)

def openInode (cwd : Option (Fin NINODE)) (path : List UInt8) (omode : UInt32) :
    FsM (Option (Fin NINODE)) :=
  if omode &&& O_CREATE ≠ 0 then create sb cwd path T_FILE 0 0
  else openExisting sb cwd path omode

/-- `filealloc` and `fdalloc`, or neither. -/
def openFile (p : Slot) : SysM (Option (Fin NFILE × Fin NOFILE)) := do
  match ← filealloc with
  | none => pure none
  | some f => do
    match ← fdalloc p f with
    | none => do
      fileclose sb f
      pure none
    | some fd => pure (some (f, fd))

def File.opened (file : File) (ip : Fin NINODE) (d : Dinode) (omode : UInt32) : File :=
  { file with
    type := if d.type = T_DEVICE then .FD_DEVICE else .FD_INODE
    major := if d.type = T_DEVICE then d.major else file.major
    off := if d.type = T_DEVICE then file.off else 0
    ip := some ip
    readable := decide (omode &&& O_WRONLY = 0)
    writable := decide (omode &&& O_WRONLY ≠ 0 ∨ omode &&& O_RDWR ≠ 0) }

def sysOpen (p : Slot) (path : Option (List UInt8)) (omode : UInt32) : SysM Int := do
  match path with
  | none => pure (-1)
  | some path => do
    beginOp sb
    match ← liftFs (openInode sb ((← get).cwd p) path omode) with
    | none => do
      endOp sb
      pure (-1)
    | some ip => do
      let d := ((← get).fs.itable ip).copy
      if d.type = T_DEVICE ∧ (d.major < 0 ∨ d.major ≥ NDEV) then do
        liftFs (iunlockput sb ip)
        endOp sb
        pure (-1)
      else do
        match ← openFile sb p with
        | none => do
          liftFs (iunlockput sb ip)
          endOp sb
          pure (-1)
        | some (f, fd) => do
          modifyFile .ftable f fun file => file.opened ip d omode
          liftFs (Comp.guarded (omode &&& O_TRUNC ≠ 0 ∧ d.type = T_FILE) (itrunc sb ip))
          liftFs (iunlock ip)
          endOp sb
          pure fd.val

def makeNode (p : Slot) (path : Option (List UInt8)) (type major minor : Int16) : SysM Int := do
  beginOp sb
  match path with
  | none => do
    endOp sb
    pure (-1)
  | some path => do
    match ← liftFs (create sb ((← get).cwd p) path type major minor) with
    | none => do
      endOp sb
      pure (-1)
    | some ip => do
      liftFs (iunlockput sb ip)
      endOp sb
      pure 0

def sysMkdir (p : Slot) (path : Option (List UInt8)) : SysM Int := makeNode sb p path T_DIR 0 0

def sysMknod (p : Slot) (path : Option (List UInt8)) (major minor : Int16) : SysM Int :=
  makeNode sb p path T_DEVICE major minor

def sysLink (p : Slot) (old new : Option (List UInt8)) : SysM Int := do
  match old, new with
  | some old, some new => do
    beginOp sb
    let r ← liftFs (link sb ((← get).cwd p) old new)
    endOp sb
    pure r
  | _, _ => pure (-1)

def sysUnlink (p : Slot) (path : Option (List UInt8)) : SysM Int := do
  match path with
  | none => pure (-1)
  | some path => do
    beginOp sb
    let r ← liftFs (unlink sb ((← get).cwd p) path)
    endOp sb
    pure r

def chdirTarget (cwd : Option (Fin NINODE)) (path : List UInt8) : FsM (Option (Fin NINODE)) := do
  match ← namei sb cwd path with
  | none => pure none
  | some ip => do
    ilock sb ip
    if ((← get).itable ip).copy.type ≠ T_DIR then do
      iunlockput sb ip
      pure none
    else do
      iunlock ip
      pure (some ip)

def sysChdir (p : Slot) (path : Option (List UInt8)) : SysM Int := do
  beginOp sb
  match path with
  | none => do
    endOp sb
    pure (-1)
  | some path => do
    match ← liftFs (chdirTarget sb ((← get).cwd p) path) with
    | none => do
      endOp sb
      pure (-1)
    | some ip => do
      liftFs (deref ((← get).cwd p) >>= iput sb)
      endOp sb
      modify fun s => s.setCwd p (some ip)
      pure 0

/-! ## §5. System calls on descriptors, fork and exit. -/

def argfd (p : Slot) (fd : Int) : SysM (Option (Fin NOFILE × Fin NFILE)) := do
  let s ← get
  if h : 0 ≤ fd ∧ fd < NOFILE then
    let i : Fin NOFILE := ⟨fd.toNat, by omega⟩
    pure ((s.ofile p i).map fun f => (i, f))
  else pure none

def sysClose (p : Slot) (fd : Int) : SysM Int := do
  match ← argfd p fd with
  | none => pure (-1)
  | some (i, f) => do
    modify fun s => s.setOfile p i none
    fileclose sb f
    pure 0

def sysDup (p : Slot) (fd : Int) : SysM Int := do
  match ← argfd p fd with
  | none => pure (-1)
  | some (_, f) => do
    match ← fdalloc p f with
    | none => pure (-1)
    | some fd => do
      filedup f
      pure fd.val

/-- The blocks that one transaction of filewrite writes. -/
def writeMax : Nat := ((LogLayer.MAXOPBLOCKS - 1 - 1 - 2) / 2) * BSIZE

/-- `ok` says where copyout succeeds, `other` is the result of piperead or of the device. -/
def fileread (f : Fin NFILE) (n : Int32) (ok : Nat → Nat → Bool) (other : Int) : SysM Int := do
  let file := (← get).file .ftable f
  if file.readable = false then pure (-1)
  else
    match file.type with
    | .FD_NONE => throw (.panic "fileread")
    | .FD_PIPE => pure other
    | .FD_DEVICE => pure (if file.major < 0 ∨ file.major ≥ NDEV then -1 else other)
    | .FD_INODE => do
      let r ← liftFs (do
        let e ← deref file.ip
        ilock sb e
        readi sb e file.off n.toUInt32 ok)
      let len := (r.getD []).length
      modifyFile .ftable f fun file => { file with off := file.off + .ofNat len }
      liftFs (deref file.ip >>= iunlock)
      pure (if r = none then -1 else len)

/-- One transaction of filewrite. -/
def writeChunk (f : Fin NFILE) (src : Nat → Option UInt8) (i n1 : Nat) : SysM Int := do
  beginOp sb
  let file := (← get).file .ftable f
  let r ← liftFs (do
    let e ← deref file.ip
    ilock sb e
    writei sb e (fun k => src (i + k)) file.off (.ofNat n1))
  Comp.guarded (0 < r) (modifyFile .ftable f fun file =>
    { file with off := file.off + .ofNat r.toNat })
  liftFs (deref file.ip >>= iunlock)
  endOp sb
  pure r

/-- The loop of filewrite: the number of bytes written. -/
def writeLoop (f : Fin NFILE) (src : Nat → Option UInt8) (n : Nat) : Nat → Nat → SysM Nat
  | 0, i => pure i
  | fuel + 1, i =>
    if i < n then do
      let n1 := min (n - i) writeMax
      let r ← writeChunk sb f src i n1
      if r ≠ n1 then pure i else writeLoop f src n fuel (i + n1)
    else pure i

/-- filewrite of `n` bytes of user memory; `other` is the result of pipewrite
or of the device. -/
def filewrite (f : Fin NFILE) (src : Nat → Option UInt8) (n : Int32) (other : Int) :
    SysM Int := do
  let file := (← get).file .ftable f
  if file.writable = false then pure (-1)
  else
    match file.type with
    | .FD_NONE => throw (.panic "filewrite")
    | .FD_PIPE => pure other
    | .FD_DEVICE => pure (if file.major < 0 ∨ file.major ≥ NDEV then -1 else other)
    | .FD_INODE => do
      let i ← writeLoop sb f src n.toInt.toNat n.toInt.toNat 0
      pure (if (i : Int) = n.toInt then n.toInt else -1)

def filestat (f : Fin NFILE) (ok : Bool) : SysM Int := do
  let file := (← get).file .ftable f
  if file.type = .FD_INODE ∨ file.type = .FD_DEVICE then do
    liftFs (do
      let e ← deref file.ip
      ilock sb e
      iunlock e)
    pure (if ok then 0 else -1)
  else pure (-1)

def onFile (p : Slot) (fd : Int) (op : Fin NFILE → SysM Int) : SysM Int := do
  match ← argfd p fd with
  | none => pure (-1)
  | some (_, f) => op f

def sysRead (p : Slot) (fd : Int) (n : Int32) (ok : Nat → Nat → Bool) (other : Int) : SysM Int :=
  onFile p fd fun f => fileread sb f n ok other

def sysWrite (p : Slot) (fd : Int) (src : Nat → Option UInt8) (n : Int32) (other : Int) :
    SysM Int := onFile p fd fun f => filewrite sb f src n other

def sysFstat (p : Slot) (fd : Int) (ok : Bool) : SysM Int := onFile p fd fun f => filestat sb f ok

/-- The reads of exec, until one of them falls short. -/
def execReads (e : Fin NINODE) : List (UInt32 × UInt32) → FsM Bool
  | [] => pure true
  | (off, n) :: l => do
    match ← readi sb e off n fun _ _ => true with
    | none => pure false
    | some b => if b.length = n.toNat then execReads e l else pure false

/-- exec reads the executable in one transaction; which reads depends on the file. -/
def execFile (p : Slot) (path : List UInt8) (reads : List (UInt32 × UInt32)) : SysM Bool := do
  beginOp sb
  match ← liftFs (namei sb ((← get).cwd p) path) with
  | none => do
    endOp sb
    pure false
  | some ip => do
    let r ← liftFs (do
      ilock sb ip
      let r ← execReads sb ip reads
      iunlockput sb ip
      pure r)
    endOp sb
    pure r

def forkFiles (p np : Slot) : List (Fin NOFILE) → SysM Unit
  | [] => pure ()
  | fd :: l => do
    match (← get).ofile p fd with
    | none => forkFiles p np l
    | some f => do
      filedup f
      modify fun s => s.setOfile np fd (some f)
      forkFiles p np l

def fork (p np : Slot) : SysM Unit := do
  forkFiles p np (List.finRange NOFILE)
  let e ← liftFs (deref ((← get).cwd p) >>= idup)
  modify fun s => s.setCwd np (some e)

def closeAll (p : Slot) : List (Fin NOFILE) → SysM Unit
  | [] => pure ()
  | fd :: l => do
    match (← get).ofile p fd with
    | none => closeAll p l
    | some f => do
      fileclose sb f
      modify fun s => s.setOfile p fd none
      closeAll p l

def exit (p : Slot) : SysM Unit := do
  closeAll sb p (List.finRange NOFILE)
  putInode sb ((← get).cwd p)
  modify fun s => s.setCwd p none

end Functions

/-! ## §6. A small disk.

Boot block, super block, one block each for the log, the inodes and the free
map, and twelve data blocks; the root directory is the only file.  After
userinit the first process works in it. -/

def smallSb : Superblock :=
  { size := 17, nblocks := 12, ninodes := 8, nlog := 1, logstart := 2, inodestart := 3,
    bmapstart := 4 }

def smallRoot : Dinode :=
  { type := T_DIR, major := 0, minor := 0, nlink := 1, size := 32,
    addrs := fun i => if i = 0 then 5 else 0 }

def smallDisk : Disk := fun b =>
  if b = 3 then writeDinode (fun _ => 0) ROOTINO smallRoot
  else if b = 4 then fun i => if i = 0 then 0x3f else 0
  else if b = 5 then
    overlay (overlay (fun _ => 0) 0 DIRENT (direntBytes 1 dot)) DIRENT DIRENT (direntBytes 1 dotdot)
  else fun _ => 0

def Inode.zero : Inode :=
  { inum := 0, ref := 0, locked := false, valid := false, copy := Dinode.zero }

def smallBoot : Sys :=
  { fs :=
      { disk := smallDisk
        itable := fun e => if e = 0 then { Inode.zero with inum := ROOTINO, ref := 1 } else Inode.zero
        lh := []
        trace := [.alloc ROOTINO 5] }
    outstanding := 0
    file := fun _ _ => File.zero
    cwd := fun p => if p = 0 then some 0 else none
    ofile := fun _ _ => none
    reportList := { reports := fun _ _ => 0, count := 0, writeIndex := 0 } }

end Xv6.Fs
