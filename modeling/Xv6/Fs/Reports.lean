/-
  Xv6.Fs.Reports — kernel files and the crash-report path (kfile.c, store_trap of
  trap.c, sysrep of proc.c).

  A report is the array of its 304 bytes.  What the pipe functions and the device table
  would return is a parameter of kfilewrite; no modelled caller reaches them.
-/
import Xv6.Fs.Files

namespace Xv6.Fs

open Lib

def SEEK_SET : Int32 := 0
def SEEK_CUR : Int32 := 1
def SEEK_END : Int32 := 2

def REPORT_BUFFER_SIZE : Nat := 10

def REPORT : Nat := 304

def reportsPath : List UInt8 := [47, 114, 101, 112, 111, 114, 116, 115, 46, 98, 105, 110]

section Functions

variable (sb : Superblock)

/-! ## §1. Kernel files (kfile.c). -/

def kfilealloc : SysM (Option (Fin NFILE)) := allocIn .kftable

/-- The body is that of create. The paths are absolute, so it does not look at the working
directory. -/
def kfilecreate (path : List UInt8) (type major minor : Int16) : FsM (Option (Fin NINODE)) :=
  create sb none path type major minor

def ksize (f : Fin NFILE) : SysM UInt32 := do
  let s ← get
  liftFs do
    let e ← deref (s.file .kftable f).ip
    pure ((← get).itable e).copy.size

/-- The position that `offset` and `whence` ask for, as an `int`; `none` for
an unknown `whence`. -/
def seekTarget (off size : UInt32) (offset whence : Int32) : Option Int32 :=
  if whence = SEEK_SET then some offset
  else if whence = SEEK_CUR then some (off + offset.toUInt32).toInt32
  else if whence = SEEK_END then some (size + offset.toUInt32).toInt32
  else none

/-- kfileseek.  Both failing exits return without end_op. -/
def kfileseek (f : Fin NFILE) (offset whence : Int32) : SysM Int32 := do
  if ((← get).file .kftable f).type ≠ .FD_INODE then pure (-1)
  else do
    beginOp sb
    if whence ≠ SEEK_SET ∧ whence ≠ SEEK_CUR ∧ whence ≠ SEEK_END then pure (-1)
    else do
      let size ← ksize f
      match seekTarget ((← get).file .kftable f).off size offset whence with
      | none => pure (-1)
      | some newOffset =>
        if newOffset < 0 ∨ newOffset.toUInt32 > size then pure (-1)
        else do
          modifyFile .kftable f fun file => { file with off := newOffset.toUInt32 }
          endOp sb
          pure newOffset

/-- The bytes that kfileread delivers; `none` for the result -1. -/
def kfileread (f : Fin NFILE) (n : UInt32) : SysM (Option (List UInt8)) := do
  let file := (← get).file .kftable f
  if file.readable = false then pure none
  else
    match file.type with
    | .FD_NONE => throw (.panic "fileread")
    -- kdevsw is never filled, and no kernel file is a pipe
    | .FD_PIPE => pure none
    | .FD_DEVICE => pure none
    | .FD_INODE => do
      match ← liftFs (do
          let e ← deref file.ip
          readi sb e file.off n fun _ _ => true) with
      | none => pure none
      | some l => do
        modifyFile .kftable f fun file => { file with off := file.off + .ofNat l.length }
        pure (some l)

/-- One transaction of kfilewrite. -/
def kwriteChunk (f : Fin NFILE) (src : Bytes) (i n1 : Nat) : SysM Int := do
  beginOp sb
  let file := (← get).file .kftable f
  let r ← liftFs (do
    let e ← deref file.ip
    writei sb e (fun k => some (src (i + k))) file.off (.ofNat n1))
  Comp.guarded (0 < r) (modifyFile .kftable f fun file =>
    { file with off := file.off + .ofNat r.toNat })
  endOp sb
  pure r

/-- The loop of kfilewrite: the number of bytes written. -/
def kwriteLoop (f : Fin NFILE) (src : Bytes) (n : Nat) : Nat → Nat → SysM Nat
  | 0, i => pure i
  | fuel + 1, i =>
    if i < n then do
      let n1 := min (n - i) writeMax
      let r ← kwriteChunk sb f src i n1
      if r ≠ n1 then pure i else kwriteLoop f src n fuel (i + n1)
    else pure i

/-- kfilewrite of `n` bytes of kernel memory; `other` is the result of
pipewrite. -/
def kfilewrite (f : Fin NFILE) (src : Bytes) (n : Int32) (other : Int) : SysM Int := do
  let file := (← get).file .kftable f
  if file.writable = false then pure (-1)
  else
    match file.type with
    | .FD_NONE => throw (.panic "filewrite")
    | .FD_PIPE => pure other
    -- kdevsw is never filled
    | .FD_DEVICE => pure (-1)
    | .FD_INODE => do
      let i ← kwriteLoop sb f src n.toInt.toNat n.toInt.toNat 0
      pure (if (i : Int) = n.toInt then n.toInt else -1)

def kfileclose (f : Fin NFILE) : SysM Unit := closeIn sb .kftable f

/-! ## §2. Storing a report (trap.c). -/

def pushReport (r : Bytes) : SysM Int32 := do
  let l := (← get).reportList
  modify fun s =>
    { s with
      reportList :=
        { reports := put l.reports l.writeIndex r
          count := l.count + 1
          writeIndex := (l.writeIndex + 1) % REPORT_BUFFER_SIZE } }
  pure (l.count + 1)

/-- `if (f->ip == NULL) …` of store_trap. -/
def openReports (f : Fin NFILE) : SysM Unit := do
  if ((← get).file .kftable f).ip = none then do
    beginOp sb
    let ip ← liftFs (kfilecreate sb reportsPath T_FILE 0 0)
    modifyFile .kftable f fun file => { file with ip := ip }
    endOp sb
  else pure ()

def writeReport (f : Fin NFILE) (count : Int32) (r : Bytes) : SysM Unit := do
  let _ ← kfileseek sb f 0 SEEK_SET
  let _ ← kfilewrite sb f (byteOf count.toUInt32.toNat) 4 0
  let _ ← kfileseek sb f 0 SEEK_END
  let _ ← kfilewrite sb f r (.ofNat REPORT) 0
  kfileclose sb f

/-- What a kernel function that follows a null `struct file *` does. -/
def kfileNull {α : Type} : SysM α := throw (.panic "kerneltrap")

def storeTrap (r : Bytes) : SysM Unit := do
  match ← kfilealloc with
  | none => kfileNull
  | some f => do
    modifyFile .kftable f fun file => { file with type := .FD_INODE }
    openReports sb f
    modifyFile .kftable f fun file => { file with off := 0, writable := true, ref := 1 }
    let count ← pushReport r
    writeReport sb f count r

/-! ## §3. Reading the reports (proc.c). -/

/-- `rt->count`, behind the ten records. -/
def rtCount (rt : Bytes) : Int32 := (get32 rt (REPORT_BUFFER_SIZE * REPORT)).toInt32

def readInto (f : Fin NFILE) (rt : Bytes) (o n : Nat) : SysM Bytes := do
  match ← kfileread sb f (.ofNat n) with
  | none => pure rt
  | some l => pure (overlay rt o l.length fun i => l.getD i 0)

def readRecords (f : Fin NFILE) : Nat → Nat → Bytes → SysM Bytes
  | 0, _, rt => pure rt
  | fuel + 1, i, rt =>
    if (i : Int) < (rtCount rt).toInt then do
      let rt ← readInto sb f rt (i * REPORT) REPORT
      readRecords f fuel (i + 1) rt
    else pure rt

def sysrepCreate (f : Fin NFILE) (rt : Bytes) : SysM Bytes := do
  beginOp sb
  let ip ← liftFs (kfilecreate sb reportsPath T_FILE 0 0)
  modifyFile .kftable f fun file => { file with ip := ip }
  match ip with
  | none => throw (.panic "iunlock")
  | some e => do
    liftFs (iunlockput sb e)
    endOp sb
    pure rt

def sysrepRead (f : Fin NFILE) (rt : Bytes) : SysM Bytes := do
  modifyFile .kftable f fun file => { file with off := 0, readable := true, ref := 1 }
  let _ ← kfileseek sb f 0 SEEK_SET
  let rt ← readInto sb f rt (REPORT_BUFFER_SIZE * REPORT) 4
  let _ ← kfileseek sb f (-10 * .ofNat REPORT) SEEK_END
  let rt ← readRecords sb f REPORT_BUFFER_SIZE 0 rt
  kfileclose sb f
  pure rt

def sysrep (rt : Bytes) : SysM Bytes := do
  match ← kfilealloc with
  | none => kfileNull
  | some f => do
    modifyFile .kftable f fun file => { file with type := .FD_INODE }
    if ((← get).file .kftable f).ip = none then sysrepCreate sb f rt
    else sysrepRead sb f rt

end Functions

end Xv6.Fs
