/-
  Xv6.Fs.Inode — blocks, inodes and their contents (fs.c).

  The state is the disk as `bread` presents it, the blocks logged since the last commit, and
  the table of in-memory inodes.  One call runs at a time: the sleep lock of an inode is a
  flag.  The ghost `trace` records for which inode each block was obtained.
-/
import Xv6.Fs.Layout
import Xv6.Lib.Comp
import Xv6.Lib.Alloc

namespace Xv6.Fs

open Lib

/-! ## §1. The state. -/

abbrev NINODE : Nat := 50

instance : NeZero NINODE := ⟨by decide⟩

/-- `struct inode`; `copy` is what its comment calls the copy of the disk
inode. -/
structure Inode where
  inum : Nat
  ref : Int
  locked : Bool
  valid : Bool
  copy : Dinode

structure State where
  disk : Disk
  itable : Fin NINODE → Inode
  lh : List Nat
  trace : List (Event Nat)

inductive Stop where
  | panic (msg : String)
  /-- It waits for a lock or for log space, and no other call runs. -/
  | hang
  deriving DecidableEq

abbrev FsM := Comp State Stop

namespace State

def setDisk (s : State) (disk : Disk) : State := { s with disk := disk }

/-- `log_write` of a buffer that holds block `b`. -/
def logWrite (s : State) (b : Nat) : State :=
  -- log absorption
  if b ∈ s.lh then s else { s with lh := s.lh ++ [b] }

def setInode (s : State) (e : Fin NINODE) (ip : Inode) : State :=
  { s with itable := put s.itable e ip }

def log (s : State) (ev : Event Nat) : State := { s with trace := s.trace ++ [ev] }

@[simp] theorem setInode_itable (s : State) (e f : Fin NINODE) (ip : Inode) :
    (s.setInode e ip).itable f = if f = e then ip else s.itable f := by
  simp [setInode, put_apply]

end State

def modifyInode (e : Fin NINODE) (f : Inode → Inode) : FsM Unit :=
  modify fun s => s.setInode e (f (s.itable e))

section Functions

variable (sb : Superblock)

/-! ## §2. Blocks. -/

def bzero (b : Nat) : FsM Unit :=
  modify fun s => (s.setDisk (put s.disk b fun _ => 0)).logWrite b

def scanBits (map : Bytes) (b : Nat) : Nat → Nat → Option Nat
  | 0, _ => none
  | fuel + 1, bi =>
    if b + bi < sb.size then
      if getBit map bi then scanBits map b fuel (bi + 1) else some bi
    else none

def scanMap (disk : Disk) : Nat → Nat → Option Nat
  | 0, _ => none
  | fuel + 1, b =>
    if b < sb.size then
      match scanBits sb (disk (sb.BBLOCK b)) b BPB 0 with
      | some bi => some (b + bi)
      | none => scanMap disk fuel (b + BPB)
    else none

def balloc (who : Nat) : FsM Nat := do
  match scanMap sb (← get).disk (sb.size / BPB + 1) 0 with
  | none => pure 0
  | some b => do
    modify fun s =>
      ((s.setDisk (setBitAt sb s.disk b true)).logWrite (sb.BBLOCK b)).log (.alloc who b)
    bzero b
    pure b

def bfree (b : Nat) : FsM Unit := do
  if bitAt sb (← get).disk b = false then throw (.panic "freeing free block")
  else modify fun s =>
    ((s.setDisk (setBitAt sb s.disk b false)).logWrite (sb.BBLOCK b)).log (.free b)

/-! ## §3. The inode table. -/

def Dinode.zero : Dinode :=
  { type := 0, major := 0, minor := 0, nlink := 0, size := 0, addrs := fun _ => 0 }

def iupdate (e : Fin NINODE) : FsM Unit :=
  modify fun s =>
    (s.setDisk (setDinodeAt sb s.disk (s.itable e).inum (s.itable e).copy)).logWrite
      (sb.IBLOCK (s.itable e).inum)

def findInode (itable : Fin NINODE → Inode) (inum : Nat) : Option (Fin NINODE) :=
  (List.finRange NINODE).find? fun e => 0 < (itable e).ref ∧ (itable e).inum = inum

def emptyInode (itable : Fin NINODE → Inode) : Option (Fin NINODE) :=
  (List.finRange NINODE).find? fun e => (itable e).ref = 0

def iget (inum : Nat) : FsM (Fin NINODE) := do
  let s ← get
  match findInode s.itable inum with
  | some e => do
    modifyInode e fun ip => { ip with ref := ip.ref + 1 }
    pure e
  | none =>
    match emptyInode s.itable with
    | none => throw (.panic "iget: no inodes")
    | some e => do
      modifyInode e fun ip => { ip with inum := inum, ref := 1, valid := false }
      pure e

def idup (e : Fin NINODE) : FsM (Fin NINODE) := do
  modifyInode e fun ip => { ip with ref := ip.ref + 1 }
  pure e

/-- The loop of ialloc: the first free inode from `inum` on. -/
def freeInode (disk : Disk) : Nat → Nat → Option Nat
  | 0, _ => none
  | fuel + 1, inum =>
    if inum < sb.ninodes then
      if (dinodeAt sb disk inum).type = 0 then some inum else freeInode disk fuel (inum + 1)
    else none

def ialloc (type : Int16) : FsM (Option (Fin NINODE)) := do
  match freeInode sb (← get).disk sb.ninodes 1 with
  | none => pure none
  | some inum => do
    modify fun s =>
      (s.setDisk (setDinodeAt sb s.disk inum { Dinode.zero with type := type })).logWrite
        (sb.IBLOCK inum)
    let e ← iget inum
    pure (some e)

def acquiresleep (e : Fin NINODE) : FsM Unit := do
  if ((← get).itable e).locked then throw .hang
  else modifyInode e fun ip => { ip with locked := true }

def releasesleep (e : Fin NINODE) : FsM Unit := modifyInode e fun ip => { ip with locked := false }

def loadInode (e : Fin NINODE) : FsM Unit := do
  let s ← get
  if (s.itable e).valid then pure ()
  else if (dinodeAt sb s.disk (s.itable e).inum).type = 0 then throw (.panic "ilock: no type")
  else modifyInode e fun ip => { ip with copy := dinodeAt sb s.disk ip.inum, valid := true }

def ilock (e : Fin NINODE) : FsM Unit := do
  if ((← get).itable e).ref < 1 then throw (.panic "ilock")
  else do
    acquiresleep e
    loadInode sb e

def iunlock (e : Fin NINODE) : FsM Unit := do
  let s ← get
  if (s.itable e).locked = false ∨ (s.itable e).ref < 1 then throw (.panic "iunlock")
  else releasesleep e

/-! ## §4. Inode content. -/

/-- `ip->addrs[i]`, allocated if it is 0; 0 if out of disk space. -/
def addrAlloc (e : Fin NINODE) (i : Fin 13) : FsM UInt32 := do
  let ip := (← get).itable e
  if ip.copy.addrs i ≠ 0 then pure (ip.copy.addrs i)
  else do
    let b ← balloc sb ip.inum
    if b = 0 then pure 0
    else do
      modifyInode e fun ip =>
        { ip with copy := { ip.copy with addrs := put ip.copy.addrs i (.ofNat b) } }
      pure (.ofNat b)

/-- Entry `j` of the indirect block `addr`, allocated if it is 0. -/
def entryAlloc (e : Fin NINODE) (addr : UInt32) (j : Nat) : FsM UInt32 := do
  let s ← get
  let a := get32 (s.disk addr.toNat) (4 * j)
  if a ≠ 0 then pure a
  else do
    let b ← balloc sb (s.itable e).inum
    if b = 0 then pure 0
    else do
      modify fun s =>
        (s.setDisk (put s.disk addr.toNat
          (put32 (s.disk addr.toNat) (4 * j) (.ofNat b)))).logWrite addr.toNat
      pure (.ofNat b)

def bmap (e : Fin NINODE) (bn : Nat) : FsM UInt32 :=
  if bn < NDIRECT then addrAlloc sb e (.ofNat 13 bn)
  else if bn - NDIRECT < NINDIRECT then do
    let addr ← addrAlloc sb e 12
    if addr = 0 then pure 0 else entryAlloc sb e addr (bn - NDIRECT)
  else throw (.panic "bmap: out of range")

def itruncDirect (e : Fin NINODE) : List (Fin 13) → FsM Unit
  | [] => pure ()
  | i :: l => do
    let a := ((← get).itable e).copy.addrs i
    if a ≠ 0 then do
      bfree sb a.toNat
      modifyInode e fun ip =>
        { ip with copy := { ip.copy with addrs := put ip.copy.addrs i 0 } }
      itruncDirect e l
    else itruncDirect e l

def itruncEntries (a : Bytes) : List Nat → FsM Unit
  | [] => pure ()
  | j :: l =>
    if get32 a (4 * j) ≠ 0 then do
      bfree sb (get32 a (4 * j)).toNat
      itruncEntries a l
    else itruncEntries a l

def itruncIndirect (e : Fin NINODE) : FsM Unit := do
  let s ← get
  let addr := (s.itable e).copy.addrs 12
  if addr ≠ 0 then do
    itruncEntries sb (s.disk addr.toNat) (List.range NINDIRECT)
    bfree sb addr.toNat
    modifyInode e fun ip =>
      { ip with copy := { ip.copy with addrs := put ip.copy.addrs 12 0 } }
  else pure ()

def directSlots : List (Fin 13) := (List.finRange 12).map Fin.castSucc

def itrunc (e : Fin NINODE) : FsM Unit := do
  itruncDirect sb e directSlots
  itruncIndirect sb e
  modifyInode e fun ip => { ip with copy := { ip.copy with size := 0 } }
  iupdate sb e

def ifree (e : Fin NINODE) : FsM Unit := do
  acquiresleep e
  itrunc sb e
  modifyInode e fun ip => { ip with copy := { ip.copy with type := 0 } }
  iupdate sb e
  modifyInode e fun ip => { ip with valid := false }
  releasesleep e

def iput (e : Fin NINODE) : FsM Unit := do
  let ip := (← get).itable e
  if ip.ref = 1 ∧ ip.valid = true ∧ ip.copy.nlink = 0 then do
    ifree sb e
    modifyInode e fun ip => { ip with ref := ip.ref - 1 }
  else modifyInode e fun ip => { ip with ref := ip.ref - 1 }

def iunlockput (e : Fin NINODE) : FsM Unit := do
  iunlock e
  iput sb e

/-! ## §5. Reading and writing. -/

def bytesOf (b : Bytes) (o m : Nat) : List UInt8 := (List.range m).map fun k => b (o + k)

/-- `ok tot m` says whether either_copyout succeeds; the result is `none` if it fails. -/
def readiLoop (e : Fin NINODE) (n : Nat) (ok : Nat → Nat → Bool) :
    Nat → Nat → Nat → List UInt8 → FsM (Option (List UInt8))
  | 0, _, _, acc => pure (some acc)
  | fuel + 1, tot, off, acc =>
    if tot < n then do
      let addr ← bmap sb e (off / BSIZE)
      if addr = 0 then pure (some acc)
      else do
        let m := min (n - tot) (BSIZE - off % BSIZE)
        let data := bytesOf ((← get).disk addr.toNat) (off % BSIZE) m
        if ok tot m then readiLoop e n ok fuel (tot + m) (off + m) (acc ++ data)
        else pure none
    else pure (some acc)

def readi (e : Fin NINODE) (off n : UInt32) (ok : Nat → Nat → Bool) :
    FsM (Option (List UInt8)) := do
  let size := ((← get).itable e).copy.size
  if off > size ∨ off + n < off then pure (some [])
  else
    let n := if off + n > size then size - off else n
    readiLoop sb e n.toNat ok n.toNat 0 off.toNat []

/-- How many of the `m` bytes from `start` on either_copyin can read. -/
def readable (src : Nat → Option UInt8) : Nat → Nat → Nat
  | _, 0 => 0
  | start, m + 1 => if (src start).isSome then readable src (start + 1) m + 1 else 0

/-- The loop of writei, with `tot` and `off` at its end. -/
def writeiLoop (e : Fin NINODE) (src : Nat → Option UInt8) (n : Nat) :
    Nat → Nat → Nat → FsM (Nat × Nat)
  | 0, tot, off => pure (tot, off)
  | fuel + 1, tot, off =>
    if tot < n then do
      let addr ← bmap sb e (off / BSIZE)
      if addr = 0 then pure (tot, off)
      else do
        let m := min (n - tot) (BSIZE - off % BSIZE)
        let k := readable src tot m
        modify fun s => s.setDisk (put s.disk addr.toNat
          (overlay (s.disk addr.toNat) (off % BSIZE) k fun i => (src (tot + i)).getD 0))
        if k = m then do
          modify fun s => s.logWrite addr.toNat
          writeiLoop e src n fuel (tot + m) (off + m)
        else pure (tot, off)
    else pure (tot, off)

/-- `if(off > ip->size) ip->size = off; iupdate(ip);`. -/
def writeiEnd (e : Fin NINODE) (off : Nat) : FsM Unit := do
  modifyInode e fun ip =>
    if ip.copy.size.toNat < off then { ip with copy := { ip.copy with size := .ofNat off } } else ip
  iupdate sb e

def writei (e : Fin NINODE) (src : Nat → Option UInt8) (off n : UInt32) : FsM Int := do
  let size := ((← get).itable e).copy.size
  if off > size ∨ off + n < off then pure (-1)
  else if off + n > .ofNat (MAXFILE * BSIZE) then pure (-1)
  else do
    let r ← writeiLoop sb e src n.toNat n.toNat 0 off.toNat
    writeiEnd sb e r.2
    pure r.1

end Functions

end Xv6.Fs
