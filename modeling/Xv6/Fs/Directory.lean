/-
  Xv6.Fs.Directory — directories and path names (fs.c), and the functions of sysfile.c
  that work on a directory.

  A path is the list of its characters up to the terminating NUL.
-/
import Xv6.Fs.Inode

namespace Xv6.Fs

open Lib

def DIRSIZ : Nat := 14

def DIRENT : Nat := 16

def SLASH : UInt8 := 47

/-! ## §1. Names and entries. -/

/-- `strncmp` from byte `i` on, with `n` bytes to go. -/
def strncmp (p q : Bytes) : Nat → Nat → Int
  | 0, _ => 0
  | n + 1, i =>
    if p i ≠ 0 ∧ p i = q i then strncmp p q n (i + 1)
    else ((p i).toNat : Int) - (q i).toNat

def namecmp (s t : Bytes) : Int := strncmp s t DIRSIZ 0

def strncpy (t : Bytes) : Bytes := fun i => if ∃ j < i, t j = 0 then 0 else t i

def direntInum (de : Bytes) : UInt16 := get16 de 0

def direntName (de : Bytes) : Bytes := fun i => de (2 + i)

def direntBytes (inum : UInt16) (name : Bytes) : Bytes := fun i =>
  if i < 2 then byteOf inum.toNat i else strncpy name (i - 2)

def cstr (l : List UInt8) : Bytes := fun i => l.getD i 0

def dot : Bytes := cstr [46]

def dotdot : Bytes := cstr [46, 46]

section Functions

variable (sb : Superblock)

/-! ## §2. Directories. -/

/-- `readi` of one entry into kernel memory; `msg` is the panic of the
caller when less is read. -/
def readDirent (dp : Fin NINODE) (off : Nat) (msg : String) : FsM Bytes := do
  match ← readi sb dp (.ofNat off) (.ofNat DIRENT) fun _ _ => true with
  | some l => if l.length = DIRENT then pure (cstr l) else throw (.panic msg)
  | none => throw (.panic msg)

def dirlookupLoop (dp : Fin NINODE) (name : Bytes) :
    Nat → Nat → FsM (Option (Fin NINODE × Nat))
  | 0, _ => pure none
  | fuel + 1, off => do
    if off < ((← get).itable dp).copy.size.toNat then do
      let de ← readDirent sb dp off "dirlookup read"
      if direntInum de = 0 then dirlookupLoop dp name fuel (off + DIRENT)
      else if namecmp name (direntName de) = 0 then do
        let ip ← iget (direntInum de).toNat
        pure (some (ip, off))
      else dirlookupLoop dp name fuel (off + DIRENT)
    else pure none

def dirlookup (dp : Fin NINODE) (name : Bytes) : FsM (Option (Fin NINODE × Nat)) := do
  let d := ((← get).itable dp).copy
  if d.type ≠ T_DIR then throw (.panic "dirlookup not DIR")
  else dirlookupLoop sb dp name (d.size.toNat / DIRENT + 1) 0

/-- The loop of dirlink: the offset of an empty entry, or the end. -/
def emptyDirent (dp : Fin NINODE) : Nat → Nat → FsM Nat
  | 0, off => pure off
  | fuel + 1, off => do
    if off < ((← get).itable dp).copy.size.toNat then do
      let de ← readDirent sb dp off "dirlink read"
      if direntInum de = 0 then pure off else emptyDirent dp fuel (off + DIRENT)
    else pure off

def dirlink (dp : Fin NINODE) (name : Bytes) (inum : Nat) : FsM Int := do
  match ← dirlookup sb dp name with
  | some (ip, _) => do
    iput sb ip
    pure (-1)
  | none => do
    let size := ((← get).itable dp).copy.size.toNat
    let off ← emptyDirent sb dp (size / DIRENT + 1) 0
    let r ← writei sb dp (fun i => some (direntBytes (.ofNat inum) name i))
      (.ofNat off) (.ofNat DIRENT)
    if r ≠ DIRENT then pure (-1) else pure 0

def isdiremptyLoop (dp : Fin NINODE) : Nat → Nat → FsM Bool
  | 0, _ => pure true
  | fuel + 1, off => do
    if off < ((← get).itable dp).copy.size.toNat then do
      let de ← readDirent sb dp off "isdirempty: readi"
      if direntInum de ≠ 0 then pure false else isdiremptyLoop dp fuel (off + DIRENT)
    else pure true

/-- Is the directory `dp` empty except for "." and ".." ? -/
def isdirempty (dp : Fin NINODE) : FsM Bool := do
  let size := ((← get).itable dp).copy.size.toNat
  isdiremptyLoop sb dp (size / DIRENT + 1) (2 * DIRENT)

/-! ## §3. Paths. -/

/-- The next path element and the path behind it; `none` if there is no name to remove. -/
def skipelem (path : List UInt8) : Option (Bytes × List UInt8) :=
  let s := path.dropWhile (· = SLASH)
  let elem := s.takeWhile fun c => c ≠ SLASH ∧ c ≠ 0
  if elem = [] then none
  else some (cstr (elem.take DIRSIZ), (s.drop elem.length).dropWhile (· = SLASH))

def pathEnd (path : List UInt8) : Prop := path.headD 0 = 0

instance (path : List UInt8) : Decidable (pathEnd path) :=
  inferInstanceAs (Decidable (_ = _))

/-- With `parent` the result is the directory of the last element and the name of that element. -/
def namexLoop (parent : Bool) :
    Nat → Fin NINODE → List UInt8 → Bytes → FsM (Option (Fin NINODE × Bytes))
  | 0, ip, _, name => pure (some (ip, name))
  | fuel + 1, ip, path, name =>
    match skipelem path with
    | none =>
      if parent then do
        iput sb ip
        pure none
      else pure (some (ip, name))
    | some (name, path) => do
      ilock sb ip
      if ((← get).itable ip).copy.type ≠ T_DIR then do
        iunlockput sb ip
        pure none
      else if parent ∧ pathEnd path then do
        -- Stop one level early.
        iunlock ip
        pure (some (ip, name))
      else do
        match ← dirlookup sb ip name with
        | none => do
          iunlockput sb ip
          pure none
        | some (next, _) => do
          iunlockput sb ip
          namexLoop parent fuel next path name

/-- A pointer that the kernel follows: following a null pointer is a fault
in kernel mode. -/
def deref {α : Type} (ptr : Option α) : FsM α :=
  match ptr with
  | some a => pure a
  | none => throw (.panic "kerneltrap")

def namexStart (cwd : Option (Fin NINODE)) (path : List UInt8) : FsM (Fin NINODE) :=
  if path.headD 0 = SLASH then iget ROOTINO
  else do
    let e ← deref cwd
    idup e

def namex (cwd : Option (Fin NINODE)) (path : List UInt8) (parent : Bool) :
    FsM (Option (Fin NINODE × Bytes)) := do
  let ip ← namexStart cwd path
  namexLoop sb parent (path.length + 1) ip path (cstr [])

def namei (cwd : Option (Fin NINODE)) (path : List UInt8) : FsM (Option (Fin NINODE)) := do
  let r ← namex sb cwd path false
  pure (r.map Prod.fst)

def nameiparent (cwd : Option (Fin NINODE)) (path : List UInt8) :
    FsM (Option (Fin NINODE × Bytes)) :=
  namex sb cwd path true

/-! ## §4. Creating and removing names (sysfile.c). -/

def setNlink (e : Fin NINODE) (f : Int16 → Int16) : FsM Unit := do
  modifyInode e fun ip => { ip with copy := { ip.copy with nlink := f ip.copy.nlink } }
  iupdate sb e

/-- `dirlink` as a condition: false where the source goes to `fail`. -/
def linked (dp : Fin NINODE) (name : Bytes) (inum : Nat) : FsM Bool := do
  let r ← dirlink sb dp name inum
  pure (decide (0 ≤ r))

/-- The links that create makes: "." and ".." in a new directory, and the new
name in `dp`. -/
def createLinks (dp ip : Fin NINODE) (name : Bytes) (type : Int16) : FsM Bool := do
  let dinum := ((← get).itable dp).inum
  let inum := ((← get).itable ip).inum
  if type = T_DIR then do
    -- No ip->nlink++ for ".": avoid cyclic ref count.
    if ← linked sb ip dot inum then do
      if ← linked sb ip dotdot dinum then linked sb dp name inum else pure false
    else pure false
  else linked sb dp name inum

def createInode (dp ip : Fin NINODE) (name : Bytes) (type major minor : Int16) :
    FsM (Option (Fin NINODE)) := do
  ilock sb ip
  modifyInode ip fun ip =>
    { ip with copy := { ip.copy with major := major, minor := minor, nlink := 1 } }
  iupdate sb ip
  if ← createLinks sb dp ip name type then do
    -- for ".."
    Comp.guarded (type = T_DIR) (setNlink sb dp (· + 1))
    iunlockput sb dp
    pure (some ip)
  else do
    -- something went wrong. de-allocate ip.
    setNlink sb ip fun _ => 0
    iunlockput sb ip
    iunlockput sb dp
    pure none

/-- create; kfilecreate of kfile.c has the same body.  The result is locked. -/
def create (cwd : Option (Fin NINODE)) (path : List UInt8) (type major minor : Int16) :
    FsM (Option (Fin NINODE)) := do
  match ← nameiparent sb cwd path with
  | none => pure none
  | some (dp, name) => do
    ilock sb dp
    match ← dirlookup sb dp name with
    | some (ip, _) => do
      iunlockput sb dp
      ilock sb ip
      let t := ((← get).itable ip).copy.type
      if type = T_FILE ∧ (t = T_FILE ∨ t = T_DEVICE) then pure (some ip)
      else do
        iunlockput sb ip
        pure none
    | none => do
      match ← ialloc sb type with
      | none => do
        iunlockput sb dp
        pure none
      | some ip => createInode sb dp ip name type major minor

/-- The part of sys_unlink behind the `ilock` of both inodes, up to `bad`. -/
def unlinkEntry (dp ip : Fin NINODE) (off : Nat) : FsM Unit := do
  let r ← writei sb dp (fun _ => some 0) (.ofNat off) (.ofNat DIRENT)
  if r ≠ DIRENT then throw (.panic "unlink: writei")
  else do
    Comp.guarded (((← get).itable ip).copy.type = T_DIR) (setNlink sb dp (· - 1))
    iunlockput sb dp
    setNlink sb ip (· - 1)
    iunlockput sb ip

def occupied (ip : Fin NINODE) : FsM Bool := do
  if ((← get).itable ip).copy.type = T_DIR then do
    let e ← isdirempty sb ip
    pure !e
  else pure false

/-- sys_unlink between begin_op and end_op. -/
def unlink (cwd : Option (Fin NINODE)) (path : List UInt8) : FsM Int := do
  match ← nameiparent sb cwd path with
  | none => pure (-1)
  | some (dp, name) => do
    ilock sb dp
    if namecmp name dot = 0 ∨ namecmp name dotdot = 0 then do
      -- Cannot unlink "." or "..".
      iunlockput sb dp
      pure (-1)
    else do
      match ← dirlookup sb dp name with
      | none => do
        iunlockput sb dp
        pure (-1)
      | some (ip, off) => do
        ilock sb ip
        if ((← get).itable ip).copy.nlink < 1 then throw (.panic "unlink: nlink < 1")
        else if ← occupied sb ip then do
          iunlockput sb ip
          iunlockput sb dp
          pure (-1)
        else do
          unlinkEntry sb dp ip off
          pure 0

/-- sys_link behind its first `iunlock`: false where the source goes to
`bad`. -/
def linkNew (cwd : Option (Fin NINODE)) (ip : Fin NINODE) (new : List UInt8) : FsM Bool := do
  match ← nameiparent sb cwd new with
  | none => pure false
  | some (dp, name) => do
    ilock sb dp
    if ← linked sb dp name ((← get).itable ip).inum then do
      iunlockput sb dp
      iput sb ip
      pure true
    else do
      iunlockput sb dp
      pure false

/-- sys_link between begin_op and end_op. -/
def link (cwd : Option (Fin NINODE)) (old new : List UInt8) : FsM Int := do
  match ← namei sb cwd old with
  | none => pure (-1)
  | some ip => do
    ilock sb ip
    if ((← get).itable ip).copy.type = T_DIR then do
      iunlockput sb ip
      pure (-1)
    else do
      setNlink sb ip (· + 1)
      iunlock ip
      if ← linkNew sb cwd ip new then pure 0
      else do
        ilock sb ip
        setNlink sb ip (· - 1)
        iunlockput sb ip
        pure (-1)

end Functions

end Xv6.Fs
