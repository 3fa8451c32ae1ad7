/-
  Xv6.Mkfs.Image — the program that makes a file system image (mkfs.c).

  A sector beyond the end of the image file cannot be read, and a failed assertion ends the
  program: `none` in both cases.
-/
import Xv6.Fs.Mapping

namespace Xv6.Mkfs

open Lib Fs

/-! ## §1. The layout. -/

def FSSIZE : Nat := 2000
def NINODES : Nat := 200
def nlog : Nat := 30
def nbitmap : Nat := FSSIZE / BPB + 1
def ninodeblocks : Nat := NINODES / IPB + 1
def nmeta : Nat := 2 + nlog + ninodeblocks + nbitmap
def nblocks : Nat := FSSIZE - nmeta

def FSMAGIC : UInt32 := 0x10203040

def sb : Superblock :=
  { size := FSSIZE
    nblocks := nblocks
    ninodes := NINODES
    nlog := nlog
    logstart := 2
    inodestart := 2 + nlog
    bmapstart := 2 + nlog + ninodeblocks }

/-- The members of `struct superblock` in their order. -/
def sbFields : List Nat :=
  [FSMAGIC.toNat, sb.size, sb.nblocks, sb.ninodes, sb.nlog, sb.logstart, sb.inodestart,
    sb.bmapstart]

def sbBytes : Bytes := fun k => byteOf (sbFields.getD (k / 4) 0) (k % 4)

/-! ## §2. Sectors and inodes. -/

structure Image where
  disk : Disk
  freeinode : Nat
  freeblock : Nat

namespace Image

def rsect (img : Image) (sec : Nat) : Option Bytes :=
  if sec < FSSIZE then some (img.disk sec) else none

def wsect (img : Image) (sec : Nat) (buf : Bytes) : Image := { img with disk := put img.disk sec buf }

def rinode (img : Image) (inum : Nat) : Dinode := dinodeAt sb img.disk inum

def winode (img : Image) (inum : Nat) (d : Dinode) : Image :=
  { img with disk := setDinodeAt sb img.disk inum d }

def ialloc (img : Image) (type : Int16) : Nat × Image :=
  (img.freeinode,
    { img with freeinode := img.freeinode + 1 }.winode img.freeinode
      { Dinode.zero with type := type, nlink := 1 })

/-! ## §3. iappend. -/

/-- `freeblock++`, stored at `din.addrs[i]` if that is 0. -/
def fillAddr (img : Image) (din : Dinode) (i : Fin 13) : Image × Dinode :=
  if din.addrs i = 0 then
    ({ img with freeblock := img.freeblock + 1 },
      { din with addrs := put din.addrs i (.ofNat img.freeblock) })
  else (img, din)

def blockFor (img : Image) (din : Dinode) (fbn : Nat) : Option (Image × Dinode × UInt32) :=
  if fbn < NDIRECT then
    let (img, din) := img.fillAddr din (.ofNat 13 fbn)
    some (img, din, din.addrs (.ofNat 13 fbn))
  else
    let (img, din) := img.fillAddr din 12
    (img.rsect (din.addrs 12).toNat).map fun indirect =>
      if get32 indirect (4 * (fbn - NDIRECT)) = 0 then
        ({ img with freeblock := img.freeblock + 1 }.wsect (din.addrs 12).toNat
          (put32 indirect (4 * (fbn - NDIRECT)) (.ofNat img.freeblock)),
          din, .ofNat img.freeblock)
      else (img, din, get32 indirect (4 * (fbn - NDIRECT)))

def iappendLoop (p : Bytes) :
    Nat → Image → Dinode → Nat → Nat → Nat → Option (Image × Dinode × Nat)
  | 0, img, din, _, off, _ => some (img, din, off)
  | fuel + 1, img, din, tot, off, n =>
    if 0 < n then
      if off / BSIZE < MAXFILE then
        (img.blockFor din (off / BSIZE)).bind fun (img, din, x) =>
          (img.rsect x.toNat).bind fun buf =>
            let n1 := min n ((off / BSIZE + 1) * BSIZE - off)
            iappendLoop p fuel
              (img.wsect x.toNat (overlay buf (off - off / BSIZE * BSIZE) n1 fun k => p (tot + k)))
              din (tot + n1) (off + n1) (n - n1)
      else none
    else some (img, din, off)

def iappend (img : Image) (inum : Nat) (p : Bytes) (n : Nat) : Option Image :=
  let din := img.rinode inum
  (iappendLoop p n img din 0 din.size.toNat n).map fun (img, din, off) =>
    img.winode inum { din with size := .ofNat off }

/-! ## §4. main. -/

/-- `buf[i/8] | (0x1 << (i%8))` for all `i` below `used`. -/
def usedMap (used : Nat) : Bytes :=
  (List.range used).foldl (fun buf i => setBit buf i true) fun _ => 0

def balloc (img : Image) (used : Nat) : Option Image :=
  if used < BPB then some (img.wsect sb.bmapstart (usedMap used)) else none

/-- All sectors zero but the one with the super block. -/
def start : Image :=
  { disk := put (fun _ _ => 0) 1 sbBytes, freeinode := 1, freeblock := nmeta }

/-- An input file: `argv[i]` and the results of `read`. -/
structure Input where
  arg : List UInt8
  reads : List (List UInt8)

def Input.contents (f : Input) : List UInt8 := f.reads.flatten

def userDir : List UInt8 := [117, 115, 101, 114, 47]

def UNDERSCORE : UInt8 := 95

def shortname (arg : List UInt8) : Option (List UInt8) :=
  -- get rid of "user/"
  let name := if arg.take 5 = userDir then arg.drop 5 else arg
  if SLASH ∈ name then none
  else
    -- Skip leading _ in name when writing to file system.
    let name := if name.head? = some UNDERSCORE then name.tail else name
    if name.length ≤ DIRSIZ then some name else none

def addEntry (img : Image) (inum : Nat) (name : Bytes) : Option Image :=
  img.iappend ROOTINO (direntBytes (.ofNat inum) name) DIRENT

def addReads (inum : Nat) : Image → List (List UInt8) → Option Image
  | img, [] => some img
  | img, buf :: reads =>
    (img.iappend inum (cstr buf) buf.length).bind fun img => addReads inum img reads

def addFile (img : Image) (f : Input) : Option Image :=
  (shortname f.arg).bind fun name =>
    let (inum, img) := img.ialloc T_FILE
    (img.addEntry inum (cstr name)).bind fun img => addReads inum img f.reads

def addFiles : Image → List Input → Option Image
  | img, [] => some img
  | img, f :: files => (img.addFile f).bind fun img => addFiles img files

def fixRoot (img : Image) : Image :=
  let din := img.rinode ROOTINO
  img.winode ROOTINO { din with size := .ofNat ((din.size.toNat / BSIZE + 1) * BSIZE) }

def main (files : List Input) : Option Image :=
  let (rootino, img) := start.ialloc T_DIR
  if rootino = ROOTINO then
    (img.addEntry rootino dot).bind fun img =>
      (img.addEntry rootino dotdot).bind fun img =>
        (img.addFiles files).bind fun img =>
          img.fixRoot.balloc img.freeblock
  else none

end Image

end Xv6.Mkfs
