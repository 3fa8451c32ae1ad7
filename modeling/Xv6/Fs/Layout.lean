/-
  Xv6.Fs.Layout — the on-disk format (fs.h).

  A disk is a function from block numbers to blocks of bytes.
-/
import Xv6.Lib.Bytes

namespace Xv6.Fs

open Lib

/-! ## §1. Constants. -/

def BSIZE : Nat := 1024
def NDIRECT : Nat := 12
def NINDIRECT : Nat := 256
def MAXFILE : Nat := NDIRECT + NINDIRECT
def IPB : Nat := 16
def BPB : Nat := BSIZE * 8
def ROOTINO : Nat := 1

def T_DIR : Int16 := 1
def T_FILE : Int16 := 2
def T_DEVICE : Int16 := 3

/-- `struct superblock`; the magic number is checked by fsinit. -/
structure Superblock where
  size : Nat
  nblocks : Nat
  ninodes : Nat
  nlog : Nat
  logstart : Nat
  inodestart : Nat
  bmapstart : Nat
  deriving DecidableEq

namespace Superblock

def nmeta (sb : Superblock) : Nat := sb.size - sb.nblocks

def IBLOCK (sb : Superblock) (i : Nat) : Nat := i / IPB + sb.inodestart

def BBLOCK (sb : Superblock) (b : Nat) : Nat := b / BPB + sb.bmapstart

/-- The regions come in the order of fs.h, and block and inode numbers fit an `int`. -/
structure Ok (sb : Superblock) : Prop where
  log : sb.logstart + sb.nlog ≤ sb.inodestart
  inodes : sb.inodestart + sb.ninodes / IPB + 1 ≤ sb.bmapstart
  bitmap : sb.bmapstart + sb.size / BPB + 1 ≤ sb.nmeta
  size : sb.size + BPB < 2 ^ 31
  ninodes : sb.ninodes < 2 ^ 31
  root : ROOTINO < sb.ninodes

instance (sb : Superblock) : Decidable sb.Ok :=
  decidable_of_iff
    (sb.logstart + sb.nlog ≤ sb.inodestart ∧ sb.inodestart + sb.ninodes / IPB + 1 ≤ sb.bmapstart ∧
      sb.bmapstart + sb.size / BPB + 1 ≤ sb.nmeta ∧ sb.size + BPB < 2 ^ 31 ∧
      sb.ninodes < 2 ^ 31 ∧ ROOTINO < sb.ninodes)
    ⟨fun ⟨h1, h2, h3, h4, h5, h6⟩ => ⟨h1, h2, h3, h4, h5, h6⟩,
      fun h => ⟨h.log, h.inodes, h.bitmap, h.size, h.ninodes, h.root⟩⟩

end Superblock

/-! ## §2. Inodes on disk. -/

instance neZeroAddrs : NeZero 13 := ⟨by decide⟩

structure Dinode where
  type : Int16
  major : Int16
  minor : Int16
  nlink : Int16
  size : UInt32
  /-- NDIRECT direct blocks and the indirect block. -/
  addrs : Fin 13 → UInt32
  deriving DecidableEq

def Dinode.byte (d : Dinode) (k : Nat) : UInt8 :=
  if k < 2 then byteOf d.type.toUInt16.toNat k
  else if k < 4 then byteOf d.major.toUInt16.toNat (k - 2)
  else if k < 6 then byteOf d.minor.toUInt16.toNat (k - 4)
  else if k < 8 then byteOf d.nlink.toUInt16.toNat (k - 6)
  else if k < 12 then byteOf d.size.toNat (k - 8)
  else byteOf (d.addrs (Fin.ofNat 13 ((k - 12) / 4))).toNat ((k - 12) % 4)

def getDinode (b : Bytes) (o : Nat) : Dinode :=
  { type := (get16 b o).toInt16
    major := (get16 b (o + 2)).toInt16
    minor := (get16 b (o + 4)).toInt16
    nlink := (get16 b (o + 6)).toInt16
    size := get32 b (o + 8)
    addrs := fun i => get32 b (o + 12 + 4 * i.val) }

def readDinode (b : Bytes) (slot : Nat) : Dinode := getDinode b (64 * slot)

def writeDinode (b : Bytes) (slot : Nat) (d : Dinode) : Bytes := overlay b (64 * slot) 64 d.byte

theorem getDinode_congr {b b' : Bytes} {o : Nat} (h : ∀ k < 64, b (o + k) = b' (o + k)) :
    getDinode b o = getDinode b' o := by
  have h16 : ∀ c, c + 2 ≤ 64 → get16 b (o + c) = get16 b' (o + c) := by
    intro c hc
    refine get16_congr fun k hk => ?_
    rw [Nat.add_assoc]
    exact h (c + k) (by omega)
  have h32 : ∀ c, c + 4 ≤ 64 → get32 b (o + c) = get32 b' (o + c) := by
    intro c hc
    refine get32_congr fun k hk => ?_
    rw [Nat.add_assoc]
    exact h (c + k) (by omega)
  have h0 := h16 0 (by omega)
  rw [Nat.add_zero] at h0
  have haddrs : (fun i : Fin 13 => get32 b (o + 12 + 4 * i.val)) =
      fun i : Fin 13 => get32 b' (o + 12 + 4 * i.val) := by
    funext i
    rw [Nat.add_assoc]
    exact h32 (12 + 4 * i.val) (by omega)
  unfold getDinode
  rw [h0, h16 2 (by omega), h16 4 (by omega), h16 6 (by omega), h32 8 (by omega), haddrs]

theorem getDinode_of_bytes {b : Bytes} {o : Nat} (d : Dinode)
    (h : ∀ k < 64, b (o + k) = d.byte k) : getDinode b o = d := by
  have h16 : ∀ c, ∀ v : Int16, c + 2 ≤ 64 → (∀ k < 2, d.byte (c + k) = byteOf v.toUInt16.toNat k) →
      (get16 b (o + c)).toInt16 = v := by
    intro c v hc hbyte
    have hget : get16 b (o + c) = v.toUInt16 := by
      refine get16_of_bytes fun k hk => ?_
      rw [Nat.add_assoc, h (c + k) (by omega), hbyte k hk]
    rw [hget]
    rfl
  have h32 : ∀ c, ∀ v : UInt32, c + 4 ≤ 64 → (∀ k < 4, d.byte (c + k) = byteOf v.toNat k) →
      get32 b (o + c) = v := by
    intro c v hc hbyte
    refine get32_of_bytes fun k hk => ?_
    rw [Nat.add_assoc, h (c + k) (by omega), hbyte k hk]
  have htype := h16 0 d.type (by omega) fun k hk => by
    rw [Nat.zero_add]
    exact if_pos hk
  rw [Nat.add_zero] at htype
  have hmajor := h16 2 d.major (by omega) fun k hk => by
    unfold Dinode.byte
    rw [if_neg (by omega), if_pos (by omega), Nat.add_sub_cancel_left]
  have hminor := h16 4 d.minor (by omega) fun k hk => by
    unfold Dinode.byte
    rw [if_neg (by omega), if_neg (by omega), if_pos (by omega), Nat.add_sub_cancel_left]
  have hnlink := h16 6 d.nlink (by omega) fun k hk => by
    unfold Dinode.byte
    rw [if_neg (by omega), if_neg (by omega), if_neg (by omega), if_pos (by omega),
      Nat.add_sub_cancel_left]
  have hsize := h32 8 d.size (by omega) fun k hk => by
    unfold Dinode.byte
    rw [if_neg (by omega), if_neg (by omega), if_neg (by omega), if_neg (by omega),
      if_pos (by omega), Nat.add_sub_cancel_left]
  have haddrs : (fun i : Fin 13 => get32 b (o + 12 + 4 * i.val)) = d.addrs := by
    funext i
    rw [Nat.add_assoc]
    refine h32 (12 + 4 * i.val) (d.addrs i) (by omega) fun k hk => ?_
    unfold Dinode.byte
    rw [if_neg (by omega), if_neg (by omega), if_neg (by omega), if_neg (by omega),
      if_neg (by omega)]
    have hidx : Fin.ofNat 13 ((12 + 4 * i.val + k - 12) / 4) = i := by
      apply Fin.ext
      show (12 + 4 * i.val + k - 12) / 4 % 13 = i.val
      omega
    rw [hidx, show (12 + 4 * i.val + k - 12) % 4 = k by omega]
  unfold getDinode
  rw [htype, hmajor, hminor, hnlink, hsize, haddrs]

theorem readDinode_writeDinode (b : Bytes) (slot slot' : Nat) (d : Dinode) :
    readDinode (writeDinode b slot d) slot' = if slot' = slot then d else readDinode b slot' := by
  unfold readDinode writeDinode
  split
  · next h =>
    subst h
    exact getDinode_of_bytes d fun k hk => overlay_add b _ hk
  · next h =>
    refine getDinode_congr fun k hk => overlay_of_notMem b _ ?_
    omega

/-! ## §3. The disk. -/

abbrev Disk := Nat → Bytes

section Disk

variable (sb : Superblock) (disk : Disk)

def bitAt (b : Nat) : Bool := getBit (disk (sb.BBLOCK b)) (b % BPB)

def setBitAt (b : Nat) (v : Bool) : Disk :=
  put disk (sb.BBLOCK b) (setBit (disk (sb.BBLOCK b)) (b % BPB) v)

def dinodeAt (inum : Nat) : Dinode := readDinode (disk (sb.IBLOCK inum)) (inum % IPB)

def setDinodeAt (inum : Nat) (d : Dinode) : Disk :=
  put disk (sb.IBLOCK inum) (writeDinode (disk (sb.IBLOCK inum)) (inum % IPB) d)

end Disk

/-! ## §4. What a write changes. -/

section Writes

variable {sb : Superblock} {disk : Disk} {c inum : Nat} {d : Dinode}

theorem dinodeAt_setDinodeAt (i j : Nat) :
    dinodeAt sb (setDinodeAt sb disk i d) j = if j = i then d else dinodeAt sb disk j := by
  unfold dinodeAt setDinodeAt
  by_cases hblock : sb.IBLOCK j = sb.IBLOCK i
  · rw [hblock, put_self, readDinode_writeDinode]
    have hiff : j % IPB = i % IPB ↔ j = i := by
      unfold Superblock.IBLOCK IPB at *
      omega
    simp only [hiff]
  · have hne : j ≠ i := by
      rintro rfl
      exact hblock rfl
    rw [put_of_ne hblock, if_neg hne]

variable (hsb : sb.Ok)

include hsb

theorem iblock_lt (hi : inum < sb.ninodes) : sb.IBLOCK inum < sb.bmapstart := by
  have h := hsb.inodes
  unfold Superblock.IBLOCK IPB at *
  omega

theorem bmapstart_le_nmeta : sb.bmapstart ≤ sb.nmeta := by
  have h := hsb.bitmap
  unfold BPB BSIZE at h
  omega

theorem setDinodeAt_data (hi : inum < sb.ninodes) (hc : sb.nmeta ≤ c) :
    setDinodeAt sb disk inum d c = disk c := by
  have hlt := iblock_lt hsb hi
  have hle := bmapstart_le_nmeta hsb
  exact put_of_ne (by omega)

end Writes

end Xv6.Fs
