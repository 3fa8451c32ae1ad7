/-
  Xv6.Mkfs.WellFormed — what main writes.

  The size of the root directory is rounded to `((off/BSIZE) + 1) * BSIZE`, one
  block more than it has if `off` is a multiple of BSIZE.
-/
import Xv6.Mkfs.Build

namespace Xv6.Mkfs

open Lib Fs List

/-! ## §1. The start. -/

theorem dinodeAt_start {i : Nat} : dinodeAt sb Image.start.disk i = Dinode.zero := by
  have hle : sb.inodestart ≤ sb.IBLOCK i := Nat.le_add_left _ _
  have hstart : sb.inodestart = 32 := rfl
  have hzero : Image.start.disk (sb.IBLOCK i) = fun _ => 0 := by
    show put (fun _ _ => 0) 1 sbBytes (sb.IBLOCK i) = _
    exact put_of_ne (by omega)
  unfold dinodeAt
  rw [hzero]
  refine getDinode_of_bytes Dinode.zero fun k hk => ?_
  have hall : ∀ k < 64, (0 : UInt8) = Dinode.zero.byte k := by decide
  exact hall k hk

def Files.none : Files := { n := 1, size := fun _ => 0, content := fun _ _ => 0, type := fun _ => 0 }

theorem onDisk_start : OnDisk Image.start Files.none [] := by
  have hsize : ∀ i, Files.none.size i = 0 := fun _ => rfl
  refine ⟨⟨⟨nodup_nil, ?_, ?_, ?_, ?_⟩, rfl, rfl, ?_, ?_, rfl, ?_, ?_⟩, ?_, ?_, ?_, ?_⟩
  · exact fun p hp => absurd hp not_mem_nil
  · intro i _ sl
    rw [dinodeAt_start, addrOf_of_notMem not_mem_nil]
    cases sl with
    | ind => rfl
    | data bn =>
      show (blockAddr _ Dinode.zero bn).toNat = 0
      rw [blockAddr_zero _ rfl]
      rfl
  · intro b hb _
    have hmeta : nmeta = 46 := rfl
    show put (fun _ _ => 0) 1 sbBytes b = _
    exact put_of_ne (by omega)
  · decide
  · intro i _ bn
    rw [hsize]
    exact ⟨fun h => absurd h not_mem_nil, fun h => absurd h (Nat.not_lt_zero bn)⟩
  · intro i _
    rw [hsize]
    exact ⟨fun h => absurd h not_mem_nil, fun h => absurd h (Nat.not_lt_zero _)⟩
  · exact fun i _ x hx => absurd hx (Nat.not_lt_zero x)
  · intro i hi hpos
    change i < 1 at hi
    omega
  · intro i _
    rw [dinodeAt_start]
    rfl
  · decide
  · exact fun i _ _ => dinodeAt_start
  · exact fun _ _ => rfl

theorem root_spec :
    ∃ img₁ img fs owners, (Image.start.ialloc T_DIR).2.addEntry ROOTINO dot = some img₁ ∧
      img₁.addEntry ROOTINO dotdot = some img ∧ Holding img fs owners [] [] := by
  obtain ⟨-, hdisk⟩ := onDisk_start.ialloc (by decide) T_DIR
  have hsize : (Files.none.add T_DIR).size ROOTINO = 0 := rfl
  have hblocks : (Files.none.add T_DIR).blocks = 0 := by rw [Files.blocks_add]; rfl
  obtain ⟨img₁, fs₁, owners₁, hdot, hdisk₁, happ₁⟩ := hdisk.addEntry (by decide) ROOTINO dot
    (by rw [hsize]; decide) (by rw [hsize, hblocks]; decide)
  have hlen : ∀ name, (direntList ROOTINO name).length = 16 := fun _ => by simp [direntList, DIRENT]
  have hsize₁ : fs₁.size ROOTINO = 16 := by rw [happ₁.size, hsize, hlen]
  have hblocks₁ : fs₁.blocks = 1 := by
    have h := happ₁.blocks
    rw [hsize₁, hsize, hblocks] at h
    exact h
  obtain ⟨img, fs, owners, hdotdot, hdisk', happ⟩ := hdisk₁.addEntry
    (by rw [happ₁.n]; decide) ROOTINO dotdot (by rw [hsize₁]; decide)
    (by rw [hsize₁, hblocks₁]; decide)
  have hsize' : fs.size ROOTINO = 32 := by rw [happ.size, hsize₁, hlen]
  refine ⟨img₁, img, fs, owners, hdot, hdotdot, hdisk', rfl, ?_, hsize', ?_, ?_, ?_, ?_, ?_, ?_⟩
  · rw [happ.n, happ₁.n]
    rfl
  · rw [happ.type, happ₁.type]
    rfl
  · intro e he k hk
    have hk16 : k < 16 := hk
    obtain rfl | rfl : e = 0 ∨ e = 1 := by
      simp only [length_nil] at he
      omega
    · have hnew := happ₁.new k (by rw [hlen]; exact hk)
      rw [hsize, cstr_direntList _ _ hk] at hnew
      rw [happ.old _ (by rw [hsize₁]; omega)]
      exact hnew
    · have hnew := happ.new k (by rw [hlen]; exact hk)
      rw [hsize₁, cstr_direntList _ _ hk] at hnew
      exact hnew
  · exact fun j hj => absurd hj (Nat.not_lt_zero j)
  · exact fun j hj => absurd hj (Nat.not_lt_zero j)
  · exact fun j hj => absurd hj (Nat.not_lt_zero j)
  · have h := happ.blocks
    rw [hsize', hsize₁, hblocks₁] at h
    have h' : fs.blocks = 1 := by
      have hused : blocksUsed 16 = 1 ∧ blocksUsed 32 = 1 := by decide
      omega
    rw [h']
    rfl

/-! ## §2. main. -/

structure Fits (files : List Image.Input) : Prop where
  names : ∀ f ∈ files, Image.shortname f.arg ≠ none
  sizes : ∀ f ∈ files, f.contents.length ≤ MAXFILE * BSIZE
  inodes : files.length + 2 ≤ NINODES
  blocks : spaceFor (files.length + 2) (files.map Image.Input.contents) ≤ FSSIZE

instance (files : List Image.Input) : Decidable (Fits files) :=
  decidable_of_iff
    ((∀ f ∈ files, Image.shortname f.arg ≠ none) ∧
      (∀ f ∈ files, f.contents.length ≤ MAXFILE * BSIZE) ∧ files.length + 2 ≤ NINODES ∧
      spaceFor (files.length + 2) (files.map Image.Input.contents) ≤ FSSIZE)
    ⟨fun ⟨h1, h2, h3, h4⟩ => ⟨h1, h2, h3, h4⟩, fun h => ⟨h.names, h.sizes, h.inodes, h.blocks⟩⟩

def shortnames (files : List Image.Input) : List (List UInt8) :=
  files.map fun f => (Image.shortname f.arg).getD []

/-- The image after the two last writes of main. -/
def Image.finish (img : Image) : Image := img.fixRoot.wsect sb.bmapstart (usedMap img.freeblock)

/-- **main comes to its end, and the image holds the files.** -/
theorem main_spec {files : List Image.Input} (h : Fits files) :
    ∃ img fs owners, Image.main files = some img.finish ∧
      Holding img fs owners (shortnames files) (files.map Image.Input.contents) := by
  obtain ⟨img₁, img₂, fs₂, owners₂, hdot, hdotdot, hroot⟩ := root_spec
  have hshorts : files.map (fun f => Image.shortname f.arg) = (shortnames files).map some := by
    unfold shortnames
    rw [map_map]
    apply map_congr_left
    intro f hf
    obtain ⟨name, hname⟩ := Option.ne_none_iff_exists'.mp (h.names f hf)
    show _ = some ((Image.shortname f.arg).getD [])
    rw [hname]
    rfl
  have hinodes := h.inodes
  have hblocks := h.blocks
  rw [← Nat.zero_add files.length] at hinodes hblocks
  obtain ⟨img, fs, owners, hfiles, hhold⟩ := Holding.addFiles files (shortnames files) img₂ fs₂
    owners₂ [] [] hroot hshorts hinodes h.sizes hblocks
  refine ⟨img, fs, owners, ?_, hhold⟩
  have hused : img.freeblock < BPB := by
    rw [hhold.disk.built.freeblock]
    have hroom := hhold.disk.built.alloc.room
    have hF : FSSIZE = 2000 := rfl
    have hP : BPB = 8192 := rfl
    omega
  unfold Image.main
  dsimp only
  rw [show (Image.start.ialloc T_DIR).1 = ROOTINO from rfl, if_pos rfl, hdot, Option.bind_some, hdotdot,
    Option.bind_some, hfiles, Option.bind_some]
  unfold Image.balloc
  rw [if_pos hused]
  rfl

/-! ## §3. The finished image. -/

section Finish

variable {img : Image} {fs : Files} {owners : List (Nat × AddrSlot)}
  {names files : List (List UInt8)}

def roundedSize (size : Nat) : Nat := (size / BSIZE + 1) * BSIZE

theorem getBit_foldl_setBit (l : List Nat) (buf : Bytes) (b : Nat) :
    getBit (l.foldl (fun buf i => setBit buf i true) buf) b = (decide (b ∈ l) || getBit buf b) := by
  induction l generalizing buf with
  | nil => simp
  | cons i l ih =>
    rw [foldl_cons, ih, getBit_setBit]
    by_cases hb : b = i
    · simp [hb]
    · simp [hb]

theorem getBit_usedMap (used b : Nat) : getBit (Image.usedMap used) b = decide (b < used) := by
  have hzero : getBit (fun _ => 0) b = false := by
    unfold getBit
    simp
  unfold Image.usedMap
  rw [getBit_foldl_setBit, hzero, Bool.or_false]
  simp

theorem bitAt_finish (img : Image) {b : Nat} (hb : b < FSSIZE) :
    bitAt sb img.finish.disk b = decide (b < img.freeblock) := by
  have hF : FSSIZE = 2000 := rfl
  have hP : BPB = 8192 := rfl
  have hblock : sb.BBLOCK b = sb.bmapstart := by
    unfold Superblock.BBLOCK
    rw [Nat.div_eq_of_lt (by omega), Nat.zero_add]
  unfold bitAt
  rw [hblock, Nat.mod_eq_of_lt (by omega)]
  have hmap : img.finish.disk sb.bmapstart = Image.usedMap img.freeblock := by
    show put img.fixRoot.disk sb.bmapstart _ sb.bmapstart = _
    exact put_self ..
  rw [hmap, getBit_usedMap]

variable {i : Nat}

theorem dinodeAt_finish (img : Image) (hi : i < NINODES) : dinodeAt sb img.finish.disk i =
      if i = ROOTINO then { dinodeAt sb img.disk ROOTINO with
          size := .ofNat (roundedSize (dinodeAt sb img.disk ROOTINO).size.toNat) }
      else dinodeAt sb img.disk i := by
  have hlt : sb.IBLOCK i < sb.bmapstart := iblock_lt sb_ok hi
  have hsame : dinodeAt sb img.finish.disk i = dinodeAt sb img.fixRoot.disk i := by
    unfold dinodeAt
    show readDinode (put img.fixRoot.disk sb.bmapstart _ (sb.IBLOCK i)) _ = _
    rw [put_of_ne (Nat.ne_of_lt hlt)]
  rw [hsame]
  exact dinodeAt_setDinodeAt ROOTINO i

theorem finish_data (img : Image) {b : Nat} (hb : nmeta ≤ b) : img.finish.disk b = img.disk b := by
  have hmeta : nmeta = 46 := rfl
  have hmap : sb.bmapstart = 45 := rfl
  show put img.fixRoot.disk sb.bmapstart _ b = _
  rw [put_of_ne (by omega)]
  exact setDinodeAt_data sb_ok (by decide) (by rw [sb_nmeta]; exact hb)

section

variable (h : OnDisk img fs owners)

include h

theorem finish_boot {b : Nat} (hb : b < sb.inodestart) :
    img.finish.disk b = Image.start.disk b := by
  have hstart : sb.inodestart = 32 := rfl
  have hmap : sb.bmapstart = 45 := rfl
  have hblock : sb.IBLOCK ROOTINO = 32 := rfl
  show put img.fixRoot.disk sb.bmapstart _ b = _
  rw [put_of_ne (by omega)]
  show put img.disk (sb.IBLOCK ROOTINO) _ b = _
  rw [put_of_ne (by omega)]
  exact h.boot b hb

theorem OnDisk.finish : Built (dinodeAt sb img.finish.disk) img.finish fs owners := by
  refine h.built.congr ?_ (fun b hb => finish_data img hb) rfl rfl
  intro i hi
  rw [dinodeAt_finish img (Nat.lt_of_lt_of_le hi h.inodes)]
  split
  case isTrue hroot =>
    rw [hroot]
    exact ⟨rfl, rfl, rfl⟩
  case isFalse => exact ⟨rfl, rfl, rfl⟩

theorem OnDisk.finish_free (hroot : ROOTINO < fs.n)
    (hi : fs.n ≤ i) (hlt : i < NINODES) : dinodeAt sb img.finish.disk i = Dinode.zero := by
  rw [dinodeAt_finish img hlt, if_neg (by omega)]
  exact h.free i hi hlt

theorem OnDisk.finish_size (hi : i < fs.n)
    (hne : i ≠ ROOTINO) : (dinodeAt sb img.finish.disk i).size.toNat = fs.size i := by
  rw [dinodeAt_finish img (Nat.lt_of_lt_of_le hi h.inodes), if_neg hne]
  exact h.size i hi

end

theorem Holding.finish_root (h : Holding img fs owners names files) :
    (dinodeAt sb img.finish.disk ROOTINO).size.toNat = roundedSize (DIRENT * (files.length + 2)) := by
  have hn := h.n
  have hinodes := h.disk.inodes
  have hN : NINODES = 200 := rfl
  have hD : DIRENT = 16 := rfl
  have hB : BSIZE = 1024 := rfl
  rw [dinodeAt_finish img (by decide), if_pos rfl]
  show (UInt32.ofNat _).toNat = _
  rw [h.disk.size ROOTINO (by rw [hn]; exact Nat.lt_of_lt_of_le (by decide) (Nat.le_add_left _ _)),
    h.rootSize]
  refine UInt32.toNat_ofNat_of_lt' ?_
  unfold roundedSize
  rw [hD, hB, UInt32.size]
  omega

/-! ## §4. Well-formed images. -/

/-- A block of the layout, or one that an inode maps. -/
def InUse (disk : Disk) (b : Nat) : Prop :=
  b < sb.nmeta ∨ ∃ i < sb.ninodes, ∃ sl, (slotVal disk (dinodeAt sb disk i) sl).toNat = b

structure WellFormed (disk : Disk) : Prop where
  /-- Every block index below ceil(size/BSIZE) is mapped. -/
  mapped : ∀ i < sb.ninodes, Mapped disk (dinodeAt sb disk i)
  /-- What is mapped is a data block. -/
  data : ∀ i < sb.ninodes, ∀ sl, slotVal disk (dinodeAt sb disk i) sl ≠ 0 →
    sb.nmeta ≤ (slotVal disk (dinodeAt sb disk i) sl).toNat ∧
      (slotVal disk (dinodeAt sb disk i) sl).toNat < sb.size
  /-- No two places map the same block. -/
  distinct : ∀ i < sb.ninodes, ∀ j < sb.ninodes, ∀ sl sl',
    slotVal disk (dinodeAt sb disk i) sl ≠ 0 →
      slotVal disk (dinodeAt sb disk i) sl = slotVal disk (dinodeAt sb disk j) sl' →
        i = j ∧ sl = sl'
  /-- The bits of the blocks in use are set, the others are clear. -/
  bits : ∀ b < sb.size, bitAt sb disk b = true ↔ InUse disk b

section

variable (h : Holding img fs owners names files)

include h

theorem Holding.slotVal_finish (hi : i < NINODES) (sl : AddrSlot) :
    (slotVal img.finish.disk (dinodeAt sb img.finish.disk i) sl).toNat = addrOf owners (i, sl) := by
  by_cases hlt : i < fs.n
  · exact h.disk.finish.alloc.val i hlt sl
  · have hroot : ROOTINO < fs.n := by
      have hn := h.n
      have hR : ROOTINO = 1 := rfl
      omega
    rw [h.disk.finish_free hroot (Nat.le_of_not_lt hlt) hi, addrOf_of_notMem fun hmem =>
      hlt (h.disk.built.alloc.lt _ hmem)]
    cases sl with
    | ind => rfl
    | data bn =>
      show (blockAddr _ Dinode.zero bn).toNat = 0
      rw [blockAddr_zero _ rfl]
      rfl

theorem Holding.slotVal_ne_zero (hi : i < NINODES) (sl : AddrSlot) :
    slotVal img.finish.disk (dinodeAt sb img.finish.disk i) sl ≠ 0 ↔ (i, sl) ∈ owners := by
  rw [← addrOf_pos_iff, ← h.slotVal_finish hi, Nat.pos_iff_ne_zero, ne_eq, ne_eq,
    ← UInt32.toNat_inj, UInt32.toNat_zero]

theorem Holding.mapped_iff (hi : i < NINODES) :
    Mapped img.finish.disk (dinodeAt sb img.finish.disk i) ↔
      i = ROOTINO → (files.length + 2) % (BSIZE / DIRENT) ≠ 0 := by
  have hn := h.n
  have hR : ROOTINO = 1 := rfl
  have hroot : ROOTINO < fs.n := by omega
  have hmem : ∀ bn, blockAddr img.finish.disk (dinodeAt sb img.finish.disk i) bn ≠ 0 ↔
      (i, .data bn) ∈ owners := fun bn => h.slotVal_ne_zero hi (.data bn)
  unfold Mapped
  simp only [hmem]
  by_cases hlt : i < fs.n
  · simp only [h.disk.built.data i hlt]
    by_cases hi1 : i = ROOTINO
    · -- the root directory: its size is that of one block more if the last is full
      rw [hi1, h.finish_root, h.rootSize]
      have hD : DIRENT = 16 := rfl
      have hB : BSIZE = 1024 := rfl
      unfold blocksIn roundedSize
      rw [hB, hD]
      constructor
      · intro hall _ hfull
        have hlast := hall (16 * (files.length + 2) / 1024) (by omega)
        omega
      · intro hfull bn hbn
        have hrest := hfull rfl
        omega
    · rw [h.disk.finish_size hlt hi1]
      exact ⟨fun _ he => absurd he hi1, fun _ bn hbn => hbn⟩
  · rw [h.disk.finish_free hroot (Nat.le_of_not_lt hlt) hi]
    exact ⟨fun _ he => absurd he (by omega), fun _ bn hbn => absurd hbn (Nat.not_lt_zero bn)⟩

/-- **The image is well formed unless the entries of the root directory fill
its last block.** -/
theorem Holding.wellFormed_iff :
    WellFormed img.finish.disk ↔ (files.length + 2) % (BSIZE / DIRENT) ≠ 0 := by
  constructor
  · intro hwf
    exact (h.mapped_iff (by decide)).mp (hwf.mapped ROOTINO (by decide)) rfl
  · intro hfull
    refine ⟨?_, ?_, ?_, ?_⟩
    · exact fun i hi => (h.mapped_iff hi).mpr fun _ => hfull
    · intro i hi sl hne
      have hrange := addrOf_of_mem ((h.slotVal_ne_zero hi sl).mp hne)
      have hroom := h.disk.built.alloc.room
      rw [h.slotVal_finish hi, sb_nmeta]
      exact ⟨hrange.1, Nat.lt_of_lt_of_le hrange.2 hroom⟩
    · intro i hi j hj sl sl' hne heq
      have hmem := (h.slotVal_ne_zero hi sl).mp hne
      have haddr : addrOf owners (i, sl) = addrOf owners (j, sl') := by
        rw [← h.slotVal_finish hi, ← h.slotVal_finish hj, heq]
      exact Prod.mk.injEq .. ▸ addrOf_inj hmem haddr
    · intro b hb
      have hb' : b < FSSIZE := hb
      rw [bitAt_finish img hb', decide_eq_true_iff, h.disk.built.freeblock]
      constructor
      · intro hlt
        by_cases hlow : b < nmeta
        · exact .inl hlow
        · obtain ⟨⟨i, sl⟩, hmem, haddr⟩ :=
            exists_owner h.disk.built.alloc.nodup (Nat.le_of_not_lt hlow) hlt
          have hi : i < NINODES := Nat.lt_of_lt_of_le (h.disk.built.alloc.lt _ hmem) h.disk.inodes
          exact .inr ⟨i, hi, sl, by rw [h.slotVal_finish hi]; exact haddr⟩
      · rintro (hlow | ⟨i, hi, sl, hval⟩)
        · exact Nat.lt_add_right _ hlow
        · rw [h.slotVal_finish hi] at hval
          by_cases hmem : (i, sl) ∈ owners
          · rw [← hval]
            exact (addrOf_of_mem hmem).2
          · rw [addrOf_of_notMem hmem] at hval
            have hmeta : nmeta = 46 := rfl
            omega

end

end Finish

/-- **mkfs makes a well-formed image if the last block of the root directory
is not full.** -/
theorem main_wellFormed {files : List Image.Input} (h : Fits files) :
    ∃ img, Image.main files = some img ∧
      (WellFormed img.disk ↔ (files.length + 2) % (BSIZE / DIRENT) ≠ 0) := by
  obtain ⟨img, fs, owners, hmain, hhold⟩ := main_spec h
  have hiff := hhold.wellFormed_iff
  rw [List.length_map] at hiff
  exact ⟨img.finish, hmain, hiff⟩

def emptyFiles (k : Nat) : List Image.Input :=
  (List.range k).map fun j => ⟨[97, UInt8.ofNat (48 + j)], []⟩

theorem main_wellFormed_emptyFiles :
    ∃ img, Image.main (emptyFiles 3) = some img ∧
      (WellFormed img.disk ↔ ((emptyFiles 3).length + 2) % (BSIZE / DIRENT) ≠ 0) :=
  main_wellFormed (by decide)

/-- With 62 files the root directory has a full block of entries, and a hole. -/
theorem root_has_hole :
    Fits (emptyFiles 62) ∧
      ∃ img, Image.main (emptyFiles 62) = some img ∧
        ¬ Mapped img.disk (dinodeAt sb img.disk ROOTINO) ∧ ¬ WellFormed img.disk := by
  have hfits : Fits (emptyFiles 62) := by decide
  refine ⟨hfits, ?_⟩
  obtain ⟨img, fs, owners, hmain, hhold⟩ := main_spec hfits
  have hhole : ¬ Mapped img.finish.disk (dinodeAt sb img.finish.disk ROOTINO) := by
    rw [hhold.mapped_iff (by decide)]
    decide
  exact ⟨img.finish, hmain, hhole, fun hwf => hhole (hwf.mapped ROOTINO (by decide))⟩

end Xv6.Mkfs
