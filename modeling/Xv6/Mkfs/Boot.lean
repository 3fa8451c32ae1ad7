/-
  Xv6.Mkfs.Boot — the kernel reads what mkfs wrote.

  fsinit accepts the image and finds nothing in the log, namei finds each input
  file, and readi returns its bytes, unless `off + n` wraps around.
-/
import Xv6.Mkfs.WellFormed
import Xv6.Fs.Lookup

namespace Xv6.Mkfs

open Lib Fs List

/-! ## §1. fsinit. -/

/-- Read the super block, with its magic number. -/
def readsb (disk : Disk) : UInt32 × Superblock :=
  let field := fun k => get32 (disk 1) (4 * k)
  (field 0,
    { size := (field 1).toNat
      nblocks := (field 2).toNat
      ninodes := (field 3).toNat
      nlog := (field 4).toNat
      logstart := (field 5).toNat
      inodestart := (field 6).toNat
      bmapstart := (field 7).toNat })

/-- `log.lh.n`, an `int`. -/
def headerLength (head : Bytes) : Nat := (get32 head 0).toInt32.toInt.toNat

/-- Copy committed blocks from log to their home location. -/
def installTrans (logstart : Nat) (head : Bytes) (disk : Disk) : Disk :=
  (List.range (headerLength head)).foldl (fun disk tail =>
    put disk (get32 head (4 * (tail + 1))).toNat (disk (logstart + tail + 1))) disk

def recoverFromLog (logstart : Nat) (disk : Disk) : Disk :=
  let disk := installTrans logstart (disk logstart) disk
  -- clear the log
  put disk logstart (put32 (disk logstart) 0 0)

def fsinit (disk : Disk) : Option (Superblock × Disk) :=
  let (magic, sb) := readsb disk
  if magic ≠ FSMAGIC then none else some (sb, recoverFromLog sb.logstart disk)

theorem get32_sbBytes {k : Nat} {v : UInt32} (h : sbFields.getD k 0 = v.toNat) :
    get32 sbBytes (4 * k) = v := by
  refine get32_of_bytes fun i hi => ?_
  unfold sbBytes
  rw [show (4 * k + i) / 4 = k by omega, show (4 * k + i) % 4 = i by omega, h]

theorem readsb_start : readsb Image.start.disk = (FSMAGIC, sb) := by
  have hblock : Image.start.disk 1 = sbBytes := by
    show put (fun _ _ => 0) 1 sbBytes 1 = _
    exact put_self ..
  unfold readsb
  dsimp only
  rw [hblock, get32_sbBytes (k := 0) (v := FSMAGIC) rfl, get32_sbBytes (k := 1) (v := .ofNat FSSIZE) rfl,
    get32_sbBytes (k := 2) (v := .ofNat nblocks) rfl, get32_sbBytes (k := 3) (v := .ofNat NINODES) rfl,
    get32_sbBytes (k := 4) (v := .ofNat nlog) rfl, get32_sbBytes (k := 5) (v := 2) rfl,
    get32_sbBytes (k := 6) (v := .ofNat sb.inodestart) rfl,
    get32_sbBytes (k := 7) (v := .ofNat sb.bmapstart) rfl]
  rfl

theorem recoverFromLog_clear {disk : Disk} {logstart : Nat} (h : disk logstart = fun _ => 0) :
    recoverFromLog logstart disk = disk := by
  have hn : headerLength (disk logstart) = 0 := by
    unfold headerLength
    rw [get32_of_zero fun _ _ => by rw [h]]
    rfl
  have hinstall : installTrans logstart (disk logstart) disk = disk := by
    unfold installTrans
    rw [hn]
    rfl
  have hhead : put32 (disk logstart) 0 0 = disk logstart := by
    funext i
    rw [h]
    unfold put32 overlay
    split
    case isTrue =>
      show byteOf 0 _ = 0
      unfold byteOf
      rw [Nat.zero_div]
      rfl
    case isFalse => rfl
  unfold recoverFromLog
  dsimp only
  rw [hinstall, hhead, put_eq_self]

section Finished

variable {img : Image} {fs : Files} {owners : List (Nat × AddrSlot)}
  {names files : List (List UInt8)}

theorem fsinit_finish (h : OnDisk img fs owners) :
    fsinit img.finish.disk = some (sb, img.finish.disk) := by
  have hread : readsb img.finish.disk = (FSMAGIC, sb) := by
    rw [← readsb_start]
    unfold readsb
    rw [finish_boot h (by decide : 1 < sb.inodestart)]
  have hlog : img.finish.disk sb.logstart = fun _ => 0 := by
    rw [finish_boot h (by decide : sb.logstart < sb.inodestart)]
    rfl
  unfold fsinit
  rw [hread]
  dsimp only
  rw [if_neg (not_not.mpr rfl), recoverFromLog_clear hlog]

/-! ## §2. The contents of files. -/

theorem byteAt_finish (h : OnDisk img fs owners) {i x : Nat} (hi : i < fs.n) (hx : x < fs.size i) :
    byteAt img.finish.disk (dinodeAt sb img.finish.disk i) x = fs.content i x := by
  have hval : (blockAddr img.finish.disk (dinodeAt sb img.finish.disk i) (x / BSIZE)).toNat = _ :=
    h.finish.alloc.val i hi (.data (x / BSIZE))
  unfold byteAt
  rw [hval]
  exact h.finish.content i hi x hx

variable {j : Nat}

theorem readBytes_finish (h : Holding img fs owners names files) (hj : j < files.length)
    (off n : UInt32) (hwrap : off.toNat + n.toNat < 2 ^ 32) :
    readBytes img.finish.disk (dinodeAt sb img.finish.disk (j + 2)) off n =
      ((files.getD j []).drop off.toNat).take n.toNat := by
  have hn := h.n
  have hR : ROOTINO = 1 := rfl
  have hsize : (dinodeAt sb img.finish.disk (j + 2)).size.toNat = (files.getD j []).length := by
    rw [h.disk.finish_size (by omega) (by omega)]
    exact h.size j hj
  unfold readBytes
  by_cases hoff : off.toNat ≤ (files.getD j []).length
  · have hin : ¬ (off > (dinodeAt sb img.finish.disk (j + 2)).size ∨ off + n < off) := by
      rw [not_or]
      constructor
      · intro hgt
        have h' := UInt32.lt_iff_toNat_lt.mp hgt
        omega
      · intro hlt
        have h' := UInt32.lt_iff_toNat_lt.mp hlt
        rw [UInt32.toNat_add] at h'
        omega
    rw [if_neg hin, hsize]
    apply ext_getElem
    · simp
    · intro k hk hk'
      rw [getElem_bytesFrom, getElem_take, getElem_drop]
      rw [length_bytesFrom] at hk
      rw [byteAt_finish h.disk (by omega) (by rw [h.size j hj]; omega), h.content j hj _ (by omega)]
      exact getD_eq_getElem _ _ (by omega)
  · have hgt : off > (dinodeAt sb img.finish.disk (j + 2)).size :=
      UInt32.lt_iff_toNat_lt.mpr (by omega)
    rw [if_pos (.inl hgt), drop_eq_nil_of_le (by omega), take_nil]

/-! ## §3. The names. -/

def entryName (names : List (List UInt8)) : Nat → List UInt8
  | 0 => [46]
  | 1 => [46, 46]
  | e + 2 => names.getD e []

theorem entryAt_name (names : List (List UInt8)) (e : Nat) :
    (entryAt names e).2 = cstr (entryName names e) := by
  match e with
  | 0 => rfl
  | 1 => rfl
  | _ + 2 => rfl

theorem direntAt_finish (h : Holding img fs owners names files) {e : Nat}
    (he : e < files.length + 2) (hnul : 0 ∉ entryName names e) (name : Bytes) :
    direntInum (direntAt img.finish.disk (dinodeAt sb img.finish.disk ROOTINO) e) =
        .ofNat (entryAt names e).1 ∧
      namecmp name (direntName (direntAt img.finish.disk (dinodeAt sb img.finish.disk ROOTINO) e)) =
        namecmp name (cstr (entryName names e)) := by
  have hD : DIRENT = 16 := rfl
  have hR : ROOTINO = 1 := rfl
  have hn := h.n
  have hbytes : ∀ k < DIRENT, direntAt img.finish.disk (dinodeAt sb img.finish.disk ROOTINO) e k =
      entryBytes names e k := by
    intro k hk
    unfold direntAt cstr
    rw [getD_eq_getElem _ _ (by rw [length_bytesFrom]; exact hk)]
    rw [getElem_bytesFrom, byteAt_finish h.disk (by omega) ?_, h.entry e he k hk]
    rw [h.rootSize, hD]
    omega
  constructor
  · refine get16_of_bytes fun k hk => ?_
    rw [Nat.zero_add, hbytes k (by omega)]
    exact if_pos hk
  · refine strncmp_congr DIRSIZ 0 fun k hk => ?_
    have hS : DIRSIZ = 14 := rfl
    rw [Nat.zero_add]
    show direntAt _ _ e (2 + k) = _
    rw [hbytes (2 + k) (by omega)]
    show (if 2 + k < 2 then _ else strncpy (entryAt names e).2 (2 + k - 2)) = _
    rw [if_neg (by omega), entryAt_name, strncpy_cstr hnul, Nat.add_sub_cancel_left]

/-- Distinct names other than "." and "..". -/
structure Named (names : List (List UInt8)) : Prop where
  nodup : names.Nodup
  isName : ∀ l ∈ names, IsName l
  dot : [46] ∉ names
  dotdot : [46, 46] ∉ names

theorem Named.getD_mem (hj : j < names.length) : names.getD j [] ∈ names := by
  rw [getD_eq_getElem _ _ hj]
  exact getElem_mem hj

theorem Named.entry (h : Named names) {e : Nat} (he : e < names.length + 2) :
    0 ∉ entryName names e ∧ (entryName names e).length ≤ DIRSIZ := by
  match e with
  | 0 => exact (by decide : (0 : UInt8) ∉ [46] ∧ [(46 : UInt8)].length ≤ DIRSIZ)
  | 1 => exact (by decide : (0 : UInt8) ∉ [46, 46] ∧ [(46 : UInt8), 46].length ≤ DIRSIZ)
  | e + 2 =>
    have hname := h.isName _ (Named.getD_mem (j := e) (by omega))
    exact ⟨hname.nul, hname.length⟩

theorem Named.ne_entryName (h : Named names) {j e : Nat} (hj : j < names.length) (he : e < j + 2) :
    names.getD j [] ≠ entryName names e := by
  have hmem := Named.getD_mem hj
  match e with
  | 0 =>
    intro heq
    rw [heq] at hmem
    exact h.dot hmem
  | 1 =>
    intro heq
    rw [heq] at hmem
    exact h.dotdot hmem
  | e + 2 =>
    intro heq
    change names.getD j [] = names.getD e [] at heq
    rw [getD_eq_getElem _ _ hj, getD_eq_getElem _ _ (by omega)] at heq
    have hidx := (h.nodup.getElem_inj_iff).mp heq
    omega

theorem firstEntry_finish (h : Holding img fs owners names files) (hnames : Named names)
    (hj : j < files.length) :
    FirstEntry img.finish.disk (dinodeAt sb img.finish.disk ROOTINO) (cstr (names.getD j []))
      (j + 2) := by
  have hD : DIRENT = 16 := rfl
  have hB : BSIZE = 1024 := rfl
  have hR : ROOTINO = 1 := rfl
  have hN : NINODES = 200 := rfl
  have hn := h.n
  have hinodes := h.disk.inodes
  have hlen := h.length
  have hcmp : ∀ e < files.length + 2,
      namecmp (cstr (names.getD j [])) (direntName
        (direntAt img.finish.disk (dinodeAt sb img.finish.disk ROOTINO) e)) = 0 ↔
      names.getD j [] = entryName names e := by
    intro e he
    have hentry := hnames.entry (e := e) (by omega)
    have hname := hnames.isName _ (Named.getD_mem (j := j) (by omega))
    rw [(direntAt_finish h he hentry.1 _).2, namecmp_cstr hname.nul hentry.1 hname.length hentry.2]
  refine ⟨?_, ?_, ?_, ?_, ?_⟩
  · rw [h.finish_root]
    unfold roundedSize
    rw [hD, hB]
    omega
  · intro x hx
    have hslot := h.slotVal_ne_zero (i := ROOTINO) (by decide) (.data (x / BSIZE))
    refine hslot.mpr ((h.disk.built.data ROOTINO (by omega) _).mpr (lt_blocksIn ?_))
    rw [h.rootSize]
    rw [hD] at hx ⊢
    omega
  · intro e he
    exact .inr fun hzero => hnames.ne_entryName (by omega) he ((hcmp e (by omega)).mp hzero)
  · have hentry := hnames.entry (e := j + 2) (by omega)
    rw [(direntAt_finish h (by omega) hentry.1 (cstr [])).1]
    intro hzero
    have hnat := congrArg UInt16.toNat hzero
    have hsmall : (UInt16.ofNat (j + 2)).toNat = j + 2 :=
      UInt16.toNat_ofNat_of_lt' (by rw [UInt16.size]; omega)
    have hzero' : (UInt16.ofNat (j + 2)).toNat = 0 := hnat
    omega
  · exact (hcmp (j + 2) (by omega)).mpr rfl

/-! ## §4. Lookup and reading. -/

variable {s : State}

theorem file_found (h : Holding img fs owners names files) (hnames : Named names)
    (hdisk : s.disk = img.finish.disk) (hidle : Idle sb s) (cwd : Option (Fin NINODE))
    (hj : j < files.length) :
    ∃ ip s₁ s₂, namei sb cwd (SLASH :: names.getD j []) s = .ok (some ip, s₁) ∧
      ilock sb ip s₁ = .ok ((), s₂) ∧ s₂.disk = img.finish.disk ∧
      (s₂.itable ip).copy = dinodeAt sb img.finish.disk (j + 2) := by
  have hR : ROOTINO = 1 := rfl
  have hN : NINODES = 200 := rfl
  have hn := h.n
  have hinodes := h.disk.inodes
  have hlen := h.length
  have hname := hnames.isName _ (Named.getD_mem (j := j) (by omega))
  have hroot := h.disk.finish.inode ROOTINO (by omega) (by decide)
  have hfile := h.disk.finish.inode (j + 2) (by omega) (by omega)
  have hinum : (direntInum (direntAt img.finish.disk (dinodeAt sb img.finish.disk ROOTINO)
      (j + 2))).toNat = j + 2 := by
    have hentry := hnames.entry (e := j + 2) (by omega)
    rw [(direntAt_finish h (by omega) hentry.1 (cstr [])).1]
    show (UInt16.ofNat (j + 2)).toNat = j + 2
    exact UInt16.toNat_ofNat_of_lt' (by rw [UInt16.size]; omega)
  obtain ⟨ip, s₁, hnamei, hsettled, hdisk₁, href, hunlocked, hnumber⟩ := namei_root sb hidle cwd hname
    (by rw [hdisk, hroot.1, h.rootType]) (by rw [hdisk, hroot.2]; decide)
    (by rw [hdisk]; exact firstEntry_finish h hnames hj) (by rw [hdisk, hinum]; omega)
  rw [hdisk, hinum] at hnumber
  rw [hdisk] at hdisk₁
  obtain ⟨s₂, hlock, -, honly, hat⟩ := ilock_run hsettled href hunlocked
    (by rw [hdisk₁, hnumber, hfile.1, h.type j hj]; decide)
  refine ⟨ip, s₁, s₂, hnamei, hlock, honly.disk.trans hdisk₁, ?_⟩
  rw [hat, hdisk₁, hnumber]

theorem file_read (h : Holding img fs owners names files) {ip : Fin NINODE}
    (hj : j < files.length) (hdisk : s.disk = img.finish.disk)
    (hcopy : (s.itable ip).copy = dinodeAt sb img.finish.disk (j + 2)) (off n : UInt32) :
    readi sb ip off n (fun _ _ => true) s =
      .ok (some (readBytes img.finish.disk (dinodeAt sb img.finish.disk (j + 2)) off n), s) := by
  have hR : ROOTINO = 1 := rfl
  have hn := h.n
  have hinodes := h.disk.inodes
  have hmapped : Mapped s.disk (s.itable ip).copy := by
    rw [hdisk, hcopy]
    exact (h.mapped_iff (by omega)).mpr fun hroot => by omega
  obtain ⟨r, hread, hr⟩ := readi_mapped sb off n (fun _ _ => true) hmapped
  rw [hread, hr fun _ _ => rfl, hdisk, hcopy]

end Finished

/-! ## §5. mkfs and the kernel. -/

/-- The names are those of C strings, distinct, not empty and not "." or "..". -/
structure Distinct (files : List Image.Input) : Prop where
  nodup : (shortnames files).Nodup
  nonempty : [] ∉ shortnames files
  nul : ∀ l ∈ shortnames files, 0 ∉ l
  dot : [46] ∉ shortnames files
  dotdot : [46, 46] ∉ shortnames files

theorem shortname_spec {arg name : List UInt8} (h : Image.shortname arg = some name) :
    SLASH ∉ name ∧ name.length ≤ DIRSIZ := by
  obtain ⟨rest, hrest⟩ : ∃ rest, rest = if arg.take 5 = Image.userDir then arg.drop 5 else arg :=
    ⟨_, rfl⟩
  unfold Image.shortname at h
  dsimp only at h
  rw [← hrest] at h
  split at h
  case isTrue => cases h
  case isFalse hslash =>
    obtain ⟨short, hshort⟩ : ∃ short, short =
      if rest.head? = some Image.UNDERSCORE then rest.tail else rest := ⟨_, rfl⟩
    rw [← hshort] at h
    have hnot : SLASH ∉ short := by
      rw [hshort]
      split
      case isTrue => exact fun hmem => hslash (mem_of_mem_tail hmem)
      case isFalse => exact hslash
    split at h
    case isFalse => cases h
    case isTrue hlen =>
      cases h
      exact ⟨hnot, hlen⟩

theorem Distinct.named {files : List Image.Input} (h : Distinct files) (hfits : Fits files) :
    Named (shortnames files) := by
  refine ⟨h.nodup, ?_, h.dot, h.dotdot⟩
  intro l hl
  obtain ⟨f, hf, hfl⟩ := mem_map.mp hl
  obtain ⟨name, hname⟩ := Option.ne_none_iff_exists'.mp (hfits.names f hf)
  rw [hname] at hfl
  change name = l at hfl
  rw [hfl] at hname
  obtain ⟨hslash, hlen⟩ := shortname_spec hname
  exact ⟨fun hnil => h.nonempty (hnil ▸ hl), hslash, h.nul l hl, hlen⟩

/-- **mkfs writes what the kernel reads**: fsinit accepts the image, namei finds every file, and
readi returns its bytes. -/
theorem main_readable {files : List Image.Input} (h : Fits files) (hnames : Distinct files) :
    ∃ img, Image.main files = some img ∧ fsinit img.disk = some (sb, img.disk) ∧
      ∀ s, s.disk = img.disk → Idle sb s → ∀ cwd, ∀ j < files.length,
        ∃ ip s₁ s₂, namei sb cwd (SLASH :: (shortnames files).getD j []) s = .ok (some ip, s₁) ∧
          ilock sb ip s₁ = .ok ((), s₂) ∧
          (s₂.itable ip).copy.size.toNat = ((files.map Image.Input.contents).getD j []).length ∧
          ∀ off n : UInt32, off.toNat + n.toNat < 2 ^ 32 →
            readi sb ip off n (fun _ _ => true) s₂ =
              .ok (some ((((files.map Image.Input.contents).getD j []).drop off.toNat).take n.toNat),
                s₂) := by
  obtain ⟨img, fs, owners, hmain, hhold⟩ := main_spec h
  refine ⟨img.finish, hmain, fsinit_finish hhold.disk, ?_⟩
  intro s hdisk hidle cwd j hj
  have hj' : j < (files.map Image.Input.contents).length := by
    rw [List.length_map]
    exact hj
  obtain ⟨ip, s₁, s₂, hnamei, hlock, hdisk₂, hcopy⟩ :=
    file_found hhold (hnames.named h) hdisk hidle cwd hj'
  refine ⟨ip, s₁, s₂, hnamei, hlock, ?_, ?_⟩
  · have hn := hhold.n
    have hR : ROOTINO = 1 := rfl
    rw [hcopy, hhold.disk.finish_size (by omega) (by omega), hhold.size j hj']
  · intro off n hwrap
    rw [file_read hhold hj' hdisk₂ hcopy, readBytes_finish hhold hj' off n hwrap]

def bootState (disk : Disk) : State :=
  { disk := disk
    itable := fun _ => { inum := 0, ref := 0, locked := false, valid := false, copy := Dinode.zero }
    lh := []
    trace := [] }

theorem idle_bootState (disk : Disk) : Idle sb (bootState disk) := by
  refine ⟨⟨fun _ => le_rfl, fun _ hpos => ?_⟩, fun _ => rfl, 0, 1, by decide, rfl, rfl⟩
  exact absurd hpos (Int.lt_irrefl 0)

def oneFile : List Image.Input := [⟨[97], [[1, 2], [3]]⟩]

theorem distinct_oneFile : Distinct oneFile :=
  ⟨by decide, by decide, by decide, by decide, by decide⟩

theorem main_readable_oneFile :
    ∃ img, Image.main oneFile = some img ∧
      ∃ ip s₁ s₂, namei sb none [47, 97] (bootState img.disk) = .ok (some ip, s₁) ∧
        ilock sb ip s₁ = .ok ((), s₂) ∧
        readi sb ip 1 100 (fun _ _ => true) s₂ = .ok (some [2, 3], s₂) := by
  obtain ⟨img, hmain, -, hread⟩ := @main_readable oneFile (by decide) distinct_oneFile
  obtain ⟨ip, s₁, s₂, hnamei, hlock, -, hbytes⟩ :=
    hread (bootState img.disk) rfl (idle_bootState _) none 0 (by decide)
  exact ⟨img, hmain, ip, s₁, s₂, hnamei, hlock, hbytes 1 100 (by decide)⟩

/-- With `off = 1` and `n = -1` the sum wraps around, and readi returns 0. -/
theorem readi_wraps :
    Fits oneFile ∧ Distinct oneFile ∧ ∃ img, Image.main oneFile = some img ∧
      ∃ ip s₁ s₂, namei sb none [47, 97] (bootState img.disk) = .ok (some ip, s₁) ∧
        ilock sb ip s₁ = .ok ((), s₂) ∧
        readi sb ip 1 (-1) (fun _ _ => true) s₂ = .ok (some [], s₂) ∧
        (((oneFile.map Image.Input.contents).getD 0 []).drop 1).take (-1 : UInt32).toNat = [2, 3] := by
  have hfits : Fits oneFile := by decide
  obtain ⟨img, fs, owners, hmain, hhold⟩ := main_spec hfits
  obtain ⟨ip, s₁, s₂, hnamei, hlock, hdisk₂, hcopy⟩ := file_found hhold
    (distinct_oneFile.named hfits) (s := bootState img.finish.disk) rfl (idle_bootState _) none
    (j := 0) (by decide)
  refine ⟨hfits, distinct_oneFile, img.finish, hmain, ip, s₁, s₂, hnamei, hlock, ?_, by decide⟩
  rw [file_read hhold (by decide) hdisk₂ hcopy]
  unfold readBytes
  rw [if_pos (.inr (by decide))]

end Xv6.Mkfs
