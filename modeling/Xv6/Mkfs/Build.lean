/-
  Xv6.Mkfs.Build — the image that mkfs makes.
-/
import Xv6.Mkfs.Append

namespace Xv6.Mkfs

open Lib Fs List Option

/-! ## §1. iappend and ialloc on the disk. -/

theorem sb_ok : sb.Ok := by decide

theorem sb_nmeta : sb.nmeta = nmeta := rfl

structure OnDisk (img : Image) (fs : Files) (owners : List (Nat × AddrSlot)) : Prop where
  built : Built (dinodeAt sb img.disk) img fs owners
  size : ∀ i < fs.n, (dinodeAt sb img.disk i).size.toNat = fs.size i
  inodes : fs.n ≤ NINODES
  free : ∀ i, fs.n ≤ i → i < NINODES → dinodeAt sb img.disk i = Dinode.zero
  /-- The super block and the log are as at the start. -/
  boot : ∀ b < sb.inodestart, img.disk b = Image.start.disk b

/-- Bytes are added to the end of file `i`. -/
structure Appends (fs fs' : Files) (i : Nat) (l : List UInt8) : Prop where
  n : fs'.n = fs.n
  type : fs'.type = fs.type
  others : ∀ j, j ≠ i → fs'.size j = fs.size j ∧ fs'.content j = fs.content j
  size : fs'.size i = fs.size i + l.length
  old : ∀ x < fs.size i, fs'.content i x = fs.content i x
  new : ∀ k < l.length, fs'.content i (fs.size i + k) = cstr l k
  blocks : fs'.blocks + blocksUsed (fs.size i) = fs.blocks + blocksUsed (fs'.size i)

section OnDisk

variable {img : Image} {fs fs' fs'' : Files} {owners : List (Nat × AddrSlot)} {i : Nat}

theorem Appends.refl (fs : Files) (i : Nat) : Appends fs fs i [] :=
  ⟨rfl, rfl, fun _ _ => ⟨rfl, rfl⟩, rfl, fun _ _ => rfl, fun _ hk => absurd hk (Nat.not_lt_zero _),
    rfl⟩

theorem cstr_append_left (l k : List UInt8) {j : Nat} (h : j < l.length) :
    cstr (l ++ k) j = cstr l j := by
  unfold cstr
  rw [getD_append _ _ _ _ h]

theorem cstr_append_right (l k : List UInt8) (j : Nat) : cstr (l ++ k) (l.length + j) = cstr k j := by
  unfold cstr
  rw [getD_append_right _ _ _ _ (Nat.le_add_right _ _), Nat.add_sub_cancel_left]

theorem Appends.trans {l k : List UInt8} (h : Appends fs fs' i l) (h' : Appends fs' fs'' i k) :
    Appends fs fs'' i (l ++ k) := by
  have hsize := h.size
  have hsize' := h'.size
  refine ⟨h'.n.trans h.n, h'.type.trans h.type, ?_, ?_, ?_, ?_, ?_⟩
  · intro j hj
    rw [(h'.others j hj).1, (h'.others j hj).2]
    exact h.others j hj
  · rw [length_append]
    omega
  · intro x hx
    rw [h'.old x (by omega), h.old x hx]
  · intro m hm
    rw [length_append] at hm
    by_cases hlt : m < l.length
    · rw [h'.old _ (by omega), h.new m hlt, cstr_append_left l k hlt]
    · have hrest := h'.new (m - l.length) (by omega)
      rw [hsize, show fs.size i + l.length + (m - l.length) = fs.size i + m by omega] at hrest
      rw [hrest, ← cstr_append_right l k, show l.length + (m - l.length) = m by omega]
  · have hblocks := h.blocks
    have hblocks' := h'.blocks
    omega

theorem dinodeAt_of_low {disk disk' : Disk} (h : ∀ b < nmeta, disk' b = disk b) (hi : i < NINODES) :
    dinodeAt sb disk' i = dinodeAt sb disk i := by
  unfold dinodeAt
  rw [h]
  have hlt : sb.IBLOCK i < sb.bmapstart := iblock_lt sb_ok hi
  have hle := bmapstart_le_nmeta sb_ok
  rw [sb_nmeta] at hle
  omega

/-- **iappend adds bytes to the end of a file.** -/
theorem OnDisk.iappend (h : OnDisk img fs owners) (hi : i < fs.n) (l : List UInt8)
    {p : Bytes} (hp : ∀ k < l.length, p k = cstr l k)
    (hmax : fs.size i + l.length ≤ MAXFILE * BSIZE)
    (hroom : nmeta + (fs.blocks + blocksUsed (fs.size i + l.length)) ≤
      FSSIZE + blocksUsed (fs.size i)) :
    ∃ img' fs' owners', img.iappend i p l.length = some img' ∧ OnDisk img' fs' owners' ∧
      Appends fs fs' i l := by
  have hinum : i < NINODES := Nat.lt_of_lt_of_le hi h.inodes
  have hbuilt : Built (put (dinodeAt sb img.disk) i (img.rinode i)) img fs owners := by
    unfold Image.rinode
    rw [put_eq_self]
    exact h.built
  have hoff : (img.rinode i).size.toNat = fs.size i := h.size i hi
  obtain ⟨img₁, din', owners', hloop, hext⟩ :=
    hbuilt.loop p l.length img (img.rinode i) 0 (fs.size i) l.length fs owners hi rfl le_rfl hmax hroom
  obtain ⟨fs', hfs'⟩ : ∃ fs', fs' = fs.extend i (fs.size i + l.length)
      (overlay (fs.content i) (fs.size i) l.length fun k => p (0 + k)) := ⟨_, rfl⟩
  have hbuilt₁ := hext.built
  rw [← hfs'] at hbuilt₁
  have hn : fs'.n = fs.n := by rw [hfs']; rfl
  -- the inode goes to the disk
  obtain ⟨d, hd⟩ : ∃ d : Dinode, d = { din' with size := .ofNat (fs.size i + l.length) } := ⟨_, rfl⟩
  have hread : ∀ j < NINODES, dinodeAt sb (img₁.winode i d).disk j =
      if j = i then d else dinodeAt sb img.disk j := by
    intro j hj
    have hset : dinodeAt sb (setDinodeAt sb img₁.disk i d) j =
        if j = i then d else dinodeAt sb img₁.disk j := dinodeAt_setDinodeAt i j
    rw [dinodeAt_of_low hext.low hj] at hset
    exact hset
  have hdsize : d.size.toNat = fs.size i + l.length := by
    rw [hd]
    have hM : MAXFILE * BSIZE = 274432 := rfl
    exact UInt32.toNat_ofNat_of_lt' (by rw [UInt32.size]; omega)
  refine ⟨img₁.winode i d, fs', owners', ?_, ⟨?_, ?_, ?_, ?_, ?_⟩, ?_⟩
  · unfold Image.iappend
    dsimp only
    rw [hoff, hloop, map_some, hd]
  · apply hbuilt₁.congr
    · intro j hj
      rw [hn] at hj
      rw [hread j (Nat.lt_of_lt_of_le hj h.inodes)]
      by_cases hji : j = i
      · rw [if_pos hji, hji, put_self, hd]
        exact ⟨rfl, rfl, rfl⟩
      · rw [if_neg hji, put_of_ne hji]
        exact ⟨rfl, rfl, rfl⟩
    · intro b hb
      exact setDinodeAt_data sb_ok hinum (by rw [sb_nmeta]; exact hb)
    · rfl
    · rfl
  · intro j hj
    rw [hn] at hj
    rw [hread j (Nat.lt_of_lt_of_le hj h.inodes), hfs']
    show _ = put fs.size i _ j
    by_cases hji : j = i
    · rw [if_pos hji, hji, put_self]
      exact hdsize
    · rw [if_neg hji, put_of_ne hji]
      exact h.size j hj
  · rw [hn]
    exact h.inodes
  · intro j hj hjlt
    rw [hn] at hj
    rw [hread j hjlt, if_neg (by omega)]
    exact h.free j hj hjlt
  · intro b hb
    have hne : b ≠ sb.IBLOCK i := Nat.ne_of_lt (Nat.lt_of_lt_of_le hb (Nat.le_add_left _ _))
    have hlow : b < nmeta := by
      have hstart : sb.inodestart = 32 := rfl
      have hmeta : nmeta = 46 := rfl
      omega
    show put img₁.disk _ _ b = _
    rw [put_of_ne hne, hext.low b hlow]
    exact h.boot b hb
  · rw [hfs']
    refine ⟨rfl, rfl, ?_, put_self .., ?_, ?_, ?_⟩
    · intro j hj
      exact ⟨put_of_ne hj, put_of_ne hj⟩
    · intro x hx
      show put fs.content i _ i x = _
      rw [put_self]
      exact overlay_of_notMem _ _ (.inl hx)
    · intro k hk
      show put fs.content i _ i _ = _
      rw [put_self, overlay_add _ _ hk, Nat.zero_add]
      exact hp k hk
    · rw [fs.blocks_extend hi]
      show _ = _ + blocksUsed (put fs.size i _ i)
      rw [put_self]

def Files.add (fs : Files) (type : Int16) : Files :=
  { n := fs.n + 1, size := put fs.size fs.n 0, content := fs.content
    type := put fs.type fs.n type }

theorem Files.blocks_add (fs : Files) (type : Int16) : (fs.add type).blocks = fs.blocks := by
  show ∑ i ∈ Finset.range (fs.n + 1), blocksUsed (put fs.size fs.n 0 i) = _
  rw [Finset.sum_range_succ, put_self]
  have hrest : ∑ i ∈ Finset.range fs.n, blocksUsed (put fs.size fs.n 0 i) = fs.blocks := by
    refine Finset.sum_congr rfl fun i hi => ?_
    rw [put_of_ne (Nat.ne_of_lt (Finset.mem_range.mp hi))]
  rw [hrest]
  rfl

theorem blockAddr_zero (disk : Disk) {d : Dinode} (h : d.addrs = fun _ => 0) (bn : Nat) :
    blockAddr disk d bn = 0 := by
  unfold blockAddr
  rw [h]
  split
  case isTrue => rfl
  case isFalse =>
    split
    case isTrue => rfl
    case isFalse => rfl

/-- **ialloc makes an empty file.** -/
theorem OnDisk.ialloc (h : OnDisk img fs owners) (hn : fs.n < NINODES) (type : Int16) :
    (img.ialloc type).1 = fs.n ∧ OnDisk (img.ialloc type).2 (fs.add type) owners := by
  have hinum := h.built.freeinode
  obtain ⟨d, hd⟩ : ∃ d : Dinode, d = { Dinode.zero with type := type, nlink := 1 } := ⟨_, rfl⟩
  have haddrs : d.addrs = fun _ => 0 := by rw [hd]; rfl
  have himg : (img.ialloc type).2 = { img with freeinode := fs.n + 1 }.winode fs.n d := by
    unfold Image.ialloc
    rw [hinum, hd]
  have hread : ∀ j, dinodeAt sb (img.ialloc type).2.disk j =
      if j = fs.n then d else dinodeAt sb img.disk j := by
    intro j
    rw [himg]
    exact dinodeAt_setDinodeAt fs.n j
  have hdata : ∀ b, nmeta ≤ b → (img.ialloc type).2.disk b = img.disk b := by
    intro b hb
    rw [himg]
    exact setDinodeAt_data sb_ok hn (by rw [sb_nmeta]; exact hb)
  have hnew : ∀ sl, (fs.n, sl) ∉ owners := fun sl hmem => Nat.lt_irrefl _ (h.built.alloc.lt _ hmem)
  -- the old inodes are as before
  have hold : Built (dinodeAt sb (img.ialloc type).2.disk)
      { (img.ialloc type).2 with freeinode := fs.n } fs owners := by
    apply h.built.congr
    · intro i hi
      rw [hread i, if_neg (Nat.ne_of_lt hi)]
      exact ⟨rfl, rfl, rfl⟩
    · exact hdata
    · exact hinum.symm
    · rw [himg]
      rfl
  have hlt : ∀ i, i < fs.n + 1 → i < fs.n ∨ i = fs.n := fun i hi => by omega
  refine ⟨hinum, ⟨⟨⟨?_, ?_, ?_, ?_, ?_⟩, ?_, ?_, ?_, ?_, ?_, ?_, ?_⟩, ?_, ?_, ?_, ?_⟩⟩
  · exact hold.alloc.nodup
  · exact fun p hp => Nat.lt_succ_of_lt (hold.alloc.lt p hp)
  · intro i hi sl
    rcases hlt i hi with hi | rfl
    · exact hold.alloc.val i hi sl
    · rw [addrOf_of_notMem (hnew sl), hread, if_pos rfl]
      cases sl with
      | ind =>
        show (d.addrs 12).toNat = 0
        rw [haddrs]
        rfl
      | data bn =>
        show (blockAddr _ d bn).toNat = 0
        rw [blockAddr_zero _ haddrs]
        rfl
  · exact hold.alloc.fresh
  · exact hold.alloc.room
  · rw [himg]
    rfl
  · exact hold.freeblock
  · intro i hi bn
    rcases hlt i hi with hi | rfl
    · rw [hold.data i hi bn]
      show _ ↔ bn < blocksIn (put fs.size fs.n 0 i)
      rw [put_of_ne (Nat.ne_of_lt hi)]
    · show _ ↔ bn < blocksIn (put fs.size fs.n 0 fs.n)
      rw [put_self]
      exact ⟨fun hmem => absurd hmem (hnew _), fun hlt => absurd hlt (Nat.not_lt_zero bn)⟩
  · intro i hi
    rcases hlt i hi with hi | rfl
    · rw [hold.ind i hi]
      show _ ↔ NDIRECT < blocksIn (put fs.size fs.n 0 i)
      rw [put_of_ne (Nat.ne_of_lt hi)]
    · show _ ↔ NDIRECT < blocksIn (put fs.size fs.n 0 fs.n)
      rw [put_self]
      exact ⟨fun hmem => absurd hmem (hnew _), fun hlt => absurd hlt (Nat.not_lt_zero _)⟩
  · rw [fs.blocks_add]
    exact hold.count
  · intro i hi x hx
    change x < put fs.size fs.n 0 i at hx
    rcases hlt i hi with hi | rfl
    · rw [put_of_ne (Nat.ne_of_lt hi)] at hx
      exact hold.content i hi x hx
    · rw [put_self] at hx
      exact absurd hx (Nat.not_lt_zero x)
  · intro i hi hi0
    show _ = put fs.type fs.n type i ∧ _
    rcases hlt i hi with hi | rfl
    · rw [put_of_ne (Nat.ne_of_lt hi)]
      exact hold.inode i hi hi0
    · rw [put_self, hread, if_pos rfl, hd]
      exact ⟨rfl, rfl⟩
  · intro i hi
    show _ = put fs.size fs.n 0 i
    rcases hlt i hi with hi | rfl
    · rw [hread, if_neg (Nat.ne_of_lt hi), put_of_ne (Nat.ne_of_lt hi)]
      exact h.size i hi
    · rw [hread, if_pos rfl, put_self, hd]
      rfl
  · exact hn
  · intro j hj hjlt
    change fs.n + 1 ≤ j at hj
    rw [hread, if_neg (by omega)]
    exact h.free j (by omega) hjlt
  · intro b hb
    have hne : b ≠ sb.IBLOCK fs.n := Nat.ne_of_lt (Nat.lt_of_lt_of_le hb (Nat.le_add_left _ _))
    rw [himg]
    show put img.disk _ _ b = _
    rw [put_of_ne hne]
    exact h.boot b hb

end OnDisk

/-! ## §2. The root directory and the files. -/

/-- Inode number and name in entry `e` of the root directory; `names` are those
of the files. -/
def entryAt (names : List (List UInt8)) : Nat → Nat × Bytes
  | 0 => (ROOTINO, dot)
  | 1 => (ROOTINO, dotdot)
  | e + 2 => (e + 2, cstr (names.getD e []))

def entryBytes (names : List (List UInt8)) (e : Nat) : Bytes :=
  direntBytes (.ofNat (entryAt names e).1) (entryAt names e).2

def spaceFor (k : Nat) (files : List (List UInt8)) : Nat :=
  nmeta + (blocksUsed (DIRENT * k) + (files.map fun l => blocksUsed l.length).sum)

/-- The image holds the files with these names and contents, and a root
directory with their names. -/
structure Holding (img : Image) (fs : Files) (owners : List (Nat × AddrSlot))
    (names files : List (List UInt8)) : Prop where
  disk : OnDisk img fs owners
  length : names.length = files.length
  n : fs.n = files.length + 2
  rootSize : fs.size ROOTINO = DIRENT * (files.length + 2)
  rootType : fs.type ROOTINO = T_DIR
  entry : ∀ e < files.length + 2, ∀ k < DIRENT,
    fs.content ROOTINO (DIRENT * e + k) = entryBytes names e k
  size : ∀ j < files.length, fs.size (j + 2) = (files.getD j []).length
  type : ∀ j < files.length, fs.type (j + 2) = T_FILE
  content : ∀ j < files.length, ∀ x < (files.getD j []).length,
    fs.content (j + 2) x = cstr (files.getD j []) x
  blocks : nmeta + fs.blocks = spaceFor (files.length + 2) files

section Holding

variable {img : Image} {fs : Files} {owners : List (Nat × AddrSlot)}
  {names files : List (List UInt8)}

def direntList (inum : Nat) (name : Bytes) : List UInt8 :=
  (List.range DIRENT).map (direntBytes (.ofNat inum) name)

theorem cstr_direntList (inum : Nat) (name : Bytes) {k : Nat} (hk : k < DIRENT) :
    cstr (direntList inum name) k = direntBytes (.ofNat inum) name k := by
  unfold cstr direntList
  rw [getD_eq_getElem _ _ (by simpa using hk)]
  simp

theorem OnDisk.addEntry (h : OnDisk img fs owners) (hroot : ROOTINO < fs.n) (inum : Nat)
    (name : Bytes) (hmax : fs.size ROOTINO + DIRENT ≤ MAXFILE * BSIZE)
    (hroom : nmeta + (fs.blocks + blocksUsed (fs.size ROOTINO + DIRENT)) ≤
      FSSIZE + blocksUsed (fs.size ROOTINO)) :
    ∃ img' fs' owners', img.addEntry inum name = some img' ∧ OnDisk img' fs' owners' ∧
      Appends fs fs' ROOTINO (direntList inum name) := by
  have hlen : (direntList inum name).length = DIRENT := by simp [direntList]
  have happend := h.iappend hroot (direntList inum name)
    (fun k hk => (cstr_direntList inum name (by omega)).symm) (by rw [hlen]; exact hmax)
    (by rw [hlen]; exact hroom)
  rw [hlen] at happend
  exact happend

theorem OnDisk.addReads {i : Nat} (reads : List (List UInt8)) (img : Image) (fs : Files)
    (owners : List (Nat × AddrSlot)) (h : OnDisk img fs owners) (hi : i < fs.n)
    (hmax : fs.size i + reads.flatten.length ≤ MAXFILE * BSIZE)
    (hroom : nmeta + (fs.blocks + blocksUsed (fs.size i + reads.flatten.length)) ≤
      FSSIZE + blocksUsed (fs.size i)) :
    ∃ img' fs' owners', Image.addReads i img reads = some img' ∧ OnDisk img' fs' owners' ∧
      Appends fs fs' i reads.flatten := by
  induction reads generalizing img fs owners with
  | nil => exact ⟨img, fs, owners, rfl, h, Appends.refl fs i⟩
  | cons buf reads ih =>
    rw [flatten_cons, length_append] at hmax hroom
    have hless := blocksUsed_mono (m := fs.size i + buf.length)
      (k := fs.size i + (buf.length + reads.flatten.length)) (by omega)
    obtain ⟨img₁, fs₁, owners₁, hbuf, hdisk₁, happ₁⟩ :=
      h.iappend hi buf (fun _ _ => rfl) (by omega) (by omega)
    have hsize := happ₁.size
    have hblocks := happ₁.blocks
    rw [hsize] at hblocks
    obtain ⟨img', fs', owners', hreads, hdisk', happ'⟩ :=
      ih img₁ fs₁ owners₁ hdisk₁ (by rw [happ₁.n]; exact hi) (by omega) (by
        rw [hsize, Nat.add_assoc]
        omega)
    refine ⟨img', fs', owners', ?_, hdisk', happ₁.trans happ'⟩
    unfold Image.addReads
    rw [hbuf, bind_some]
    exact hreads

theorem spaceFor_concat (k : Nat) (files : List (List UInt8)) (l : List UInt8) :
    spaceFor k (files ++ [l]) = spaceFor k files + blocksUsed l.length := by
  unfold spaceFor
  rw [map_append, sum_append]
  simp only [map_cons, map_nil, sum_cons, sum_nil]
  omega

theorem entryAt_concat {names : List (List UInt8)} {e : Nat} (he : e < names.length + 2)
    (name : List UInt8) : entryAt (names ++ [name]) e = entryAt names e := by
  match e with
  | 0 => rfl
  | 1 => rfl
  | e + 2 =>
    show (e + 2, cstr ((names ++ [name]).getD e [])) = (e + 2, cstr (names.getD e []))
    rw [getD_append _ _ _ _ (by omega)]

theorem entryAt_last (names : List (List UInt8)) (name : List UInt8) :
    entryAt (names ++ [name]) (names.length + 2) = (names.length + 2, cstr name) := by
  show (names.length + 2, cstr ((names ++ [name]).getD names.length [])) = _
  rw [getD_append_right _ _ _ _ le_rfl, Nat.sub_self]
  rfl

/-- **One input file.** -/
theorem Holding.addFile (h : Holding img fs owners names files) {f : Image.Input} {name : List UInt8}
    (hname : Image.shortname f.arg = some name) (hinodes : files.length + 3 ≤ NINODES)
    (hmax : f.contents.length ≤ MAXFILE * BSIZE)
    (hroom : spaceFor (files.length + 3) (files ++ [f.contents]) ≤ FSSIZE) :
    ∃ img' fs' owners', img.addFile f = some img' ∧
      Holding img' fs' owners' (names ++ [name]) (files ++ [f.contents]) := by
  have hD : DIRENT = 16 := rfl
  have hR : ROOTINO = 1 := rfl
  have hN : NINODES = 200 := rfl
  have hM : MAXFILE * BSIZE = 274432 := rfl
  have hn := h.n
  have hrootSize := h.rootSize
  have hblocks := h.blocks
  have hnext : DIRENT * (files.length + 2) + DIRENT = DIRENT * (files.length + 3) := by
    rw [hD]
    omega
  rw [spaceFor_concat] at hroom
  unfold spaceFor at hroom hblocks
  -- the inode
  obtain ⟨hinum, hdisk₁⟩ := h.disk.ialloc (by omega) T_FILE
  have hsize₁ : ∀ j, j ≠ fs.n → (fs.add T_FILE).size j = fs.size j := fun j hj => put_of_ne hj
  have hnew₁ : (fs.add T_FILE).size fs.n = 0 := put_self ..
  have hroot₁ := hsize₁ ROOTINO (by omega)
  have hn₁ : (fs.add T_FILE).n = fs.n + 1 := rfl
  -- the entry
  obtain ⟨img₂, fs₂, owners₂, hentry, hdisk₂, happ₂⟩ :=
    hdisk₁.addEntry (by omega) fs.n (cstr name) (by rw [hroot₁, hrootSize, hnext, hD, hM]; omega)
      (by
        rw [hroot₁, hrootSize, hnext, fs.blocks_add]
        have hnil : blocksUsed 0 ≤ blocksUsed f.contents.length := blocksUsed_mono (Nat.zero_le _)
        omega)
  have hsize₂ : fs₂.size fs.n = 0 := ((happ₂.others fs.n (by omega)).1).trans hnew₁
  have hlen : (direntList fs.n (cstr name)).length = DIRENT := by simp [direntList]
  have hrootSize₂ : fs₂.size ROOTINO = DIRENT * (files.length + 3) := by
    rw [happ₂.size, hroot₁, hrootSize, hlen, hnext]
  have hblocks₂ := happ₂.blocks
  rw [hroot₁, hrootSize, hrootSize₂, fs.blocks_add] at hblocks₂
  -- the contents
  obtain ⟨img', fs', owners', hreads, hdisk', happ'⟩ :=
    OnDisk.addReads (i := fs.n) f.reads img₂ fs₂ owners₂ hdisk₂ (by rw [happ₂.n]; omega)
      (by rw [hsize₂]; simpa [Image.Input.contents] using hmax)
      (by
        rw [hsize₂, Nat.zero_add]
        show nmeta + (fs₂.blocks + blocksUsed f.contents.length) ≤ FSSIZE + blocksUsed 0
        omega)
  have hblocks' := happ'.blocks
  have hsize' : fs'.size fs.n = f.contents.length := by
    rw [happ'.size, hsize₂, Nat.zero_add]
    rfl
  rw [hsize', hsize₂, show blocksUsed 0 = 0 from rfl] at hblocks'
  have hkeep : ∀ j, j ≠ fs.n → j ≠ ROOTINO → fs'.size j = fs.size j ∧ fs'.content j = fs.content j := by
    intro j hj hj1
    have h1 := happ'.others j hj
    have h2 := happ₂.others j hj1
    exact ⟨h1.1.trans (h2.1.trans (hsize₁ j hj)), h1.2.trans h2.2⟩
  have hrootKeep := happ'.others ROOTINO (by omega)
  have hlength : (files ++ [f.contents]).length = files.length + 1 := by simp
  refine ⟨img', fs', owners', ?_, hdisk', ?_, ?_, ?_, ?_, ?_, ?_, ?_, ?_, ?_⟩
  · unfold Image.addFile
    rw [hname, bind_some]
    dsimp only
    rw [hinum, hentry, bind_some]
    exact hreads
  · rw [length_append, length_append, h.length]
    rfl
  · rw [happ'.n, happ₂.n, hn₁, hlength]
    omega
  · rw [hlength, hrootKeep.1, hrootSize₂]
  · rw [happ'.type, happ₂.type]
    exact (put_of_ne (by omega)).trans h.rootType
  · -- the entries, the last of them new
    intro e he k hk
    rw [hlength] at he
    rw [hrootKeep.2]
    by_cases hlast : e = files.length + 2
    · subst hlast
      have hnewEntry := happ₂.new k (by omega)
      rw [hroot₁, hrootSize] at hnewEntry
      rw [hnewEntry, cstr_direntList _ _ hk]
      unfold entryBytes
      rw [← h.length, entryAt_last, h.length, hn]
    · have hin : DIRENT * e + k < DIRENT * (files.length + 2) := by
        rw [hD] at hk ⊢
        omega
      rw [happ₂.old _ (by rw [hroot₁, hrootSize]; exact hin)]
      unfold entryBytes
      rw [entryAt_concat (by rw [h.length]; omega)]
      exact h.entry e (by omega) k hk
  · intro j hj
    rw [hlength] at hj
    by_cases hlast : j = files.length
    · subst hlast
      rw [← hn, hsize', getD_append_right _ _ _ _ le_rfl, Nat.sub_self]
      rfl
    · rw [(hkeep (j + 2) (by omega) (by omega)).1, getD_append _ _ _ _ (by omega)]
      exact h.size j (by omega)
  · intro j hj
    rw [hlength] at hj
    rw [happ'.type, happ₂.type]
    show put fs.type fs.n T_FILE (j + 2) = T_FILE
    by_cases hlast : j = files.length
    · rw [hlast, ← hn, put_self]
    · rw [put_of_ne (by omega)]
      exact h.type j (by omega)
  · intro j hj x hx
    rw [hlength] at hj
    by_cases hlast : j = files.length
    · subst hlast
      rw [getD_append_right _ _ _ _ le_rfl, Nat.sub_self] at hx ⊢
      have hcontent := happ'.new x hx
      rw [hsize₂, Nat.zero_add] at hcontent
      rw [← hn]
      exact hcontent
    · rw [getD_append _ _ _ _ (by omega)] at hx ⊢
      rw [(hkeep (j + 2) (by omega) (by omega)).2]
      exact h.content j (by omega) x hx
  · rw [spaceFor_concat, hlength]
    unfold spaceFor
    show _ = nmeta + (blocksUsed (DIRENT * (files.length + 3)) + _) + _
    omega

theorem Holding.addFiles (inputs : List Image.Input) (shorts : List (List UInt8)) (img : Image)
    (fs : Files) (owners : List (Nat × AddrSlot)) (names files : List (List UInt8))
    (h : Holding img fs owners names files)
    (hshorts : inputs.map (fun f => Image.shortname f.arg) = shorts.map some)
    (hinodes : files.length + inputs.length + 2 ≤ NINODES)
    (hmax : ∀ f ∈ inputs, f.contents.length ≤ MAXFILE * BSIZE)
    (hroom : spaceFor (files.length + inputs.length + 2) (files ++ inputs.map Image.Input.contents) ≤
      FSSIZE) :
    ∃ img' fs' owners', img.addFiles inputs = some img' ∧
      Holding img' fs' owners' (names ++ shorts) (files ++ inputs.map Image.Input.contents) := by
  induction inputs generalizing img fs owners names files shorts with
  | nil =>
    obtain rfl : shorts = [] := map_eq_nil_iff.mp hshorts.symm
    refine ⟨img, fs, owners, rfl, ?_⟩
    simpa using h
  | cons f inputs ih =>
    cases shorts with
    | nil => cases hshorts
    | cons name shorts =>
      rw [map_cons, map_cons, List.cons.injEq] at hshorts
      rw [length_cons] at hinodes hroom
      have hsplit : files ++ (f :: inputs).map Image.Input.contents =
          (files ++ [f.contents]) ++ inputs.map Image.Input.contents := by simp
      have hle : spaceFor (files.length + 3) (files ++ [f.contents]) ≤
          spaceFor (files.length + (inputs.length + 1) + 2)
            (files ++ (f :: inputs).map Image.Input.contents) := by
        rw [hsplit]
        unfold spaceFor
        simp only [map_append, sum_append]
        have hD : DIRENT = 16 := rfl
        have hmono := blocksUsed_mono (m := DIRENT * (files.length + 3))
          (k := DIRENT * (files.length + (inputs.length + 1) + 2)) (by rw [hD]; omega)
        omega
      obtain ⟨img₁, fs₁, owners₁, hfile, hhold₁⟩ := h.addFile hshorts.1 (by omega)
        (hmax f mem_cons_self) (hle.trans hroom)
      have hlen : (files ++ [f.contents]).length = files.length + 1 := by simp
      rw [hsplit] at hroom
      obtain ⟨img', fs', owners', hfiles, hhold'⟩ :=
        ih shorts img₁ fs₁ owners₁ (names ++ [name]) (files ++ [f.contents]) hhold₁ hshorts.2
          (by rw [hlen]; omega) (fun g hg => hmax g (mem_cons_of_mem f hg)) (by
            rw [hlen]
            rw [show files.length + 1 + inputs.length + 2 =
              files.length + (inputs.length + 1) + 2 by omega]
            exact hroom)
      refine ⟨img', fs', owners', ?_, ?_⟩
      · unfold Image.addFiles
        rw [hfile, bind_some]
        exact hfiles
      · rw [hsplit, show names ++ name :: shorts = (names ++ [name]) ++ shorts by simp]
        exact hhold'

end Holding

end Xv6.Mkfs
