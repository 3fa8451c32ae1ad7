/-
  Xv6.Mkfs.Append — iappend adds bytes to the end of a file.

  `Built` describes an image by the size and the contents of each inode.
-/
import Xv6.Mkfs.Owners

namespace Xv6.Mkfs

open Lib Fs Finset

/-! ## §1. One block. -/

structure Grown (owners owners' : List (Nat × AddrSlot)) (i bn : Nat) : Prop where
  mem : ∀ p, p ∈ owners' ↔ p ∈ owners ∨ p = (i, .data bn) ∨ NDIRECT ≤ bn ∧ p = (i, .ind)
  keep : ∀ p ∈ owners, addrOf owners' p = addrOf owners p
  length : owners'.length = owners.length + (if (i, .data bn) ∈ owners then 0 else 1) +
    if NDIRECT ≤ bn ∧ (i, .ind) ∉ owners then 1 else 0

structure Filled (ino : Nat → Dinode) (img img' : Image) (din din' : Dinode) (n i bn : Nat)
    (owners owners' : List (Nat × AddrSlot)) : Prop where
  alloc : Alloc (put ino i din') img'.disk n owners'
  freeblock : img'.freeblock = nmeta + owners'.length
  freeinode : img'.freeinode = img.freeinode
  grown : Grown owners owners' i bn
  data : ∀ p ∈ owners, p.2 ≠ .ind → img'.disk (addrOf owners p) = img.disk (addrOf owners p)
  low : ∀ b < nmeta, img'.disk b = img.disk b
  type : din'.type = din.type
  nlink : din'.nlink = din.nlink

section Block

variable {ino : Nat → Dinode} {img : Image} {din : Dinode} {n i bn : Nat}
  {owners : List (Nat × AddrSlot)}

section

variable (h : Alloc (put ino i din) img.disk n owners) (hi : i < n)
  (hfree : img.freeblock = nmeta + owners.length)

include h hi hfree

theorem fillAddr_spec (k : Fin 13) (sl : AddrSlot) (hsl : sl = slotOf k)
    (hroom : nmeta + owners.length + (if (i, sl) ∈ owners then 0 else 1) ≤ FSSIZE) :
    ∃ img' din' owners', img.fillAddr din k = (img', din') ∧
      Alloc (put ino i din') img'.disk n owners' ∧ img'.freeblock = nmeta + owners'.length ∧
      img'.freeinode = img.freeinode ∧ img'.disk = img.disk ∧ din'.type = din.type ∧
      din'.nlink = din.nlink ∧
      owners' = ensure owners (i, sl) := by
  have hself : put ino i din i = din := put_self ..
  have hval : slotVal img.disk din sl = din.addrs k := by
    rw [hsl, slotVal_slotOf]
  have hempty : din.addrs k = 0 ↔ (i, sl) ∉ owners := by
    have hzero := h.val_eq_zero hi sl
    rw [hself, hval] at hzero
    exact hzero
  unfold Image.fillAddr
  split
  case isTrue h0 =>
    have hnew := hempty.mp h0
    rw [if_neg hnew] at hroom
    refine ⟨_, _, owners ++ [(i, sl)], rfl, ?_, ?_, rfl, rfl, rfl, rfl, (if_neg hnew).symm⟩
    · have hassign := h.assignAddr (d := { din with addrs := put din.addrs k (.ofNat img.freeblock) })
        hi k sl hsl hnew (by omega) (by rw [hself, hfree])
      rw [put_put] at hassign
      exact hassign
    · show img.freeblock + 1 = _
      rw [List.length_append, List.length_singleton]
      omega
  case isFalse h0 =>
    have hmem : (i, sl) ∈ owners := by
      by_contra hnew
      exact h0 (hempty.mpr hnew)
    exact ⟨img, din, owners, rfl, h, hfree, rfl, rfl, rfl, rfl, (if_pos hmem).symm⟩

theorem blockFor_direct (hbn : bn < NDIRECT)
    (hroom : nmeta + owners.length + (if (i, .data bn) ∈ owners then 0 else 1) ≤ FSSIZE) :
    ∃ img' din' x owners', img.blockFor din bn = some (img', din', x) ∧
      Filled ino img img' din din' n i bn owners owners' ∧
      x.toNat = addrOf owners' (i, .data bn) := by
  obtain ⟨img', din', owners', hfill, halloc, hfree', hino, hdisk, htype, hnlink, howners⟩ :=
    fillAddr_spec h hi hfree (.ofNat 13 bn) (.data bn) (slotOf_direct hbn).symm hroom
  have hval := halloc.val i hi (.data bn)
  rw [put_self] at hval
  unfold Image.blockFor
  rw [if_pos hbn, hfill]
  refine ⟨img', din', _, owners', rfl, ⟨halloc, hfree', hino, ?_, ?_, ?_, htype, hnlink⟩, ?_⟩
  · have hlow : ¬ NDIRECT ≤ bn := by omega
    rw [howners]
    refine ⟨fun p => ?_, fun p hp => addrOf_ensure hp, ?_⟩
    · rw [mem_ensure]
      simp [hlow]
    · rw [length_ensure]
      simp [hlow]
  · intro p _ _
    rw [hdisk]
  · intro b _
    rw [hdisk]
  · rw [← hval]
    show _ = (blockAddr _ _ bn).toNat
    unfold blockAddr
    rw [if_pos hbn]

theorem blockFor_indirect (hlow : ¬ bn < NDIRECT) (hhigh : bn - NDIRECT < NINDIRECT)
    (hroom : nmeta + owners.length + (if (i, .data bn) ∈ owners then 0 else 1) +
      (if NDIRECT ≤ bn ∧ (i, .ind) ∉ owners then 1 else 0) ≤ FSSIZE) :
    ∃ img' din' x owners', img.blockFor din bn = some (img', din', x) ∧
      Filled ino img img' din din' n i bn owners owners' ∧
      x.toNat = addrOf owners' (i, .data bn) := by
  have hge : NDIRECT ≤ bn := Nat.le_of_not_lt hlow
  have hneed : (if NDIRECT ≤ bn ∧ (i, .ind) ∉ owners then 1 else 0) =
      if (i, .ind) ∈ owners then 0 else 1 := by
    by_cases hmem : (i, .ind) ∈ owners <;> simp [hmem, hge]
  rw [hneed] at hroom
  -- the indirect block
  obtain ⟨img₁, din', owners₁, hfill, halloc, hfree₁, hino, hdisk, htype, hnlink, howners₁⟩ :=
    fillAddr_spec h hi hfree 12 .ind rfl (by omega)
  have hind : (i, .ind) ∈ owners₁ := by
    rw [howners₁, mem_ensure]
    exact .inr rfl
  have hlen₁ : owners₁.length = owners.length + if (i, .ind) ∈ owners then 0 else 1 := by
    rw [howners₁, length_ensure]
  have hdata : (i, .data bn) ∈ owners₁ ↔ (i, .data bn) ∈ owners := by
    rw [howners₁, mem_ensure]
    simp
  have hkeep₁ : ∀ p ∈ owners, addrOf owners₁ p = addrOf owners p := by
    intro p hp
    rw [howners₁]
    exact addrOf_ensure hp
  have hself : put ino i din' i = din' := put_self ..
  have hrange := halloc.ind_range hi hind
  have hroom₁ := halloc.room
  rw [hself] at hrange
  have hread : img₁.rsect (din'.addrs 12).toNat = some (img₁.disk (din'.addrs 12).toNat) :=
    if_pos (by omega)
  have hentry : blockAddr img₁.disk din' bn =
      get32 (img₁.disk (din'.addrs 12).toNat) (4 * (bn - NDIRECT)) := by
    have hmeta : nmeta = 46 := rfl
    have hne0 : din'.addrs 12 ≠ 0 := by
      intro he
      rw [he, UInt32.toNat_zero] at hrange
      omega
    unfold blockAddr
    rw [if_neg hlow, if_pos hhigh, if_neg hne0]
  have hempty : get32 (img₁.disk (din'.addrs 12).toNat) (4 * (bn - NDIRECT)) = 0 ↔
      (i, .data bn) ∉ owners₁ := by
    have hzero := halloc.val_eq_zero hi (.data bn)
    rw [hself] at hzero
    rw [← hentry]
    exact hzero
  have hmem : ∀ p, p ∈ ensure owners₁ (i, .data bn) ↔
      p ∈ owners ∨ p = (i, .data bn) ∨ NDIRECT ≤ bn ∧ p = (i, .ind) := by
    intro p
    rw [mem_ensure, howners₁, mem_ensure]
    simp only [hge, true_and]
    tauto
  have hgrown : Grown owners (ensure owners₁ (i, .data bn)) i bn := by
    refine ⟨hmem, fun p hp => ?_, ?_⟩
    · rw [addrOf_ensure, hkeep₁ p hp]
      rw [howners₁, mem_ensure]
      exact .inl hp
    · rw [length_ensure, hlen₁, hneed]
      simp only [hdata]
      omega
  unfold Image.blockFor
  rw [if_neg hlow, hfill]
  dsimp only
  rw [hread, Option.map_some]
  by_cases hnew : (i, .data bn) ∈ owners₁
  · -- the entry is there
    have heq : ensure owners₁ (i, .data bn) = owners₁ := if_pos hnew
    rw [if_neg (fun h0 => hempty.mp h0 hnew)]
    rw [heq] at hgrown
    refine ⟨img₁, din', _, owners₁, rfl, ⟨halloc, hfree₁, hino, hgrown, ?_, ?_, htype, hnlink⟩, ?_⟩
    · intro p _ _
      rw [hdisk]
    · intro b _
      rw [hdisk]
    · have hval := halloc.val i hi (.data bn)
      rw [hself] at hval
      rw [← hval, ← hentry]
      rfl
  · -- a new block goes into the entry
    have heq : ensure owners₁ (i, .data bn) = owners₁ ++ [(i, .data bn)] := if_neg hnew
    rw [if_pos (hempty.mpr hnew)]
    rw [heq] at hgrown
    have hroom' : nmeta + owners₁.length < FSSIZE := by
      rw [if_neg (fun hmem' => hnew (hdata.mpr hmem'))] at hroom
      omega
    have hassign := halloc.assignEntry hi hind hlow hhigh hnew hroom'
    rw [hself] at hassign
    refine ⟨_, din', _, _, rfl, ⟨?_, ?_, hino, hgrown, ?_, ?_, htype, hnlink⟩, ?_⟩
    · rw [hfree₁]
      exact hassign
    · show img₁.freeblock + 1 = _
      rw [List.length_append, List.length_singleton]
      omega
    · intro p hp hpdata
      have hne : addrOf owners p ≠ (din'.addrs 12).toNat := by
        have hval : (din'.addrs 12).toNat = addrOf owners₁ (i, .ind) := by
          have hv := halloc.val i hi .ind
          rwa [hself] at hv
        rw [hval, ← hkeep₁ p hp]
        intro he
        exact hpdata (congrArg Prod.snd (addrOf_inj hind he.symm)).symm
      show put img₁.disk _ _ _ = _
      rw [put_of_ne hne, hdisk]
    · intro b hb
      show put img₁.disk _ _ _ = _
      rw [put_of_ne (by omega), hdisk]
    · rw [hfree₁, addrOf_concat_self hnew]
      exact halloc.toNat_ofNat_next

theorem blockFor_spec (hbn : bn < MAXFILE)
    (hroom : nmeta + owners.length + (if (i, .data bn) ∈ owners then 0 else 1) +
      (if NDIRECT ≤ bn ∧ (i, .ind) ∉ owners then 1 else 0) ≤ FSSIZE) :
    ∃ img' din' x owners', img.blockFor din bn = some (img', din', x) ∧
      Filled ino img img' din din' n i bn owners owners' ∧
      x.toNat = addrOf owners' (i, .data bn) := by
  by_cases hdirect : bn < NDIRECT
  · exact blockFor_direct h hi hfree hdirect (by omega)
  · have hmax : MAXFILE = NDIRECT + NINDIRECT := rfl
    exact blockFor_indirect h hi hfree hdirect (by omega) hroom

end

end Block

/-! ## §2. The files of an image. -/

def blocksUsed (size : Nat) : Nat :=
  blocksIn size + if NDIRECT < blocksIn size then 1 else 0

theorem blocksIn_mono {m k : Nat} (h : m ≤ k) : blocksIn m ≤ blocksIn k :=
  Nat.div_le_div_right (by omega)

theorem blocksUsed_mono {m k : Nat} (h : m ≤ k) : blocksUsed m ≤ blocksUsed k := by
  have hle := blocksIn_mono h
  unfold blocksUsed
  split <;> split <;> omega

/-- The files of an image: the inode numbers below `n`, their sizes, contents
and types. -/
structure Files where
  n : Nat
  size : Nat → Nat
  content : Nat → Bytes
  type : Nat → Int16

/-- The file `i` with a new size and content. -/
def Files.extend (fs : Files) (i size : Nat) (content : Bytes) : Files :=
  { fs with size := put fs.size i size, content := put fs.content i content }

def Files.blocks (fs : Files) : Nat := ∑ i ∈ Finset.range fs.n, blocksUsed (fs.size i)

structure Built (ino : Nat → Dinode) (img : Image) (fs : Files)
    (owners : List (Nat × AddrSlot)) : Prop where
  alloc : Alloc ino img.disk fs.n owners
  freeinode : img.freeinode = fs.n
  freeblock : img.freeblock = nmeta + owners.length
  data : ∀ i < fs.n, ∀ bn, (i, .data bn) ∈ owners ↔ bn < blocksIn (fs.size i)
  ind : ∀ i < fs.n, (i, .ind) ∈ owners ↔ NDIRECT < blocksIn (fs.size i)
  count : owners.length = fs.blocks
  content : ∀ i < fs.n, ∀ x < fs.size i,
    img.disk (addrOf owners (i, .data (x / BSIZE))) (x % BSIZE) = fs.content i x
  inode : ∀ i < fs.n, 0 < i → (ino i).type = fs.type i ∧ (ino i).nlink = 1

theorem Built.congr {ino ino' : Nat → Dinode} {img img' : Image} {fs : Files}
    {owners : List (Nat × AddrSlot)} (h : Built ino img fs owners)
    (hino : ∀ i < fs.n, (ino' i).addrs = (ino i).addrs ∧ (ino' i).type = (ino i).type ∧
      (ino' i).nlink = (ino i).nlink)
    (hdisk : ∀ b, nmeta ≤ b → img'.disk b = img.disk b) (hinum : img'.freeinode = img.freeinode)
    (hfree : img'.freeblock = img.freeblock) : Built ino' img' fs owners := by
  refine ⟨?_, hinum.trans h.freeinode, hfree.trans h.freeblock, h.data, h.ind, h.count, ?_, ?_⟩
  · refine h.alloc.congr (fun i hi => (hino i hi).1) hdisk
  · intro i hi x hx
    have hmem : (i, .data (x / BSIZE)) ∈ owners := (h.data i hi _).mpr (lt_blocksIn hx)
    rw [hdisk _ (addrOf_of_mem hmem).1]
    exact h.content i hi x hx
  · intro i hi hpos
    rw [(hino i hi).2.1, (hino i hi).2.2]
    exact h.inode i hi hpos

theorem Files.blocks_extend (fs : Files) {i : Nat} (hi : i < fs.n) (size : Nat) (content : Bytes) :
    (fs.extend i size content).blocks + blocksUsed (fs.size i) = fs.blocks + blocksUsed size := by
  have hmem : i ∈ Finset.range fs.n := mem_range.mpr hi
  have hrest : ∑ j ∈ (Finset.range fs.n).erase i, blocksUsed (put fs.size i size j) =
      ∑ j ∈ (Finset.range fs.n).erase i, blocksUsed (fs.size j) := by
    refine sum_congr rfl fun j hj => ?_
    rw [put_of_ne (ne_of_mem_erase hj)]
  show ∑ j ∈ Finset.range fs.n, blocksUsed (put fs.size i size j) + _ = _
  unfold Files.blocks
  rw [← add_sum_erase _ _ hmem, ← add_sum_erase _ (fun j => blocksUsed (fs.size j)) hmem,
    hrest, put_self]
  omega

theorem Files.extend_self (fs : Files) (i : Nat) : fs.extend i (fs.size i) (fs.content i) = fs := by
  unfold Files.extend
  rw [put_eq_self, put_eq_self]

theorem Files.extend_extend (fs : Files) (i m k : Nat) (b c : Bytes) :
    (fs.extend i m b).extend i k c = fs.extend i k c := by
  unfold Files.extend
  rw [put_put, put_put]

/-! ## §3. The loop of iappend. -/

section Loop

variable {ino : Nat → Dinode} {img : Image} {din : Dinode} {fs : Files}
  {owners : List (Nat × AddrSlot)} {i : Nat}

structure Extended (ino : Nat → Dinode) (img img' : Image) (din' : Dinode) (i size : Nat)
    (content : Bytes) (fs : Files) (owners' : List (Nat × AddrSlot)) : Prop where
  built : Built (put ino i din') img' (fs.extend i size content) owners'
  low : ∀ b < nmeta, img'.disk b = img.disk b

theorem blocksUsed_turn {off n1 : Nat} (hn1 : 0 < n1) (hfit : off % BSIZE + n1 ≤ BSIZE) :
    blocksIn (off + n1) = off / BSIZE + 1 ∧ blocksIn off ≤ off / BSIZE + 1 ∧
      off / BSIZE ≤ blocksIn off ∧
      blocksUsed (off + n1) = blocksUsed off + (if off / BSIZE < blocksIn off then 0 else 1) +
        if NDIRECT ≤ off / BSIZE ∧ ¬ NDIRECT < blocksIn off then 1 else 0 := by
  have hB : BSIZE = 1024 := rfl
  have hd : NDIRECT = 12 := rfl
  have hnew : blocksIn (off + n1) = off / BSIZE + 1 := by
    unfold blocksIn
    rw [hB] at hfit ⊢
    omega
  have hle : blocksIn off ≤ off / BSIZE + 1 ∧ off / BSIZE ≤ blocksIn off := by
    unfold blocksIn
    rw [hB]
    omega
  refine ⟨hnew, hle.1, hle.2, ?_⟩
  unfold blocksUsed
  rw [hnew, hd]
  split <;> split <;> split <;> split <;> omega

/-- **One turn of iappend.** -/
theorem Built.turn (h : Built (put ino i din) img fs owners) (hi : i < fs.n) {off n1 : Nat}
    (hoff : fs.size i = off) (hn1 : 0 < n1) (hfit : off % BSIZE + n1 ≤ BSIZE)
    (hmax : off / BSIZE < MAXFILE) (src : Bytes)
    (hroom : nmeta + (fs.blocks + blocksUsed (off + n1)) ≤ FSSIZE + blocksUsed off) :
    ∃ img₁ din' x owners', img.blockFor din (off / BSIZE) = some (img₁, din', x) ∧
      img₁.rsect x.toNat = some (img₁.disk x.toNat) ∧
      Extended ino img (img₁.wsect x.toNat
          (overlay (img₁.disk x.toNat) (off - off / BSIZE * BSIZE) n1 src))
        din' i (off + n1) (overlay (fs.content i) off n1 src) fs owners' := by
  have hB : BSIZE = 1024 := rfl
  obtain ⟨hnew, hle, hge, hused⟩ := blocksUsed_turn hn1 hfit
  have hdata : (i, .data (off / BSIZE)) ∈ owners ↔ off / BSIZE < blocksIn off := by
    rw [h.data i hi, hoff]
  have hind : (i, .ind) ∈ owners ↔ NDIRECT < blocksIn off := by
    rw [h.ind i hi, hoff]
  have hcount := h.count
  obtain ⟨img₁, din', x, owners', hblock, hfilled, hx⟩ :=
    blockFor_spec h.alloc hi h.freeblock hmax (by simp only [hdata, hind]; omega)
  have hgrown := hfilled.grown
  have hmem : (i, .data (off / BSIZE)) ∈ owners' := (hgrown.mem _).mpr (.inr (.inl rfl))
  have hrange := addrOf_of_mem hmem
  have hroom' := hfilled.alloc.room
  refine ⟨img₁, din', x, owners', hblock, if_pos (by omega), ?_, ?_⟩
  · rw [hx]
    constructor
    · exact hfilled.alloc.writeData hmem (by simp) _
    · exact hfilled.freeinode.trans h.freeinode
    · exact hfilled.freeblock
    · -- one more block index, if it was missing
      intro j hj bn
      rw [hgrown.mem]
      by_cases hji : j = i
      · subst hji
        rw [h.data j hi, hoff]
        show _ ↔ bn < blocksIn (put fs.size j _ j)
        rw [put_self, hnew]
        simp only [Prod.mk.injEq, AddrSlot.data.injEq, true_and, reduceCtorEq, and_false, or_false]
        omega
      · rw [h.data j hj]
        show _ ↔ bn < blocksIn (put fs.size i _ j)
        rw [put_of_ne hji]
        simp [hji]
    · intro j hj
      rw [hgrown.mem]
      by_cases hji : j = i
      · subst hji
        rw [h.ind j hi, hoff]
        show _ ↔ NDIRECT < blocksIn (put fs.size j _ j)
        rw [put_self, hnew]
        simp only [Prod.mk.injEq, reduceCtorEq, and_false, false_or, and_true]
        omega
      · rw [h.ind j hj]
        show _ ↔ NDIRECT < blocksIn (put fs.size i _ j)
        rw [put_of_ne hji]
        simp [hji]
    · have hblocks := fs.blocks_extend hi (off + n1) (overlay (fs.content i) off n1 src)
      have hlen := hgrown.length
      simp only [hdata, hind] at hlen
      rw [hoff] at hblocks
      omega
    · intro j hj y hy
      show put img₁.disk _ _ (addrOf owners' (j, .data (y / BSIZE))) (y % BSIZE) =
        put fs.content i _ j y
      by_cases hji : j = i
      · subst hji
        rw [put_self]
        change y < put fs.size j _ j at hy
        rw [put_self] at hy
        by_cases hbn : y / BSIZE = off / BSIZE
        · -- in the block that is written
          rw [hbn, put_self]
          by_cases hin : off ≤ y
          · have hy' : y % BSIZE = (off - off / BSIZE * BSIZE) + (y - off) := by
              rw [hB] at *
              omega
            have hyoff : y = off + (y - off) := by omega
            rw [hy', overlay_add _ _ (by omega)]
            nth_rewrite 2 [hyoff]
            rw [overlay_add _ _ (by omega)]
          · rw [overlay_of_notMem _ _ (by left; rw [hB] at *; omega),
              overlay_of_notMem _ _ (by left; omega)]
            have hold : (j, .data (off / BSIZE)) ∈ owners := by
              rw [hdata]
              have hlt : y / BSIZE < blocksIn off := lt_blocksIn (by omega)
              omega
            rw [hgrown.keep _ hold, hfilled.data _ hold (by simp), ← hbn]
            exact h.content j hi y (by omega)
        · -- in an earlier block
          have hlt : y < off := by
            have hfit' : off % 1024 + n1 ≤ 1024 := hfit
            have hbn' : ¬ y / 1024 = off / 1024 := hbn
            omega
          have hold : (j, .data (y / BSIZE)) ∈ owners := by
            rw [h.data j hi, hoff]
            exact lt_blocksIn hlt
          have hne : addrOf owners' (j, .data (y / BSIZE)) ≠
              addrOf owners' (j, .data (off / BSIZE)) := by
            intro he
            have hpair := addrOf_inj ((hgrown.mem _).mpr (.inl hold)) he
            simp only [Prod.mk.injEq, AddrSlot.data.injEq, true_and] at hpair
            exact hbn hpair
          rw [put_of_ne hne, overlay_of_notMem _ _ (by left; omega), hgrown.keep _ hold,
            hfilled.data _ hold (by simp)]
          exact h.content j hi y (by omega)
      · -- in another file
        change y < put fs.size i _ j at hy
        rw [put_of_ne hji] at hy ⊢
        have hold : (j, .data (y / BSIZE)) ∈ owners := by
          rw [h.data j hj]
          exact lt_blocksIn hy
        have hne : addrOf owners' (j, .data (y / BSIZE)) ≠
            addrOf owners' (i, .data (off / BSIZE)) := by
          intro he
          have hpair := addrOf_inj ((hgrown.mem _).mpr (.inl hold)) he
          exact hji (congrArg Prod.fst hpair)
        rw [put_of_ne hne, hgrown.keep _ hold, hfilled.data _ hold (by simp)]
        exact h.content j hj y hy
    · intro j hj hj0
      have hinode := h.inode j hj hj0
      by_cases hji : j = i
      · subst hji
        rw [put_self] at hinode ⊢
        rw [hfilled.type, hfilled.nlink]
        exact hinode
      · rw [put_of_ne hji] at hinode ⊢
        exact hinode
  · intro b hb
    rw [hx]
    show put img₁.disk _ _ b = _
    rw [put_of_ne (by omega)]
    exact hfilled.low b hb

/-- **The loop of iappend.** -/
theorem Built.loop (p : Bytes) (fuel : Nat) (img : Image) (din : Dinode) (tot off n : Nat)
    (fs : Files) (owners : List (Nat × AddrSlot)) (h : Built (put ino i din) img fs owners)
    (hi : i < fs.n) (hoff : fs.size i = off) (hfuel : n ≤ fuel)
    (hmax : off + n ≤ MAXFILE * BSIZE)
    (hroom : nmeta + (fs.blocks + blocksUsed (off + n)) ≤ FSSIZE + blocksUsed off) :
    ∃ img' din' owners', Image.iappendLoop p fuel img din tot off n = some (img', din', off + n) ∧
      Extended ino img img' din' i (off + n)
        (overlay (fs.content i) off n fun k => p (tot + k)) fs owners' := by
  induction fuel generalizing img din tot off n fs owners with
  | zero =>
    obtain rfl := Nat.le_zero.mp hfuel
    refine ⟨img, din, owners, rfl, ?_, fun _ _ => rfl⟩
    rw [Nat.add_zero, overlay_zero, ← hoff, fs.extend_self]
    exact h
  | succ fuel ih =>
    unfold Image.iappendLoop
    by_cases hn : 0 < n
    · have hB : BSIZE = 1024 := rfl
      have hM : MAXFILE = 268 := rfl
      have hidx : off / BSIZE < MAXFILE := by
        rw [hB, hM] at hmax ⊢
        omega
      obtain ⟨n1, hn1⟩ : ∃ n1, n1 = min n ((off / BSIZE + 1) * BSIZE - off) := ⟨_, rfl⟩
      have hfit : 0 < n1 ∧ n1 ≤ n ∧ off % BSIZE + n1 ≤ BSIZE := by
        rw [hB] at hn1 ⊢
        omega
      have hless := blocksUsed_mono (m := off + n1) (k := off + n) (by omega)
      obtain ⟨img₁, din₁, x, owners₁, hblock, hread, hext⟩ :=
        h.turn hi hoff hfit.1 hfit.2.2 hidx (fun k => p (tot + k)) (by omega)
      rw [if_pos hn, if_pos hidx, hblock, Option.bind_some]
      dsimp only
      rw [hread, Option.bind_some, ← hn1]
      -- the rest of the bytes
      have hblocks := fs.blocks_extend hi (off + n1)
        (overlay (fs.content i) off n1 fun k => p (tot + k))
      rw [hoff] at hblocks
      have hsum : off + n1 + (n - n1) = off + n := by omega
      obtain ⟨img', din', owners', hloop, hrest⟩ :=
        ih _ din₁ (tot + n1) (off + n1) (n - n1) _ owners₁ hext.built hi (put_self ..)
          (by omega) (by omega) (by rw [hsum]; omega)
      have hcontent : overlay ((fs.extend i (off + n1)
            (overlay (fs.content i) off n1 fun k => p (tot + k))).content i) (off + n1) (n - n1)
            (fun k => p (tot + n1 + k)) =
          overlay (fs.content i) off n fun k => p (tot + k) := by
        have happend := overlay_append (fs.content i) (fun k => p (tot + k)) (o := off) (n := n1)
          (k := n - n1)
        rw [show n1 + (n - n1) = n by omega] at happend
        show overlay (put fs.content i _ i) (off + n1) (n - n1) _ = _
        rw [put_self, ← happend]
        congr 1
        funext k
        rw [Nat.add_assoc]
      have hbuilt := hrest.built
      rw [fs.extend_extend, hcontent, hsum] at hbuilt
      refine ⟨img', din', owners', ?_, hbuilt, ?_⟩
      · rw [hloop, hsum]
      · intro b hb
        rw [hrest.low b hb]
        exact hext.low b hb
    · obtain rfl : n = 0 := by omega
      rw [if_neg hn]
      refine ⟨img, din, owners, rfl, ?_, fun _ _ => rfl⟩
      rw [Nat.add_zero, overlay_zero, ← hoff, fs.extend_self]
      exact h

end Loop

end Xv6.Mkfs
