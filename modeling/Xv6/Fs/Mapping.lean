/-
  Xv6.Fs.Mapping — the blocks of an inode, and reading from them.

  `blockAddr` is the block that the inode maps a block index to, 0 if there is
  none.  bmap returns it where it is not 0 and changes nothing.
-/
import Xv6.Fs.Directory

namespace Xv6.Fs

open Lib List Comp

/-! ## §1. The map. -/

/-- The block at block index `bn`, 0 if there is none. -/
def blockAddr (disk : Disk) (d : Dinode) (bn : Nat) : UInt32 :=
  if bn < NDIRECT then d.addrs (.ofNat 13 bn)
  else if bn - NDIRECT < NINDIRECT then
    if d.addrs 12 = 0 then 0 else get32 (disk (d.addrs 12).toNat) (4 * (bn - NDIRECT))
  else 0

/-- Where an inode stores a block number. -/
inductive AddrSlot where
  | data (bn : Nat)
  | ind
  deriving DecidableEq

def slotVal (disk : Disk) (d : Dinode) : AddrSlot → UInt32
  | .data bn => blockAddr disk d bn
  | .ind => d.addrs 12

def slotOf (k : Fin 13) : AddrSlot := if k = 12 then .ind else .data k.val

section Slots

variable {disk disk' : Disk} {d d' : Dinode} {v : UInt32} {sl : AddrSlot} {bn : Nat}

theorem slotVal_congr (haddrs : d'.addrs = d.addrs)
    (hind : d.addrs 12 ≠ 0 → disk' (d.addrs 12).toNat = disk (d.addrs 12).toNat) (sl : AddrSlot) :
    slotVal disk' d' sl = slotVal disk d sl := by
  cases sl with
  | ind => exact congrFun haddrs 12
  | data bn =>
    show blockAddr _ _ bn = blockAddr _ _ bn
    unfold blockAddr
    rw [haddrs]
    split
    case isTrue => rfl
    case isFalse =>
      split
      case isFalse => rfl
      case isTrue =>
        split
        case isTrue => rfl
        case isFalse hne => rw [hind hne]

theorem slotVal_slotOf (disk : Disk) (d : Dinode) (k : Fin 13) :
    slotVal disk d (slotOf k) = d.addrs k := by
  unfold slotOf
  split
  case isTrue hk =>
    rw [hk]
    rfl
  case isFalse hk =>
    have hlt : k.val < NDIRECT := by
      have hne : k.val ≠ 12 := fun he => hk (Fin.ext he)
      have hdirect : NDIRECT = 12 := rfl
      omega
    show blockAddr _ _ k.val = _
    unfold blockAddr
    rw [if_pos hlt, show Fin.ofNat 13 k.val = k from Fin.ext (Nat.mod_eq_of_lt k.isLt)]

theorem slotOf_direct (h : bn < NDIRECT) : slotOf (.ofNat 13 bn) = .data bn := by
  have hd : NDIRECT = 12 := rfl
  have hk : (Fin.ofNat 13 bn).val = bn := Nat.mod_eq_of_lt (by omega)
  have hk12 : Fin.ofNat 13 bn ≠ 12 := by
    intro he
    have h12 : (12 : Fin 13).val = 12 := rfl
    rw [he] at hk
    omega
  unfold slotOf
  rw [if_neg hk12, hk]

theorem slotVal_put_self {k : Fin 13} (haddrs : d'.addrs = put d.addrs k v) :
    slotVal disk d' (slotOf k) = v := by
  rw [slotVal_slotOf, haddrs]
  exact put_self ..

theorem slotVal_put_of_ne {k : Fin 13} (haddrs : d'.addrs = put d.addrs k v)
    (hind : k = 12 → d.addrs 12 = 0 ∧ disk v.toNat = fun _ => 0) (hsl : sl ≠ slotOf k) :
    slotVal disk d' sl = slotVal disk d sl := by
  cases sl with
  | ind =>
    have hk : (12 : Fin 13) ≠ k := by
      rintro rfl
      exact hsl rfl
    show d'.addrs 12 = _
    rw [haddrs]
    exact put_of_ne hk
  | data bn =>
    show blockAddr _ _ bn = blockAddr _ _ bn
    unfold blockAddr
    split
    case isTrue hdirect =>
      rw [haddrs]
      refine put_of_ne fun he => hsl ?_
      have hd : NDIRECT = 12 := rfl
      have hval : k.val = bn := by
        rw [← he]
        exact Nat.mod_eq_of_lt (by omega)
      have hk : k ≠ 12 := by
        rintro rfl
        have h12 : (12 : Fin 13).val = 12 := rfl
        omega
      unfold slotOf
      rw [if_neg hk, hval]
    case isFalse =>
      split
      case isFalse => rfl
      case isTrue =>
        by_cases hk : k = 12
        · obtain ⟨hold, hzero⟩ := hind hk
          subst hk
          rw [haddrs, put_self, if_pos hold, hzero, get32_of_zero fun _ _ => rfl]
          split <;> rfl
        · rw [haddrs, put_of_ne (Ne.symm hk)]

theorem slotVal_entry_self (hlow : ¬ bn < NDIRECT) (hhigh : bn - NDIRECT < NINDIRECT)
    (hind : d.addrs 12 ≠ 0) :
    slotVal (put disk (d.addrs 12).toNat
      (put32 (disk (d.addrs 12).toNat) (4 * (bn - NDIRECT)) v)) d (.data bn) = v := by
  show blockAddr _ _ bn = _
  unfold blockAddr
  rw [if_neg hlow, if_pos hhigh, if_neg hind, put_self, get32_put32]

theorem slotVal_entry_of_ne (hlow : ¬ bn < NDIRECT) (hsl : sl ≠ .data bn) :
    slotVal (put disk (d.addrs 12).toNat
      (put32 (disk (d.addrs 12).toNat) (4 * (bn - NDIRECT)) v)) d sl = slotVal disk d sl := by
  cases sl with
  | ind => rfl
  | data bn' =>
    show blockAddr _ _ bn' = blockAddr _ _ bn'
    unfold blockAddr
    split
    case isTrue => rfl
    case isFalse hlow' =>
      split
      case isFalse => rfl
      case isTrue =>
        split
        case isTrue => rfl
        case isFalse =>
          have hbn : bn' ≠ bn := fun he => hsl (by rw [he])
          rw [put_self, get32_put32_of_ne]
          omega

end Slots

def blocksIn (size : Nat) : Nat := (size + BSIZE - 1) / BSIZE

/-- No holes: every block index below the size is mapped. -/
def Mapped (disk : Disk) (d : Dinode) : Prop :=
  ∀ bn < blocksIn d.size.toNat, blockAddr disk d bn ≠ 0

instance (disk : Disk) (d : Dinode) : Decidable (Mapped disk d) :=
  inferInstanceAs (Decidable (∀ bn < _, _))

theorem lt_blocksIn {x size : Nat} (h : x < size) : x / BSIZE < blocksIn size := by
  have hB : BSIZE = 1024 := rfl
  unfold blocksIn
  rw [hB]
  omega

def byteAt (disk : Disk) (d : Dinode) (x : Nat) : UInt8 :=
  disk (blockAddr disk d (x / BSIZE)).toNat (x % BSIZE)

def bytesFrom (disk : Disk) (d : Dinode) (off m : Nat) : List UInt8 :=
  (List.range m).map fun k => byteAt disk d (off + k)

@[simp] theorem length_bytesFrom (disk : Disk) (d : Dinode) (off m : Nat) :
    (bytesFrom disk d off m).length = m := by
  simp [bytesFrom]

theorem getElem_bytesFrom {disk : Disk} {d : Dinode} {off m k : Nat}
    (h : k < (bytesFrom disk d off m).length) : (bytesFrom disk d off m)[k] = byteAt disk d (off + k) := by
  simp [bytesFrom]

theorem bytesFrom_add (disk : Disk) (d : Dinode) (off m n : Nat) :
    bytesFrom disk d off (m + n) = bytesFrom disk d off m ++ bytesFrom disk d (off + m) n := by
  unfold bytesFrom
  rw [range_add, map_append, map_map]
  congr 1
  apply map_congr_left
  intro k _
  show byteAt disk d (off + (m + k)) = byteAt disk d (off + m + k)
  rw [Nat.add_assoc]

theorem bytesOf_eq (disk : Disk) (d : Dinode) {off m : Nat} (h : off % BSIZE + m ≤ BSIZE) :
    bytesOf (disk (blockAddr disk d (off / BSIZE)).toNat) (off % BSIZE) m =
      bytesFrom disk d off m := by
  unfold bytesOf bytesFrom
  apply map_congr_left
  intro k hk
  have hB : BSIZE = 1024 := rfl
  have hkm := mem_range.mp hk
  have hdiv : (off + k) / BSIZE = off / BSIZE := by
    rw [hB] at h ⊢
    omega
  have hmod : (off + k) % BSIZE = off % BSIZE + k := by
    rw [hB] at h ⊢
    omega
  unfold byteAt
  rw [hdiv, hmod]

/-! ## §2. Reading. -/

section Reading

variable (sb : Superblock) {s : State} {e : Fin NINODE}

theorem bmap_mapped {bn : Nat} (h : blockAddr s.disk (s.itable e).copy bn ≠ 0) :
    bmap sb e bn s = .ok (blockAddr s.disk (s.itable e).copy bn, s) := by
  unfold blockAddr at h ⊢
  unfold bmap
  split
  case isTrue hdirect =>
    rw [if_pos hdirect] at h
    unfold addrAlloc
    rw [get_bind]
    dsimp only
    rw [if_pos h]
    rfl
  case isFalse hdirect =>
    rw [if_neg hdirect] at h
    split
    case isTrue hin =>
      rw [if_pos hin] at h
      split at h
      case isTrue => exact absurd rfl h
      case isFalse haddr =>
        have haddrAlloc : addrAlloc sb e 12 s = .ok ((s.itable e).copy.addrs 12, s) := by
          unfold addrAlloc
          rw [get_bind]
          dsimp only
          rw [if_pos haddr]
          rfl
        rw [bind_ok haddrAlloc, if_neg haddr, if_neg haddr]
        unfold entryAlloc
        rw [get_bind, if_pos h]
        rfl
    case isFalse hin =>
      rw [if_neg hin] at h
      exact absurd rfl h

/-- **The loop of readi on mapped blocks** changes nothing, and what it copies out are the bytes of
the file. -/
theorem readiLoop_mapped (n : Nat) (ok : Nat → Nat → Bool) (fuel tot off : Nat)
    (acc : List UInt8) (hfuel : n - tot ≤ fuel)
    (hmap : ∀ x, off ≤ x → x < off + (n - tot) →
      blockAddr s.disk (s.itable e).copy (x / BSIZE) ≠ 0) :
    ∃ r, readiLoop sb e n ok fuel tot off acc s = .ok (r, s) ∧ ((∀ t m, ok t m = true) →
        r = some (acc ++ bytesFrom s.disk (s.itable e).copy off (n - tot))) := by
  induction fuel generalizing tot off acc with
  | zero =>
    refine ⟨some acc, rfl, fun _ => ?_⟩
    rw [Nat.le_zero.mp hfuel]
    simp [bytesFrom]
  | succ fuel ih =>
    unfold readiLoop
    split
    case isFalse hge =>
      refine ⟨some acc, rfl, fun _ => ?_⟩
      rw [Nat.sub_eq_zero_of_le (Nat.le_of_not_lt hge)]
      simp [bytesFrom]
    case isTrue hlt =>
      have hblock := hmap off le_rfl (by omega)
      have hB : BSIZE = 1024 := rfl
      have hmod : off % BSIZE < BSIZE := Nat.mod_lt _ (by decide)
      obtain ⟨m, hm⟩ : ∃ m, m = min (n - tot) (BSIZE - off % BSIZE) := ⟨_, rfl⟩
      rw [bind_ok (bmap_mapped sb hblock), if_neg hblock, ← hm, get_bind,
        bytesOf_eq _ _ (by omega)]
      split
      case isFalse hok =>
        refine ⟨none, rfl, fun hall => ?_⟩
        exact absurd (hall tot m) hok
      case isTrue hok =>
        have hrest : n - tot = m + (n - (tot + m)) := by omega
        obtain ⟨r, hr, hbytes⟩ := ih (tot + m) (off + m)
          (acc ++ bytesFrom s.disk (s.itable e).copy off m) (by omega)
          fun x hlow hhigh => hmap x (by omega) (by omega)
        refine ⟨r, hr, fun hall => ?_⟩
        rw [hbytes hall, hrest, bytesFrom_add, append_assoc]

/-- What readi returns for a file without holes. -/
def readBytes (disk : Disk) (d : Dinode) (off n : UInt32) : List UInt8 :=
  if off > d.size ∨ off + n < off then []
  else bytesFrom disk d off.toNat (min n.toNat (d.size.toNat - off.toNat))

theorem readi_of_mapped (off n : UInt32) (ok : Nat → Nat → Bool)
    (hmap : ∀ x < (s.itable e).copy.size.toNat, off.toNat ≤ x → x < off.toNat + n.toNat →
      blockAddr s.disk (s.itable e).copy (x / BSIZE) ≠ 0) :
    ∃ r, readi sb e off n ok s = .ok (r, s) ∧
      ((∀ t m, ok t m = true) → r = some (readBytes s.disk (s.itable e).copy off n)) := by
  unfold readi readBytes
  rw [get_bind]
  dsimp only
  split
  case isTrue => exact ⟨some [], rfl, fun _ => rfl⟩
  case isFalse hin =>
    obtain ⟨hoff, hwrap⟩ := not_or.mp hin
    have hle : off.toNat ≤ (s.itable e).copy.size.toNat := by
      simpa [UInt32.lt_iff_toNat_lt] using hoff
    have hsum : (off + n).toNat = off.toNat + n.toNat := by
      have hoffn := off.toNat_lt
      have hn := n.toNat_lt
      have hge : off.toNat ≤ (off + n).toNat := by
        simpa [UInt32.lt_iff_toNat_lt] using hwrap
      rw [UInt32.toNat_add] at hge ⊢
      omega
    -- `n` is cut at the end of the file
    have hlen : (if off + n > (s.itable e).copy.size then (s.itable e).copy.size - off else n).toNat =
        min n.toNat ((s.itable e).copy.size.toNat - off.toNat) := by
      split
      case isTrue hend =>
        have hend' : (s.itable e).copy.size.toNat < off.toNat + n.toNat := by
          rw [← hsum]
          exact UInt32.lt_iff_toNat_lt.mp hend
        rw [UInt32.toNat_sub_of_le _ _ (UInt32.le_iff_toNat_le.mpr hle)]
        omega
      case isFalse hend =>
        have hend' : off.toNat + n.toNat ≤ (s.itable e).copy.size.toNat := by
          rw [← hsum]
          simpa [UInt32.lt_iff_toNat_lt] using hend
        omega
    rw [hlen]
    obtain ⟨r, hr, hbytes⟩ := readiLoop_mapped sb (s := s) (e := e)
      (min n.toNat ((s.itable e).copy.size.toNat - off.toNat)) ok
      (min n.toNat ((s.itable e).copy.size.toNat - off.toNat)) 0 off.toNat [] le_rfl
      fun x hlow hx => hmap x (by omega) hlow (by omega)
    exact ⟨r, hr, hbytes⟩

/-- **Reading never allocates.** -/
theorem readi_mapped (off n : UInt32) (ok : Nat → Nat → Bool)
    (hmap : Mapped s.disk (s.itable e).copy) :
    ∃ r, readi sb e off n ok s = .ok (r, s) ∧
      ((∀ t m, ok t m = true) → r = some (readBytes s.disk (s.itable e).copy off n)) :=
  readi_of_mapped sb off n ok fun _ hx _ _ => hmap _ (lt_blocksIn hx)

end Reading

end Xv6.Fs
