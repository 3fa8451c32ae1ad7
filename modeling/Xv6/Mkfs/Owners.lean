/-
  Xv6.Mkfs.Owners — which inode a block was given to.

  mkfs gives out blocks in ascending order: block `nmeta + j` was stored in the
  j-th slot of the list `owners`.
-/
import Xv6.Mkfs.Image

namespace Xv6.Mkfs

open Lib Fs List

/-! ## §1. The list. -/

def addrOf (owners : List (Nat × AddrSlot)) (p : Nat × AddrSlot) : Nat :=
  if p ∈ owners then nmeta + owners.idxOf p else 0

section AddrOf

variable {owners : List (Nat × AddrSlot)} {p q x : Nat × AddrSlot} {b : Nat}

theorem addrOf_of_notMem (h : p ∉ owners) : addrOf owners p = 0 := if_neg h

theorem addrOf_of_mem (h : p ∈ owners) :
    nmeta ≤ addrOf owners p ∧ addrOf owners p < nmeta + owners.length := by
  have hlt := idxOf_lt_length_of_mem h
  unfold addrOf
  rw [if_pos h]
  omega

theorem addrOf_pos_iff : 0 < addrOf owners p ↔ p ∈ owners := by
  have hmeta : nmeta = 46 := rfl
  constructor
  · intro hpos
    by_contra hnot
    rw [addrOf_of_notMem hnot] at hpos
    omega
  · intro hmem
    have hrange := addrOf_of_mem hmem
    omega

theorem addrOf_inj (h : p ∈ owners) (heq : addrOf owners p = addrOf owners q) : p = q := by
  have hq : q ∈ owners := by
    rw [← addrOf_pos_iff, ← heq]
    exact addrOf_pos_iff.mpr h
  unfold addrOf at heq
  rw [if_pos h, if_pos hq] at heq
  exact (idxOf_inj h).mp (by omega)

theorem addrOf_concat_self (h : x ∉ owners) : addrOf (owners ++ [x]) x = nmeta + owners.length := by
  unfold addrOf
  rw [if_pos (by simp), idxOf_append_of_notMem h]
  simp

theorem addrOf_concat_of_ne (h : p ≠ x) : addrOf (owners ++ [x]) p = addrOf owners p := by
  unfold addrOf
  by_cases hp : p ∈ owners
  · rw [if_pos hp, if_pos (mem_append_left _ hp), idxOf_append_of_mem hp]
  · rw [if_neg hp, if_neg (by simp [hp, h])]

theorem nodup_concat (hnodup : owners.Nodup) (h : x ∉ owners) : (owners ++ [x]).Nodup := by
  refine nodup_append.mpr ⟨hnodup, nodup_singleton x, ?_⟩
  intro a ha b hb he
  rw [he, mem_singleton.mp hb] at ha
  exact h ha

def ensure (owners : List (Nat × AddrSlot)) (x : Nat × AddrSlot) : List (Nat × AddrSlot) :=
  if x ∈ owners then owners else owners ++ [x]

theorem mem_ensure : p ∈ ensure owners x ↔ p ∈ owners ∨ p = x := by
  unfold ensure
  split
  case isTrue hx =>
    refine ⟨.inl, ?_⟩
    rintro (hp | rfl)
    · exact hp
    · exact hx
  case isFalse => simp

theorem addrOf_ensure (h : p ∈ owners) : addrOf (ensure owners x) p = addrOf owners p := by
  unfold ensure
  split
  case isTrue => rfl
  case isFalse hx => exact addrOf_concat_of_ne fun he => hx (he ▸ h)

theorem length_ensure : (ensure owners x).length = owners.length + if x ∈ owners then 0 else 1 := by
  unfold ensure
  split
  case isTrue => rfl
  case isFalse => simp

theorem exists_owner (hnodup : owners.Nodup) (hlow : nmeta ≤ b)
    (hhigh : b < nmeta + owners.length) : ∃ p ∈ owners, addrOf owners p = b := by
  have hj : b - nmeta < owners.length := by omega
  refine ⟨owners[b - nmeta], getElem_mem hj, ?_⟩
  unfold addrOf
  rw [if_pos (getElem_mem hj), hnodup.idxOf_getElem]
  omega

end AddrOf

/-! ## §2. The inodes and the list. -/

/-- While iappend works on one of the inodes, `ino` has the copy in memory. -/
structure Alloc (ino : Nat → Dinode) (disk : Disk) (n : Nat) (owners : List (Nat × AddrSlot)) :
    Prop where
  nodup : owners.Nodup
  lt : ∀ p ∈ owners, p.1 < n
  val : ∀ i < n, ∀ sl, (slotVal disk (ino i) sl).toNat = addrOf owners (i, sl)
  fresh : ∀ b, nmeta + owners.length ≤ b → b < FSSIZE → disk b = fun _ => 0
  room : nmeta + owners.length ≤ FSSIZE

namespace Alloc

variable {ino : Nat → Dinode} {disk : Disk} {n i bn : Nat} {owners : List (Nat × AddrSlot)}

section

variable (h : Alloc ino disk n owners)

include h

theorem toNat_ofNat_next :
    (UInt32.ofNat (nmeta + owners.length)).toNat = nmeta + owners.length := by
  have hroom := h.room
  have hsize : FSSIZE = 2000 := rfl
  exact UInt32.toNat_ofNat_of_lt' (by rw [UInt32.size]; omega)

theorem val_eq_zero (hi : i < n) (sl : AddrSlot) :
    slotVal disk (ino i) sl = 0 ↔ (i, sl) ∉ owners := by
  rw [← addrOf_pos_iff, ← h.val i hi sl, ← UInt32.toNat_inj, UInt32.toNat_zero]
  omega

theorem congr {ino' : Nat → Dinode} {disk' : Disk} (hino : ∀ i < n, (ino' i).addrs = (ino i).addrs)
    (hdisk : ∀ b, nmeta ≤ b → disk' b = disk b) : Alloc ino' disk' n owners := by
  have hmeta : nmeta = 46 := rfl
  refine ⟨h.nodup, h.lt, ?_, ?_, h.room⟩
  · intro i hi sl
    rw [← h.val i hi sl, slotVal_congr (hino i hi)]
    intro hne
    have hmem : (i, .ind) ∈ owners := by
      by_contra hnew
      exact hne ((h.val_eq_zero hi .ind).mpr hnew)
    have hval : ((ino i).addrs 12).toNat = addrOf owners (i, .ind) := h.val i hi .ind
    rw [hdisk _ (by rw [hval]; exact (addrOf_of_mem hmem).1)]
  · intro b hb hlt
    rw [hdisk b (by omega)]
    exact h.fresh b hb hlt

theorem assignAddr (hi : i < n) (k : Fin 13) (sl : AddrSlot)
    (hsl : sl = slotOf k) (hnew : (i, sl) ∉ owners) (hroom : nmeta + owners.length < FSSIZE)
    {d : Dinode} (haddrs : d.addrs = put (ino i).addrs k (.ofNat (nmeta + owners.length))) :
    Alloc (put ino i d) disk n (owners ++ [(i, sl)]) := by
  have hnext := h.toNat_ofNat_next
  constructor
  · exact nodup_concat h.nodup hnew
  · intro p hp
    rcases mem_append.mp hp with hp | hp
    · exact h.lt p hp
    · rw [mem_singleton.mp hp]
      exact hi
  · intro i' hi' sl'
    by_cases hii : i' = i
    · subst hii
      rw [put_self]
      by_cases hsl' : sl' = sl
      · rw [hsl', addrOf_concat_self hnew, hsl, slotVal_put_self haddrs]
        exact hnext
      · rw [addrOf_concat_of_ne (fun he => hsl' (Prod.mk.inj he).2), ← h.val i' hi' sl',
          slotVal_put_of_ne haddrs ?_ (hsl ▸ hsl')]
        -- the new indirect block is still zero
        rintro rfl
        subst hsl
        refine ⟨(h.val_eq_zero hi' .ind).mpr hnew, ?_⟩
        rw [hnext]
        exact h.fresh _ le_rfl hroom
    · rw [put_of_ne hii, addrOf_concat_of_ne (fun he => hii (Prod.mk.inj he).1)]
      exact h.val i' hi' sl'
  · intro b hb hlt
    rw [length_append, length_singleton] at hb
    exact h.fresh b (by omega) hlt
  · rw [length_append, length_singleton]
    omega

theorem ind_range (hi : i < n) (hind : (i, .ind) ∈ owners) :
    nmeta ≤ ((ino i).addrs 12).toNat ∧ ((ino i).addrs 12).toNat < nmeta + owners.length := by
  have hval : ((ino i).addrs 12).toNat = addrOf owners (i, .ind) := h.val i hi .ind
  rw [hval]
  exact addrOf_of_mem hind

/-- A write to a block that is no indirect block. -/
theorem writeData {p : Nat × AddrSlot} (hp : p ∈ owners)
    (hdata : p.2 ≠ .ind) (blk : Bytes) : Alloc ino (put disk (addrOf owners p) blk) n owners := by
  have hmeta : nmeta = 46 := rfl
  refine ⟨h.nodup, h.lt, ?_, ?_, h.room⟩
  · intro i hi sl
    rw [← h.val i hi sl, slotVal_congr rfl]
    intro _
    have hval : ((ino i).addrs 12).toNat = addrOf owners (i, .ind) := h.val i hi .ind
    refine put_of_ne fun he => ?_
    rw [hval] at he
    exact hdata (congrArg Prod.snd (addrOf_inj hp he.symm))
  · intro b hb hlt
    have hrange := addrOf_of_mem hp
    rw [put_of_ne (by omega)]
    exact h.fresh b hb hlt

/-- A data block is given out and stored in the indirect block. -/
theorem assignEntry (hi : i < n) (hind : (i, .ind) ∈ owners)
    (hlow : ¬ bn < NDIRECT) (hhigh : bn - NDIRECT < NINDIRECT) (hnew : (i, .data bn) ∉ owners)
    (hroom : nmeta + owners.length < FSSIZE) :
    Alloc ino (put disk ((ino i).addrs 12).toNat
        (put32 (disk ((ino i).addrs 12).toNat) (4 * (bn - NDIRECT))
          (.ofNat (nmeta + owners.length))))
      n (owners ++ [(i, .data bn)]) := by
  have hmeta : nmeta = 46 := rfl
  have hrange := h.ind_range hi hind
  have hval : ∀ j < n, ((ino j).addrs 12).toNat = addrOf owners (j, .ind) :=
    fun j hj => h.val j hj .ind
  have hne0 : (ino i).addrs 12 ≠ 0 := by
    intro he
    rw [he, UInt32.toNat_zero] at hrange
    omega
  constructor
  · exact nodup_concat h.nodup hnew
  · intro p hp
    rcases mem_append.mp hp with hp | hp
    · exact h.lt p hp
    · rw [mem_singleton.mp hp]
      exact hi
  · intro j hj sl
    by_cases hself : (j, sl) = (i, .data bn)
    · obtain ⟨rfl, rfl⟩ := Prod.mk.inj hself
      rw [addrOf_concat_self hnew, slotVal_entry_self hlow hhigh hne0]
      exact h.toNat_ofNat_next
    · rw [addrOf_concat_of_ne hself, ← h.val j hj sl]
      by_cases hij : j = i
      · subst hij
        rw [slotVal_entry_of_ne hlow fun he => hself (by rw [he])]
      · -- the indirect block of another inode
        rw [slotVal_congr rfl]
        intro _
        refine put_of_ne ?_
        rw [hval j hj, hval i hi]
        intro he
        exact hij (congrArg Prod.fst (addrOf_inj hind he.symm)).symm
  · intro b hb hlt
    rw [length_append, length_singleton] at hb
    rw [put_of_ne (by omega)]
    exact h.fresh b (by omega) hlt
  · rw [length_append, length_singleton]
    omega

end

end Alloc

end Xv6.Mkfs
