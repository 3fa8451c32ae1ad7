/-
  Xv6.Fs.Bitmap — balloc and bfree, bit by bit.

  The blocks of the map must not be free themselves: balloc would hand one out and clear it.
-/
import Xv6.Fs.Inode

namespace Xv6.Fs

open Lib

variable {sb : Superblock} {disk : Disk}

/-! ## §1. The two loops of balloc. -/

theorem scanBits_mem {map : Bytes} {b fuel bi k : Nat} (h : scanBits sb map b fuel bi = some k) :
    bi ≤ k ∧ k < bi + fuel ∧ b + k < sb.size ∧ getBit map k = false := by
  induction fuel generalizing bi with
  | zero => cases h
  | succ fuel ih =>
    unfold scanBits at h
    split_ifs at h with hin hbit
    · obtain ⟨hle, hlt, hk⟩ := ih h
      exact ⟨by omega, by omega, hk⟩
    · cases h
      exact ⟨le_rfl, by omega, hin, Bool.eq_false_iff.mpr hbit⟩

theorem getBit_of_scanBits {map : Bytes} {b fuel bi j : Nat} (hj : bi ≤ j) (hfuel : j < bi + fuel)
    (hin : b + j < sb.size) (h : ∀ k, scanBits sb map b fuel bi = some k → j < k) :
    getBit map j = true := by
  induction fuel generalizing bi with
  | zero => omega
  | succ fuel ih =>
    unfold scanBits at h
    rw [if_pos (by omega)] at h
    split_ifs at h with hbit
    · rcases Nat.eq_or_lt_of_le hj with rfl | hlt
      · exact hbit
      · exact ih hlt (by omega) h
    · have hlt := h bi rfl
      omega

theorem bitAt_add {b j : Nat} (hb : BPB ∣ b) (hj : j < BPB) :
    bitAt sb disk (b + j) = getBit (disk (sb.BBLOCK b)) j := by
  obtain ⟨m, rfl⟩ := hb
  have hB : 0 < BPB := by decide
  unfold bitAt Superblock.BBLOCK
  rw [Nat.mul_add_mod, Nat.mod_eq_of_lt hj, Nat.mul_add_div hB, Nat.div_eq_of_lt hj,
    Nat.mul_div_cancel_left m hB, Nat.add_zero]

theorem scanMap_mem {fuel b k : Nat} (hb : BPB ∣ b) (h : scanMap sb disk fuel b = some k) :
    k < sb.size ∧ bitAt sb disk k = false := by
  induction fuel generalizing b with
  | zero => cases h
  | succ fuel ih =>
    unfold scanMap at h
    split at h
    · split at h
      · next bi hbi =>
        obtain ⟨_, hlt, hin, hbit⟩ := scanBits_mem hbi
        cases h
        rw [bitAt_add hb (by omega)]
        exact ⟨hin, hbit⟩
      · exact ih (dvd_add hb dvd_rfl) h
    · cases h

theorem bitAt_of_scanMap {fuel b j : Nat} (hb : BPB ∣ b) (hj : b ≤ j) (hfuel : j < b + fuel * BPB)
    (hin : j < sb.size) (h : ∀ k, scanMap sb disk fuel b = some k → j < k) :
    bitAt sb disk j = true := by
  induction fuel generalizing b with
  | zero => omega
  | succ fuel ih =>
    have hB : BPB = 8192 := rfl
    unfold scanMap at h
    rw [if_pos (by omega)] at h
    by_cases hblock : j < b + BPB
    · obtain ⟨i, rfl⟩ := Nat.exists_eq_add_of_le hj
      rw [bitAt_add hb (by omega)]
      have hfound : ∀ k, scanBits sb (disk (sb.BBLOCK b)) b BPB 0 = some k → i < k := by
        intro k hk
        rw [hk] at h
        have hlt := h _ rfl
        omega
      exact getBit_of_scanBits (Nat.zero_le i) (by omega) hin hfound
    · split at h
      · next bi hbi =>
        obtain ⟨_, hlt, _⟩ := scanBits_mem hbi
        have hlt' := h _ rfl
        omega
      · exact ih (dvd_add hb dvd_rfl) (by omega) (by rw [Nat.succ_mul] at hfuel; omega) h

/-- balloc finds the least free block. -/
theorem scanMap_eq_some {b : Nat} (h : IsLeast {b | b < sb.size ∧ bitAt sb disk b = false} b) :
    scanMap sb disk (sb.size / BPB + 1) 0 = some b := by
  have hB : BPB = 8192 := rfl
  have hset : ∀ j < sb.size, (∀ k, scanMap sb disk (sb.size / BPB + 1) 0 = some k → j < k) →
      bitAt sb disk j = true := by
    intro j hj hk
    exact bitAt_of_scanMap (dvd_zero _) (Nat.zero_le j) (by rw [hB]; omega) hj hk
  cases hscan : scanMap sb disk (sb.size / BPB + 1) 0 with
  | none =>
    have hbit := hset b h.1.1 fun k hk => by rw [hscan] at hk; cases hk
    rw [h.1.2] at hbit
    cases hbit
  | some k =>
    have hle : b ≤ k := h.2 (scanMap_mem (dvd_zero _) hscan)
    by_contra hne
    have hlt : b < k := lt_of_le_of_ne hle fun he => hne (by rw [he])
    have hbit := hset b h.1.1 fun k' hk' => by rw [hscan] at hk'; cases hk'; exact hlt
    rw [h.1.2] at hbit
    cases hbit

/-! ## §2. One bit. -/

theorem bitAt_setBitAt (b c : Nat) (v : Bool) :
    bitAt sb (setBitAt sb disk b v) c = if c = b then v else bitAt sb disk c := by
  unfold bitAt setBitAt
  rw [put_apply]
  split
  · next hblock =>
    rw [getBit_setBit, hblock]
    have hdiv : c / BPB = b / BPB := Nat.add_right_cancel hblock
    have hiff : c % BPB = b % BPB ↔ c = b := by
      constructor
      · intro hmod
        rw [← Nat.div_add_mod c BPB, hdiv, hmod, Nat.div_add_mod]
      · intro he
        rw [he]
    rw [if_congr hiff rfl rfl]
  · next hblock => rw [if_neg fun he => hblock (by rw [he])]

theorem logWrite_disk (s : State) (b : Nat) : (s.logWrite b).disk = s.disk := by
  unfold State.logWrite
  split <;> rfl

/-- The block with the bit of `c` is one that balloc reads. -/
def InMap (sb : Superblock) (c : Nat) : Prop := c / BPB * BPB < sb.size

def mapSb : Superblock :=
  { size := 4, nblocks := 2, ninodes := 0, nlog := 0, logstart := 1, inodestart := 1,
    bmapstart := 1 }

def mapState (used : UInt8) : State :=
  { disk := put (fun _ _ => 0) 1 (put (fun _ => 0) 0 used)
    itable := fun _ => { inum := 0, ref := 0, locked := false, valid := false, copy := Dinode.zero }
    lh := []
    trace := [] }

end Xv6.Fs
