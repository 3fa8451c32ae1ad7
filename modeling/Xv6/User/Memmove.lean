/-
  Xv6.User.Memmove — memmove of the kernel (string.c) and of the user library (ulib.c).
-/
import Xv6.Lib.Bytes

namespace Xv6.Memmove

open Lib BitVec

/-! ## §1. The code. -/

abbrev Mem := BitVec 64 → UInt8

/-- `while(n-- > 0) *d++ = *s++;`. -/
def copyUp : Nat → BitVec 64 → BitVec 64 → Mem → Mem
  | 0, _, _, m => m
  | n + 1, d, s, m => copyUp n (d + 1) (s + 1) (put m d (m s))

/-- `while(n-- > 0) *--d = *--s;`. -/
def copyDown : Nat → BitVec 64 → BitVec 64 → Mem → Mem
  | 0, _, _, m => m
  | n + 1, d, s, m => copyDown n (d - 1) (s - 1) (put m (d - 1) (m (s - 1)))

/-- memmove of the kernel; `n` is a `uint`. -/
def memmove (m : Mem) (dst src : BitVec 64) (n : BitVec 32) : Mem :=
  if n = 0 then m
  else if src < dst ∧ src + n.setWidth 64 > dst then
    copyDown n.toNat (dst + n.setWidth 64) (src + n.setWidth 64) m
  else copyUp n.toNat dst src m

/-- memmove of the user library; `n` is an `int`. -/
def userMemmove (m : Mem) (vdst vsrc : BitVec 64) (n : BitVec 32) : Mem :=
  if vsrc > vdst then copyUp n.toInt.toNat vdst vsrc m
  else copyDown n.toInt.toNat (vdst + n.signExtend 64) (vsrc + n.signExtend 64) m

/-! ## §2. The two loops. -/

/-- The `n` bytes at `dst` are the old ones of `src`, and no other byte has changed. -/
structure Copied (dst src : BitVec 64) (n : Nat) (m m' : Mem) : Prop where
  inside : ∀ i < n, m' (dst + .ofNat 64 i) = m (src + .ofNat 64 i)
  outside : ∀ a, (∀ i < n, a ≠ dst + .ofNat 64 i) → m' a = m a

theorem add_one_add_ofNat (p : BitVec 64) (i : Nat) :
    p + 1 + .ofNat 64 i = p + .ofNat 64 (i + 1) := by
  rw [Nat.add_comm i 1, ofNat_add, ← add_assoc]
  rfl

theorem add_ofNat_sub_one (p : BitVec 64) (i : Nat) :
    p + .ofNat 64 (i + 1) - 1 = p + .ofNat 64 i := by
  rw [ofNat_add, ← add_assoc]
  exact add_sub_cancel _ _

section

variable (n : Nat) (d s : BitVec 64) (m : Mem)
  (hd : ∀ i j, i < j → j < n → d + .ofNat 64 j ≠ d + .ofNat 64 i)

include n d s m hd

/-- Upwards, no source byte may lie at an earlier destination. -/
theorem copyUp_copied (hs : ∀ i j, i < j → j < n → s + .ofNat 64 j ≠ d + .ofNat 64 i) :
    Copied d s n m (copyUp n d s m) := by
  induction n generalizing d s m with
  | zero => exact ⟨fun i hi => absurd hi (Nat.not_lt_zero i), fun _ _ => rfl⟩
  | succ n ih =>
    have hrest : Copied (d + 1) (s + 1) n (put m d (m s)) (copyUp (n + 1) d s m) := by
      refine ih (d + 1) (s + 1) _ ?_ ?_
      · intro i j hij hj
        rw [add_one_add_ofNat, add_one_add_ofNat]
        exact hd (i + 1) (j + 1) (by omega) (by omega)
      · intro i j hij hj
        rw [add_one_add_ofNat, add_one_add_ofNat]
        exact hs (i + 1) (j + 1) (by omega) (by omega)
    have hzero : ∀ p : BitVec 64, p + .ofNat 64 0 = p := add_zero
    refine ⟨fun i hi => ?_, fun a ha => ?_⟩
    · cases i with
      | zero =>
        rw [hzero, hzero, hrest.outside, put_self]
        intro i hi
        have hne := hd 0 (i + 1) (by omega) (by omega)
        rw [hzero] at hne
        rw [add_one_add_ofNat]
        exact hne.symm
      | succ i =>
        have hne := hs 0 (i + 1) (by omega) hi
        rw [hzero] at hne
        have hin := hrest.inside i (by omega)
        rw [add_one_add_ofNat, add_one_add_ofNat, put_of_ne hne] at hin
        exact hin
    · rw [hrest.outside, put_of_ne (hzero d ▸ ha 0 (by omega))]
      intro i hi
      rw [add_one_add_ofNat]
      exact ha (i + 1) (by omega)

/-- Downwards, no source byte may lie at a later destination. -/
theorem copyDown_copied (hs : ∀ i j, i < j → j < n → s + .ofNat 64 i ≠ d + .ofNat 64 j) :
    Copied d s n m (copyDown n (d + .ofNat 64 n) (s + .ofNat 64 n) m) := by
  induction n generalizing m with
  | zero => exact ⟨fun i hi => absurd hi (Nat.not_lt_zero i), fun _ _ => rfl⟩
  | succ n ih =>
    unfold copyDown
    rw [add_ofNat_sub_one, add_ofNat_sub_one]
    have hrest := ih (put m (d + .ofNat 64 n) (m (s + .ofNat 64 n)))
      (fun i j hij hj => hd i j hij (by omega)) (fun i j hij hj => hs i j hij (by omega))
    refine ⟨fun i hi => ?_, fun a ha => ?_⟩
    · by_cases hin : i < n
      · rw [hrest.inside i hin, put_of_ne (hs i n hin (by omega))]
      · obtain rfl : i = n := by omega
        rw [hrest.outside, put_self]
        intro j hj
        exact hd j i hj (by omega)
    · rw [hrest.outside, put_of_ne (ha n (by omega))]
      intro i hi
      exact ha i (by omega)

end

/-! ## §3. The choice of the direction. -/

section Ranges

variable {dst src : BitVec 64} {n : Nat} (hdst : dst.toNat + n ≤ 2 ^ 64)
  (hsrc : src.toNat + n ≤ 2 ^ 64)
include hdst

theorem toNat_add_ofNat {i : Nat} (hi : i < n) : (dst + .ofNat 64 i).toNat = dst.toNat + i := by
  rw [toNat_add, toNat_ofNat, Nat.mod_eq_of_lt (by omega : i < 2 ^ 64)]
  exact Nat.mod_eq_of_lt (by omega)

theorem add_ofNat_ne (i j : Nat) (hij : i < j) (hj : j < n) :
    dst + .ofNat 64 j ≠ dst + .ofNat 64 i := by
  intro h
  have h := congrArg BitVec.toNat h
  rw [toNat_add_ofNat hdst hj, toNat_add_ofNat hdst (hij.trans hj)] at h
  omega

include hsrc

theorem up_copied (m : Mem) (h : dst.toNat ≤ src.toNat ∨ src.toNat + n ≤ dst.toNat) :
    Copied dst src n m (copyUp n dst src m) := by
  refine copyUp_copied n dst src m (add_ofNat_ne hdst) fun i j hij hj he => ?_
  have he := congrArg BitVec.toNat he
  rw [toNat_add_ofNat hsrc hj, toNat_add_ofNat hdst (hij.trans hj)] at he
  omega

theorem down_copied (m : Mem) (h : src.toNat ≤ dst.toNat) :
    Copied dst src n m (copyDown n (dst + .ofNat 64 n) (src + .ofNat 64 n) m) := by
  refine copyDown_copied n dst src m (add_ofNat_ne hdst) fun i j hij hj he => ?_
  have he := congrArg BitVec.toNat he
  rw [toNat_add_ofNat hsrc (hij.trans hj), toNat_add_ofNat hdst hj] at he
  omega

end Ranges

/-- **memmove is a simultaneous copy**, in both versions, for ranges that do not wrap around. -/
theorem memmove_copied (m : Mem) (dst src : BitVec 64) (n : BitVec 32) :
    (dst.toNat + n.toNat ≤ 2 ^ 64 → src.toNat + n.toNat ≤ 2 ^ 64 →
      Copied dst src n.toNat m (memmove m dst src n)) ∧
    (dst.toNat + n.toInt.toNat ≤ 2 ^ 64 → src.toNat + n.toInt.toNat ≤ 2 ^ 64 →
      Copied dst src n.toInt.toNat m (userMemmove m dst src n)) := by
  refine ⟨fun hdst hsrc => ?_, fun hdst hsrc => ?_⟩
  · unfold memmove
    rw [← BitVec.ofNat_toNat]
    split_ifs with hzero hover
    · rw [hzero]
      exact ⟨fun i hi => absurd hi (Nat.not_lt_zero i), fun _ _ => rfl⟩
    · have hlt : src.toNat < dst.toNat := hover.1
      exact down_copied hdst hsrc m hlt.le
    · refine up_copied hdst hsrc m ?_
      by_contra hno
      -- then `src + n` is below the end of the destination, and does not wrap around
      refine hover ⟨show src.toNat < dst.toNat by omega, show dst.toNat < BitVec.toNat _ from ?_⟩
      rw [BitVec.toNat_add, BitVec.toNat_ofNat]
      omega
  · unfold userMemmove
    split_ifs with habove
    · have hlt : dst.toNat < src.toNat := habove
      exact up_copied hdst hsrc m (.inl hlt.le)
    · have hle : src.toNat ≤ dst.toNat := not_lt.mp habove
      rcases Nat.eq_zero_or_pos n.toInt.toNat with hnone | hsome
      · rw [hnone]
        exact ⟨fun i hi => absurd hi (Nat.not_lt_zero i), fun _ _ => rfl⟩
      · have hext : n.signExtend 64 = .ofNat 64 n.toInt.toNat := by
          rw [← BitVec.ofInt_natCast, Int.toNat_of_nonneg (by omega)]
          rfl
        rw [hext]
        exact down_copied hdst hsrc m hle

/-- Three bytes are moved up by one. -/
theorem memmove_copied_overlapping :
    Copied 1 0 3 (fun a => .ofNat a.toNat) (memmove (fun a => .ofNat a.toNat) 1 0 3) ∧
      Copied 1 0 3 (fun a => .ofNat a.toNat) (userMemmove (fun a => .ofNat a.toNat) 1 0 3) :=
  ⟨(memmove_copied _ 1 0 3).1 (by decide) (by decide),
    (memmove_copied _ 1 0 3).2 (by decide) (by decide)⟩

end Xv6.Memmove
