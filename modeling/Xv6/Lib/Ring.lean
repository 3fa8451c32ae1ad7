/-
  Xv6.Lib.Ring — circular buffers with free-running counters.

  Both counters count in `w` bits and are reduced modulo `N`, which divides 2^w.
-/
import Mathlib

namespace Xv6.Lib.Ring

open Function BitVec List

variable {α : Type*} {N w : Nat} [NeZero N]

def slot (c : BitVec w) : Fin N := Fin.ofNat N c.toNat

/-- The cells from `r` on, as many as `l` has entries, hold `l`; `e` is the
counter behind them. -/
def Segment (buf : Fin N → α) : BitVec w → List α → BitVec w → Prop
  | r, [], e => e = r
  | r, x :: l, e => buf (slot r) = x ∧ Segment buf (r + 1) l e

structure Holds (buf : Fin N → α) (r : BitVec w) (l : List α) (e : BitVec w) : Prop where
  segment : Segment buf r l e
  fits : l.length ≤ N

variable {buf : Fin N → α} {r e : BitVec w} {l : List α} {x : α}

theorem holds_nil : Holds buf r [] r := ⟨rfl, Nat.zero_le _⟩

/-! ## §1. Counters. -/

theorem Segment.end_eq (h : Segment buf r l e) : e = r + BitVec.ofNat w l.length := by
  induction l generalizing r with
  | nil =>
    rw [show e = r from h]
    simp
  | cons x l ih =>
    rw [ih h.2, length_cons, add_assoc]
    congr 1
    rw [Nat.add_comm, ofNat_add]
    rfl

section Counters

variable (hlt : N < 2 ^ w)

include hlt

theorem Holds.sub_toNat (h : Holds buf r l e) : (e - r).toNat = l.length := by
  have hfits := h.fits
  rw [h.segment.end_eq, add_comm, add_sub_cancel, toNat_ofNat]
  apply Nat.mod_eq_of_lt
  omega

theorem Holds.empty_iff (h : Holds buf r l e) : r = e ↔ l = [] := by
  constructor
  · intro he
    have hlen := h.sub_toNat hlt
    rw [he, sub_self] at hlen
    exact length_eq_zero_iff.mp hlen.symm
  · intro he
    have hseg := h.segment
    rw [he] at hseg
    exact hseg.symm

theorem Holds.full_iff (h : Holds buf r l e) : e = r + BitVec.ofNat w N ↔ l.length = N := by
  have hlen := h.sub_toNat hlt
  constructor
  · intro he
    rw [he, add_comm, add_sub_cancel, toNat_ofNat, Nat.mod_eq_of_lt hlt] at hlen
    exact hlen.symm
  · intro he
    rw [h.segment.end_eq, he]

end Counters

/-! ## §2. Cells. -/

theorem Holds.pop (h : Holds buf r (x :: l) e) : buf (slot r) = x ∧ Holds buf (r + 1) l e := by
  have hfits := h.fits
  rw [length_cons] at hfits
  exact ⟨h.segment.1, h.segment.2, by omega⟩

theorem Segment.append {c : BitVec w} {m : List α} (h : Segment buf r l c) (hm : Segment buf c m e) :
    Segment buf r (l ++ m) e := by
  induction l generalizing r with
  | nil =>
    rw [← show c = r from h]
    exact hm
  | cons x l ih => exact ⟨h.1, ih h.2⟩

theorem Segment.split {m : List α} (h : Segment buf r (l ++ m) e) :
    ∃ c, Segment buf r l c ∧ Segment buf c m e := by
  induction l generalizing r with
  | nil => exact ⟨r, rfl, h⟩
  | cons x l ih =>
    obtain ⟨c, hl, hm⟩ := ih h.2
    exact ⟨c, ⟨h.1, hl⟩, hm⟩

theorem Segment.unpush (h : Segment buf r (l ++ [x]) e) :
    Segment buf r l (e - 1) ∧ buf (slot (e - 1)) = x := by
  induction l generalizing r with
  | nil =>
    obtain ⟨hx, he⟩ := h
    have he' : e - 1 = r := by
      rw [show e = r + 1 from he, add_sub_cancel]
    rw [he']
    exact ⟨rfl, hx⟩
  | cons y l ih =>
    obtain ⟨hy, hl⟩ := h
    obtain ⟨hl', hx⟩ := ih hl
    exact ⟨⟨hy, hl'⟩, hx⟩

theorem Holds.unpush (h : Holds buf r (l ++ [x]) e) :
    Holds buf r l (e - 1) ∧ buf (slot (e - 1)) = x := by
  obtain ⟨hseg, hx⟩ := h.segment.unpush
  have hfits := h.fits
  rw [length_append, length_singleton] at hfits
  exact ⟨⟨hseg, by omega⟩, hx⟩

section Push

variable (hdvd : N ∣ 2 ^ w)

include hdvd

theorem slot_val (k : Nat) : (slot (r + BitVec.ofNat w k) : Fin N).val = (r.toNat + k) % N := by
  show (r + BitVec.ofNat w k).toNat % N = _
  rw [toNat_add, toNat_ofNat, Nat.mod_mod_of_dvd _ hdvd, Nat.add_mod,
    Nat.mod_mod_of_dvd _ hdvd, ← Nat.add_mod]

theorem slot_ne {k : Nat} (h0 : 0 < k) (hk : k < N) :
    (slot r : Fin N) ≠ slot (r + BitVec.ofNat w k) := by
  intro he
  have hval := congrArg Fin.val he
  rw [slot_val hdvd] at hval
  change r.toNat % N = (r.toNat + k) % N at hval
  have hcancel : 0 ≡ k [MOD N] := Nat.ModEq.add_left_cancel' r.toNat hval
  have hk0 : 0 % N = k % N := hcancel
  rw [Nat.zero_mod, Nat.mod_eq_of_lt hk] at hk0
  omega

theorem Segment.push (h : Segment buf r l e) (hlen : l.length < N) :
    Segment (update buf (slot e) x) r (l ++ [x]) (e + 1) := by
  induction l generalizing r with
  | nil =>
    rw [show e = r from h]
    exact ⟨update_self _ _ _, rfl⟩
  | cons y l ih =>
    rw [length_cons] at hlen
    refine ⟨?_, ih h.2 (by omega)⟩
    have hne : (slot r : Fin N) ≠ slot e := by
      rw [Segment.end_eq h]
      exact slot_ne hdvd (by simp) (by simpa using hlen)
    rw [update_of_ne hne]
    exact h.1

section

variable (h : Holds buf r l e) (hlen : l.length < N)

include h hlen

theorem Holds.push (x : α) : Holds (update buf (slot e) x) r (l ++ [x]) (e + 1) := by
  refine ⟨h.segment.push hdvd hlen, ?_⟩
  rw [length_append, length_singleton]
  omega

theorem Holds.store (x : α) : Holds (update buf (slot e) x) r l e := by
  have hpush := (h.push hdvd hlen x).unpush.1
  rwa [add_sub_cancel] at hpush

theorem Holds.grow (hx : buf (slot e) = x) : Holds buf r (l ++ [x]) (e + 1) := by
  have hpush := h.push hdvd hlen (buf (slot e))
  rwa [update_eq_self, hx] at hpush

theorem Holds.slot_ne {k : Nat} (hk : k < l.length) :
    (slot (r + BitVec.ofNat w k) : Fin N) ≠ slot e := by
  have he : e = r + BitVec.ofNat w k + BitVec.ofNat w (l.length - k) := by
    rw [h.segment.end_eq, add_assoc, ← ofNat_add, Nat.add_sub_cancel' hk.le]
  rw [he]
  apply Ring.slot_ne hdvd
  · omega
  · omega

end

end Push

end Xv6.Lib.Ring
