/-
  Xv6.Lib.Numeral — numerals in a positional system.

  `numeral` is the text for an integer, which determines it (`numeral_inj`).
-/
import Mathlib

namespace Xv6.Lib

open List

/-! ## §1. Digits. -/

/-- `do { emit x % base } while ((x /= base) != 0)`, with fuel. -/
def digitLoop (base : Nat) : Nat → Nat → List Nat
  | 0, _ => []
  | fuel + 1, x => x % base :: if x / base = 0 then [] else digitLoop base fuel (x / base)

def magnitude (base n : Nat) : List Nat := if n = 0 then [0] else Nat.digits base n

theorem digitLoop_eq_magnitude {base : Nat} (hb : 1 < base) (fuel x : Nat)
    (hx : x < base ^ (fuel + 1)) : digitLoop base (fuel + 1) x = magnitude base x := by
  induction fuel generalizing x with
  | zero =>
    have hlt : x < base := by simpa using hx
    have hdiv : x / base = 0 := Nat.div_eq_of_lt hlt
    unfold digitLoop magnitude
    by_cases h0 : x = 0
    · simp [h0]
    · simp [h0, hdiv, Nat.mod_eq_of_lt hlt, Nat.digits_of_lt base x h0 hlt]
  | succ fuel ih =>
    unfold digitLoop
    by_cases h0 : x = 0
    · simp [h0, magnitude]
    · rw [magnitude, if_neg h0, Nat.digits_def' hb (Nat.pos_of_ne_zero h0)]
      by_cases hdiv : x / base = 0
      · simp [hdiv]
      · have hx' : x / base < base ^ (fuel + 1) :=
          Nat.div_lt_of_lt_mul (by rwa [pow_succ, Nat.mul_comm] at hx)
        rw [if_neg hdiv, ih _ hx', magnitude, if_neg hdiv]

theorem magnitude_lt {base n d : Nat} (hb : 1 < base) (hd : d ∈ magnitude base n) : d < base := by
  unfold magnitude at hd
  split at hd
  · obtain rfl := mem_singleton.mp hd
    omega
  · exact Nat.digits_lt_base hb hd

theorem ofDigits_magnitude (base n : Nat) : Nat.ofDigits base (magnitude base n) = n := by
  unfold magnitude
  split
  · next h => simp [h]
  · exact Nat.ofDigits_digits base n

theorem magnitude_inj {base m n : Nat} (h : magnitude base m = magnitude base n) : m = n := by
  rw [← ofDigits_magnitude base m, h, ofDigits_magnitude]

theorem magnitude_length_le_iff {base n k : Nat} (hb : 1 < base) (hk : 0 < k) :
    (magnitude base n).length ≤ k ↔ n < base ^ k := by
  unfold magnitude
  split
  · next h =>
    rw [h]
    exact iff_of_true hk (Nat.pow_pos (by omega))
  · exact Nat.digits_length_le_iff hb n

/-! ## §2. Texts. -/

section

variable {α : Type*}

/-- The text of an integer, with the digits in `glyph`. -/
def numeral (glyph : Nat → α) (minus : α) (base : Nat) (v : Int) : List α :=
  (if v < 0 then [minus] else []) ++ ((magnitude base v.natAbs).map glyph).reverse

/-- A sign takes the place of a digit. -/
theorem numeral_length_le_iff {glyph : Nat → α} {minus : α} {base k : Nat} {v : Int}
    (hb : 1 < base) (hk : 0 < k) :
    (numeral glyph minus base v).length ≤ k + 1 ↔
      v.natAbs < base ^ (if v < 0 then k else k + 1) := by
  unfold numeral
  split
  · rw [← magnitude_length_le_iff hb hk]
    simp
  · rw [← magnitude_length_le_iff hb (by omega)]
    simp

theorem map_numeral {β : Type*} (f : α → β) (glyph : Nat → α) (minus : α) (base : Nat) (v : Int) :
    (numeral glyph minus base v).map f = numeral (f ∘ glyph) (f minus) base v := by
  unfold numeral
  split <;> simp

theorem numeral_congr {glyph glyph' : Nat → α} (minus : α) {base : Nat} (hb : 1 < base)
    (h : ∀ d < base, glyph d = glyph' d) (v : Int) :
    numeral glyph minus base v = numeral glyph' minus base v := by
  have hmap : (magnitude base v.natAbs).map glyph = (magnitude base v.natAbs).map glyph' :=
    map_congr_left fun d hd => h d (magnitude_lt hb hd)
  unfold numeral
  rw [hmap]

variable {glyph : Nat → α} {minus : α} {base : Nat}

theorem map_glyph_inj (hglyph : ∀ d < base, ∀ e < base, glyph d = glyph e → d = e)
    (l k : List Nat) (hl : ∀ d ∈ l, d < base) (hk : ∀ d ∈ k, d < base)
    (h : l.map glyph = k.map glyph) : l = k := by
  induction l generalizing k with
  | nil =>
    cases k with
    | nil => rfl
    | cons e k => cases h
  | cons d l ih =>
    cases k with
    | nil => cases h
    | cons e k =>
      rw [map_cons, map_cons, List.cons.injEq] at h
      have hde := hglyph d (hl d (by simp)) e (hk e (by simp)) h.1
      have hrest := ih k (fun x hx => hl x (by simp [hx])) (fun x hx => hk x (by simp [hx])) h.2
      rw [hde, hrest]

theorem minus_cons_ne (hminus : ∀ d < base, glyph d ≠ minus) (hb : 1 < base) (m : Nat)
    (l : List α) : ((magnitude base m).map glyph).reverse ≠ minus :: l := by
  intro h
  have hmem : minus ∈ ((magnitude base m).map glyph).reverse := by rw [h]; simp
  obtain ⟨d, hd, hdm⟩ := mem_map.mp (mem_reverse.mp hmem)
  exact hminus d (magnitude_lt hb hd) hdm

/-- **The text of an integer determines it.** -/
theorem numeral_inj (hb : 1 < base) (hglyph : ∀ d < base, ∀ e < base, glyph d = glyph e → d = e)
    (hminus : ∀ d < base, glyph d ≠ minus) {v w : Int}
    (h : numeral glyph minus base v = numeral glyph minus base w) : v = w := by
  have hdigits : ((magnitude base v.natAbs).map glyph).reverse =
      ((magnitude base w.natAbs).map glyph).reverse → v.natAbs = w.natAbs := by
    intro he
    refine magnitude_inj (map_glyph_inj hglyph _ _ (fun d hd => magnitude_lt hb hd)
      (fun d hd => magnitude_lt hb hd) (reverse_injective he))
  unfold numeral at h
  by_cases hv : v < 0
  · by_cases hw : w < 0
    · rw [if_pos hv, if_pos hw] at h
      have habs := hdigits (append_cancel_left h)
      omega
    · rw [if_pos hv, if_neg hw] at h
      exact absurd h.symm (minus_cons_ne hminus hb _ _)
  · by_cases hw : w < 0
    · rw [if_neg hv, if_pos hw] at h
      exact absurd h (minus_cons_ne hminus hb _ _)
    · rw [if_neg hv, if_neg hw] at h
      have habs := hdigits (append_cancel_left h)
      omega

end

end Xv6.Lib
