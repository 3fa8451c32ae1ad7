/-
  Xv6.Lib.Count — counting processes.

  `pc` says where each of `n` processes stands, and each place has a weight.
-/
import Mathlib

namespace Xv6.Lib

open Finset

section Count

variable {n : Nat} {L : Type} {g : L → Int}

theorem sum_update (g : L → Int) (pc : Fin n → L) (p : Fin n) (l : L) :
    ∑ q, g (Function.update pc p l q) = ∑ q, g (pc q) - g (pc p) + g l := by
  have hsum := sum_erase_add Finset.univ (fun q => g (pc q)) (mem_univ p)
  rw [← sum_erase_add _ _ (mem_univ p), ← hsum, add_sub_cancel_right]
  congr 1
  · apply sum_congr rfl
    intro q hq
    rw [Function.update_of_ne (ne_of_mem_erase hq)]
  · rw [Function.update_self]

theorem le_sum (hg : ∀ l, 0 ≤ g l) (pc : Fin n → L) (p : Fin n) : g (pc p) ≤ ∑ q, g (pc q) :=
  single_le_sum (fun q _ => hg (pc q)) (mem_univ p)

theorem eq_of_sum_le_one (hg : ∀ l, 0 ≤ g l) {c : Fin n → L} (h : ∑ q, g (c q) ≤ 1) {p q : Fin n}
    (hp : 0 < g (c p)) (hq : 0 < g (c q)) : p = q := by
  by_contra hne
  have hrest : g (c q) ≤ ∑ r ∈ Finset.univ.erase p, g (c r) :=
    single_le_sum (fun r _ => hg (c r))
      (mem_erase.mpr ⟨fun he => hne he.symm, mem_univ q⟩)
  have hsum := sum_erase_add Finset.univ (fun r => g (c r)) (mem_univ p)
  omega

def flag (b : Bool) : Int := if b then 1 else 0

@[simp] theorem flag_true : flag true = 1 := rfl

@[simp] theorem flag_false : flag false = 0 := rfl

theorem flag_nonneg (b : Bool) : 0 ≤ flag b := by
  cases b <;> decide

theorem flag_le_one (b : Bool) : flag b ≤ 1 := by
  cases b <;> decide

theorem count_cons_flag {α : Type} [DecidableEq α] (a b : α) (l : List α) :
    ((b :: l).count a : Int) = l.count a + flag (b = a) := by
  rw [List.count_cons]
  by_cases h : b = a
  · simp [h]
  · simp [h]

section Flags

variable {b : Bool} {t : L → Bool} {pc : Fin n → L} (h : flag b = ∑ q, flag (t (pc q)))

include h

theorem of_flag_sum {p : Fin n} (hp : t (pc p) = true) : b = true := by
  have hle := le_sum (fun l => flag_nonneg (t l)) pc p
  rw [← h, hp] at hle
  by_contra hb
  rw [Bool.not_eq_true] at hb
  rw [hb] at hle
  exact absurd hle (by decide)

theorem exists_of_flag_sum (hb : b = true) : ∃ p, t (pc p) = true := by
  by_contra hno
  have hzero : ∑ q, flag (t (pc q)) = 0 := by
    apply sum_eq_zero
    intro q _
    rw [Bool.eq_false_iff.mpr fun hq => hno ⟨q, hq⟩]
    rfl
  rw [hzero, hb] at h
  exact absurd h (by decide)

theorem eq_of_flag_sum {p q : Fin n} (hp : t (pc p) = true) (hq : t (pc q) = true) : p = q := by
  apply eq_of_sum_le_one (g := fun l => flag (t l)) (c := pc)
  · exact fun l => flag_nonneg _
  · rw [← h]
    exact flag_le_one b
  · show 0 < flag (t (pc p))
    rw [hp]
    decide
  · show 0 < flag (t (pc q))
    rw [hq]
    decide

end Flags

end Count

end Xv6.Lib
