/-
  Xv6.Lib.Tiling — addresses cut into blocks.

  `Tiles B len R` says that the blocks at the addresses of `B` do not overlap and
  together are the addresses in `R`.
-/
import Mathlib

namespace Xv6.Lib

open Finset

variable {B : Finset Nat} {len len' : Nat → Nat} {R : Nat → Prop} {a b k n : Nat}

structure Tiles (B : Finset Nat) (len : Nat → Nat) (R : Nat → Prop) : Prop where
  apart : ∀ a ∈ B, ∀ b ∈ B, a < b → a + len a ≤ b
  cover : ∀ x, R x ↔ ∃ a ∈ B, a ≤ x ∧ x < a + len a

namespace Tiles

theorem congr (h : Tiles B len R) (hlen : ∀ a ∈ B, len' a = len a) : Tiles B len' R where
  apart a ha b hb hab := by
    rw [hlen a ha]
    exact h.apart a ha b hb hab
  cover x := by
    rw [h.cover x]
    refine exists_congr fun a => and_congr_right fun ha => ?_
    rw [hlen a ha]

theorem merge (h : Tiles B len R) (ha : a ∈ B) (hb : b ∈ B) (hne : a ≠ b) (hab : a + len a = b)
    (hlen : len' a = len a + len b) (hother : ∀ x ∈ B, x ≠ a → x ≠ b → len' x = len x) :
    Tiles (B.erase b) len' R where
  apart x hx y hy hxy := by
    obtain ⟨hxb, hxB⟩ := mem_erase.mp hx
    obtain ⟨hyb, hyB⟩ := mem_erase.mp hy
    have hle := h.apart x hxB y hyB hxy
    by_cases hxa : x = a
    · -- y is behind a, so it is behind b
      have hby := h.apart b hb y hyB
      subst hxa
      omega
    · rw [hother x hxB hxa hxb]
      exact hle
  cover x := by
    rw [h.cover x]
    constructor
    · rintro ⟨c, hc, hcx, hxc⟩
      by_cases hcb : c = b
      · refine ⟨a, mem_erase.mpr ⟨hne, ha⟩, ?_, ?_⟩
        · omega
        · subst hcb
          omega
      · refine ⟨c, mem_erase.mpr ⟨hcb, hc⟩, hcx, ?_⟩
        by_cases hca : c = a
        · subst hca
          omega
        · rw [hother c hc hca hcb]
          exact hxc
    · rintro ⟨c, hc, hcx, hxc⟩
      obtain ⟨hcb, hcB⟩ := mem_erase.mp hc
      by_cases hca : c = a
      · subst hca
        by_cases hxb : x < b
        · exact ⟨c, hcB, hcx, by omega⟩
        · exact ⟨b, hb, by omega, by omega⟩
      · rw [hother c hcB hca hcb] at hxc
        exact ⟨c, hcB, hcx, hxc⟩

theorem sum_merge (ha : a ∈ B) (hb : b ∈ B) (hne : a ≠ b) (hlen : len' a = len a + len b)
    (hother : ∀ x ∈ B, x ≠ a → x ≠ b → len' x = len x) :
    ∑ x ∈ B.erase b, len' x = ∑ x ∈ B, len x := by
  have ha' : a ∈ B.erase b := mem_erase.mpr ⟨hne, ha⟩
  rw [← add_sum_erase B len hb, ← add_sum_erase _ len ha',
    ← add_sum_erase _ len' ha', hlen]
  have hrest : ∑ x ∈ (B.erase b).erase a, len' x = ∑ x ∈ (B.erase b).erase a, len x := by
    refine sum_congr rfl fun x hx => ?_
    obtain ⟨hxa, hx⟩ := mem_erase.mp hx
    obtain ⟨hxb, hxB⟩ := mem_erase.mp hx
    exact hother x hxB hxa hxb
  rw [hrest]
  omega

theorem split (h : Tiles B len R) (ha : a ∈ B) (hk : 0 < k) (hab : a + k = b)
    (hlen_a : len' a = k) (hlen : len' a + len' b = len a)
    (hother : ∀ x ∈ B, x ≠ a → len' x = len x) : Tiles (insert b B) len' R where
  apart x hx y hy hxy := by
    have hnew : ∀ z ∈ insert b B, z ≠ a → z ≠ b → len' z = len z := by
      intro z hz hza hzb
      exact hother z (mem_of_mem_insert_of_ne hz hzb) hza
    rcases mem_insert.mp hx with rfl | hxB
    · -- behind the second part
      rcases mem_insert.mp hy with rfl | hyB
      · exact absurd hxy (lt_irrefl _)
      · have hle := h.apart a ha y hyB (by omega)
        omega
    · rcases mem_insert.mp hy with rfl | hyB
      · by_cases hxa : x = a
        · subst hxa
          omega
        · rw [hother x hxB hxa]
          rcases Nat.lt_or_gt_of_ne hxa with hlt | hgt
          · have hle := h.apart x hxB a ha hlt
            omega
          · have hle := h.apart a ha x hxB hgt
            omega
      · have hle := h.apart x hxB y hyB hxy
        by_cases hxa : x = a
        · subst hxa
          omega
        · rw [hother x hxB hxa]
          exact hle
  cover x := by
    rw [h.cover x]
    constructor
    · rintro ⟨c, hc, hcx, hxc⟩
      by_cases hca : c = a
      · subst hca
        by_cases hxb : x < b
        · exact ⟨c, mem_insert_of_mem hc, hcx, by omega⟩
        · exact ⟨b, mem_insert_self b B, by omega, by omega⟩
      · refine ⟨c, mem_insert_of_mem hc, hcx, ?_⟩
        rw [hother c hc hca]
        exact hxc
    · rintro ⟨c, hc, hcx, hxc⟩
      rcases mem_insert.mp hc with rfl | hcB
      · exact ⟨a, ha, by omega, by omega⟩
      · by_cases hca : c = a
        · subst hca
          exact ⟨c, hcB, hcx, by omega⟩
        · rw [hother c hcB hca] at hxc
          exact ⟨c, hcB, hcx, hxc⟩

theorem sum_split (ha : a ∈ B) (hb : b ∉ B) (hlen : len' a + len' b = len a)
    (hother : ∀ x ∈ B, x ≠ a → len' x = len x) :
    ∑ x ∈ insert b B, len' x = ∑ x ∈ B, len x := by
  rw [sum_insert hb, ← add_sum_erase B len ha, ← add_sum_erase B len' ha]
  have hrest : ∑ x ∈ B.erase a, len' x = ∑ x ∈ B.erase a, len x := by
    refine sum_congr rfl fun x hx => ?_
    obtain ⟨hxa, hxB⟩ := mem_erase.mp hx
    exact hother x hxB hxa
  rw [hrest]
  omega

theorem add (h : Tiles B len R) (hnew : ∀ x, a ≤ x → x < a + n → ¬ R x)
    (hB : ∀ b ∈ B, b < a ∨ a + n ≤ b) (hn : 0 < n) (hlen : len' a = n)
    (hother : ∀ x ∈ B, len' x = len x) :
    Tiles (insert a B) len' fun x => R x ∨ a ≤ x ∧ x < a + n where
  apart x hx y hy hxy := by
    rcases mem_insert.mp hx with rfl | hxB
    · rcases mem_insert.mp hy with rfl | hyB
      · exact absurd hxy (lt_irrefl _)
      · have hle := hB y hyB
        omega
    · rw [hother x hxB]
      rcases mem_insert.mp hy with rfl | hyB
      · -- otherwise y is in the block at x
        by_contra hlt
        exact hnew y le_rfl (by omega) ((h.cover y).mpr ⟨x, hxB, hxy.le, by omega⟩)
      · exact h.apart x hxB y hyB hxy
  cover x := by
    rw [h.cover x]
    constructor
    · rintro (⟨c, hc, hcx, hxc⟩ | ⟨hax, hxa⟩)
      · refine ⟨c, mem_insert_of_mem hc, hcx, ?_⟩
        rw [hother c hc]
        exact hxc
      · exact ⟨a, mem_insert_self a B, hax, by omega⟩
    · rintro ⟨c, hc, hcx, hxc⟩
      rcases mem_insert.mp hc with rfl | hcB
      · exact .inr ⟨hcx, by omega⟩
      · rw [hother c hcB] at hxc
        exact .inl ⟨c, hcB, hcx, hxc⟩

theorem start (h : Tiles B len R) (ha : a ∈ B) (hpos : 0 < len a) : R a :=
  (h.cover a).mpr ⟨a, ha, le_rfl, by omega⟩

end Tiles

end Xv6.Lib
