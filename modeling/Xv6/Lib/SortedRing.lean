/-
  Xv6.Lib.SortedRing — circular singly linked lists in ascending order.

  `IsRing F next` says of each node on its own that it points to the next larger one, or from
  the largest to the smallest.
-/
import Mathlib

namespace Xv6.Lib

open List

variable {α : Type*} [LinearOrder α] {F : Finset α} {next next' : α → α} {a b c m n p : α}

/-! ## §1. The next node. -/

/-- `b` is the next larger element of `F`, or the smallest one if `a` is the
largest. -/
def IsNext (F : Finset α) (a b : α) : Prop :=
  b ∈ F ∧ ((a < b ∧ ∀ c ∈ F, ¬ (a < c ∧ c < b)) ∨ ∀ c ∈ F, c ≤ a ∧ b ≤ c)

theorem IsNext.eq (hb : IsNext F a b) (hc : IsNext F a c) : b = c := by
  obtain ⟨hbF, hb⟩ := hb
  obtain ⟨hcF, hc⟩ := hc
  rcases hb with ⟨hab, hb⟩ | hb
  · rcases hc with ⟨hac, hc⟩ | hc
    · exact le_antisymm (not_lt.mp fun h => hb c hcF ⟨hac, h⟩) (not_lt.mp fun h => hc b hbF ⟨hab, h⟩)
    · exact absurd (hc b hbF).1 (not_le.mpr hab)
  · rcases hc with ⟨hac, hc⟩ | hc
    · exact absurd (hb c hcF).1 (not_le.mpr hac)
    · exact le_antisymm (hb c hcF).2 (hc b hbF).2

theorem IsNext.pred_eq (ha : a ∈ F) (hb : b ∈ F) (han : IsNext F a n) (hbn : IsNext F b n) :
    a = b := by
  obtain ⟨hnF, han⟩ := han
  obtain ⟨-, hbn⟩ := hbn
  by_contra hne
  rcases lt_or_gt_of_ne hne with hlt | hlt
  · rcases han with ⟨h, hnone⟩ | h
    · rcases hbn with ⟨hb', -⟩ | hb'
      · exact hnone b hb ⟨hlt, hb'⟩
      · exact absurd (hb' a ha).2 (not_le.mpr h)
    · exact absurd (h b hb).1 (not_le.mpr hlt)
  · rcases hbn with ⟨h, hnone⟩ | h
    · rcases han with ⟨ha', -⟩ | ha'
      · exact hnone a ha ⟨hlt, ha'⟩
      · exact absurd (ha' b hb).2 (not_le.mpr h)
    · exact absurd (h a ha).1 (not_le.mpr hlt)

def IsRing (F : Finset α) (next : α → α) : Prop := ∀ a ∈ F, IsNext F a (next a)

/-- `b` lies between `p` and the node `n` behind it, or outside of both if `p`
is the last node. -/
def Gap (p b n : α) : Prop := p < b ∧ b < n ∨ n ≤ p ∧ (p < b ∨ b < n)

namespace IsRing

theorem next_mem (h : IsRing F next) (ha : a ∈ F) : next a ∈ F := (h a ha).1

theorem congr (h : IsRing F next) (heq : ∀ a ∈ F, next' a = next a) : IsRing F next' := by
  intro a ha
  rw [heq a ha]
  exact h a ha

theorem singleton (h : next a = a) : IsRing {a} next := by
  intro x hx
  obtain rfl := Finset.mem_singleton.mp hx
  rw [h]
  refine ⟨Finset.mem_singleton_self _, .inr fun c hc => ?_⟩
  obtain rfl := Finset.mem_singleton.mp hc
  exact ⟨le_rfl, le_rfl⟩

/-! ## §2. Changes. -/

section

variable (h : IsRing F next)

include h

section

variable (hp : p ∈ F)

include hp

theorem insertAfter (hb : b ∉ F) (hgap : Gap p b (next p))
    (hnext_b : next' b = next p) (hnext_p : next' p = b)
    (hother : ∀ a ∈ F, a ≠ p → next' a = next a) : IsRing (insert b F) next' := by
  obtain ⟨hnF, hpn⟩ := h p hp
  unfold Gap at hgap
  intro a ha
  by_cases hap : a = p
  · subst hap
    rw [hnext_p]
    refine ⟨Finset.mem_insert_self b F, ?_⟩
    grind
  · by_cases hab : a = b
    · -- b points where p pointed
      subst hab
      rw [hnext_b]
      refine ⟨Finset.mem_insert_of_mem hnF, ?_⟩
      grind
    · have haF := Finset.mem_of_mem_insert_of_ne ha hab
      obtain ⟨hmF, ham⟩ := h a haF
      rw [hother a haF hap]
      refine ⟨Finset.mem_insert_of_mem hmF, ?_⟩
      -- b is not in the gap behind a, for that is the gap behind p
      grind

theorem removeAfter (hne : next p ≠ p)
    (hnext_p : next' p = next (next p)) (hother : ∀ a ∈ F, a ≠ p → a ≠ next p → next' a = next a) :
    IsRing (F.erase (next p)) next' := by
  have hnF := h.next_mem hp
  obtain ⟨hqF, hnq⟩ := h (next p) hnF
  have hpn := (h p hp).2
  intro a ha
  obtain ⟨han, haF⟩ := Finset.mem_erase.mp ha
  by_cases hap : a = p
  · subst hap
    rw [hnext_p]
    have hqn : next (next a) ≠ next a := by
      intro he
      grind
    refine ⟨Finset.mem_erase.mpr ⟨hqn, hqF⟩, ?_⟩
    grind
  · rw [hother a haF hap han]
    obtain ⟨hmF, ham⟩ := h a haF
    have hmn : next a ≠ next p := by
      intro he
      exact hap (IsNext.pred_eq haF hp (he ▸ h a haF) (h p hp))
    refine ⟨Finset.mem_erase.mpr ⟨hmn, hmF⟩, ?_⟩
    rcases ham with ⟨hlt, hnone⟩ | hall
    · exact .inl ⟨hlt, fun c hc => hnone c (Finset.mem_of_mem_erase hc)⟩
    · exact .inr fun c hc => hall c (Finset.mem_of_mem_erase hc)

theorem gap_removeAfter (hgap : Gap p b (next p)) : Gap p b (next (next p)) := by
  have hnF := h.next_mem hp
  have hpn := h p hp
  have hnq := h (next p) hnF
  unfold IsNext at hpn hnq
  unfold Gap at hgap ⊢
  grind

theorem le_of_gap (hgap : Gap p b (next p)) (hc : c ∈ F)
    (hbc : b < c) : b < next p ∧ next p ≤ c := by
  have hpn := h p hp
  unfold IsNext at hpn
  unfold Gap at hgap
  grind

theorem ge_of_gap (hgap : Gap p b (next p)) (hc : c ∈ F) (hcb : c < b) : p < b ∧ c ≤ p := by
  have hpn := h p hp
  unfold IsNext at hpn
  unfold Gap at hgap
  grind

theorem eq_of_next_self (hself : next p = p) (hc : c ∈ F) : c = p := by
  have hpn := (h p hp).2
  rw [hself] at hpn
  rcases hpn with ⟨hlt, _⟩ | hall
  · exact absurd hlt (lt_irrefl _)
  · exact le_antisymm (hall c hc).1 (hall c hc).2

end

theorem exists_gap (hF : F.Nonempty) (hb : b ∉ F) : ∃ p ∈ F, Gap p b (next p) := by
  by_cases hbelow : (F.filter (· < b)).Nonempty
  · -- the largest node below b
    obtain ⟨p, hp, hmax⟩ := Finset.exists_max_image _ id hbelow
    obtain ⟨hpF, hpb⟩ := Finset.mem_filter.mp hp
    refine ⟨p, hpF, ?_⟩
    obtain ⟨hnF, ⟨hlt, hnone⟩ | hall⟩ := h p hpF
    · left
      refine ⟨hpb, ?_⟩
      rcases lt_trichotomy b (next p) with hlt' | heq | hgt
      · exact hlt'
      · exact absurd (heq ▸ hnF) hb
      · have hle := hmax (next p) (Finset.mem_filter.mpr ⟨hnF, hgt⟩)
        exact absurd hlt (not_lt.mpr hle)
    · exact .inr ⟨(hall p hpF).2, .inl hpb⟩
  · -- all nodes are above b
    have habove : ∀ c ∈ F, b < c := by
      intro c hc
      rcases lt_trichotomy b c with hlt | heq | hgt
      · exact hlt
      · exact absurd (heq ▸ hc) hb
      · exact absurd ⟨c, Finset.mem_filter.mpr ⟨hc, hgt⟩⟩ hbelow
    obtain ⟨p, hp, hmax⟩ := Finset.exists_max_image F id hF
    refine ⟨p, hp, ?_⟩
    have hnF := h.next_mem hp
    exact .inr ⟨hmax _ hnF, .inr (habove _ hnF)⟩

/-! ## §3. Following the pointers. -/

theorem climb (hc : c ∈ F) :
    ∀ (k : Nat) (a : α), a ∈ F → a ≤ c → (F.filter fun x => a < x ∧ x ≤ c).card ≤ k →
      ∃ j, next^[j] a = c := by
  intro k
  induction k with
  | zero =>
    intro a ha hac hcard
    rcases hac.eq_or_lt with rfl | hlt
    · exact ⟨0, rfl⟩
    · have hempty := Finset.card_eq_zero.mp (Nat.le_zero.mp hcard)
      have hmem : c ∈ F.filter fun x => a < x ∧ x ≤ c := Finset.mem_filter.mpr ⟨hc, hlt, le_rfl⟩
      rw [hempty] at hmem
      cases hmem
  | succ k ih =>
    intro a ha hac hcard
    rcases hac.eq_or_lt with rfl | hlt
    · exact ⟨0, rfl⟩
    obtain ⟨hnF, hnext⟩ := h a ha
    rcases hnext with ⟨han, hnone⟩ | hall
    · have hnc : next a ≤ c := not_lt.mp fun hcn => hnone c hc ⟨hlt, hcn⟩
      -- next a itself leaves the range
      have hlt' : (F.filter fun x => next a < x ∧ x ≤ c).card <
          (F.filter fun x => a < x ∧ x ≤ c).card := by
        apply Finset.card_lt_card
        refine Finset.ssubset_iff_subset_ne.mpr ⟨fun x hx => ?_, fun he => ?_⟩
        · obtain ⟨hxF, hnx, hxc⟩ := Finset.mem_filter.mp hx
          exact Finset.mem_filter.mpr ⟨hxF, han.trans hnx, hxc⟩
        · have hmem : next a ∈ F.filter fun x => a < x ∧ x ≤ c :=
            Finset.mem_filter.mpr ⟨hnF, han, hnc⟩
          rw [← he] at hmem
          exact lt_irrefl _ (Finset.mem_filter.mp hmem).2.1
      obtain ⟨j, hj⟩ := ih (next a) hnF hnc (by omega)
      exact ⟨j + 1, hj⟩
    · exact absurd (hall c hc).1 (not_le.mpr hlt)

/-- **Every node is reached from every node.** -/
theorem reach (ha : a ∈ F) (hc : c ∈ F) : ∃ k, next^[k] a = c := by
  have hF : F.Nonempty := ⟨a, ha⟩
  obtain ⟨m, hm, hmax⟩ := Finset.exists_max_image F id hF
  obtain ⟨i, hi⟩ := h.climb hm _ a ha (hmax a ha) le_rfl
  -- the largest node points to the smallest
  have hmin : ∀ x ∈ F, next m ≤ x := by
    obtain ⟨hnF, ⟨hlt, -⟩ | hall⟩ := h m hm
    · exact absurd hlt (not_lt.mpr (hmax _ hnF))
    · exact fun x hx => (hall x hx).2
  obtain ⟨j, hj⟩ := h.climb hc _ (next m) (h.next_mem hm) (hmin c hc) le_rfl
  refine ⟨j + (i + 1), ?_⟩
  rw [Function.iterate_add_apply, Function.iterate_succ_apply', hi, hj]

theorem iterate_mem (ha : a ∈ F) (k : Nat) : next^[k] a ∈ F := by
  induction k with
  | zero => exact ha
  | succ k ih =>
    rw [Function.iterate_succ_apply']
    exact h.next_mem ih

end

end IsRing

/-! ## §4. The nodes in a list. -/

/-- Following `next` leads over the list and back to its first node. -/
def Circle (next : α → α) : List α → Prop
  | [] => False
  | a :: l => List.IsChain (fun x y => next x = y) (a :: l ++ [a])

theorem Circle.forall_mem {α : Type*} {next : α → α} {a : α} {l : List α}
    (h : Circle next (a :: l)) (good : α → Prop) (ha : good a)
    (hnext : ∀ x, good x → good (next x)) : ∀ x ∈ a :: l, good x := by
  have hchain : List.IsChain (fun x y => next x = y) (a :: l) := List.IsChain.left_of_append h
  clear h
  induction l generalizing a with
  | nil =>
    intro x hx
    rw [mem_singleton.mp hx]
    exact ha
  | cons b l ih =>
    obtain ⟨hab, hrest⟩ := isChain_cons_cons.mp hchain
    intro x hx
    rcases mem_cons.mp hx with rfl | hx
    · exact ha
    · exact ih (hab ▸ hnext a ha) hrest x hx

namespace IsRing

theorem isChain (h : IsRing F next) (hm : m ∈ F) (hmin : ∀ c ∈ F, m ≤ c) :
    ∀ (l front : List α), (∀ x, x ∈ F ↔ x ∈ front ∨ x ∈ l) → (∀ x ∈ front, ∀ y ∈ l, x < y) →
      l.Pairwise (· < ·) → List.IsChain (fun x y => next x = y) (l ++ [m]) := by
  intro l
  induction l with
  | nil =>
    intro front _ _ _
    exact isChain_singleton _
  | cons x l ih =>
    intro front hF hfront hsorted
    have hxF : x ∈ F := (hF x).mpr (.inr mem_cons_self)
    obtain ⟨hlow, hrest⟩ := pairwise_cons.mp hsorted
    cases l with
    | nil =>
      -- x is the largest node
      have hnext : IsNext F x m := by
        refine ⟨hm, .inr fun c hc => ⟨?_, hmin c hc⟩⟩
        rcases (hF c).mp hc with hc' | hc'
        · exact (hfront c hc' x mem_cons_self).le
        · exact (mem_singleton.mp hc').le
      exact isChain_cons_cons.mpr ⟨(h x hxF).eq hnext, isChain_singleton _⟩
    | cons y l =>
      have hnext : IsNext F x y := by
        refine ⟨(hF y).mpr (.inr (by simp)), .inl ⟨hlow y mem_cons_self, ?_⟩⟩
        rintro c hc ⟨hxc, hcy⟩
        rcases (hF c).mp hc with hc' | hc'
        · exact lt_asymm hxc (hfront c hc' x mem_cons_self)
        · rcases mem_cons.mp hc' with rfl | hc'
          · exact lt_irrefl _ hxc
          · rcases mem_cons.mp hc' with rfl | hc'
            · exact lt_irrefl _ hcy
            · exact lt_asymm hcy ((pairwise_cons.mp hrest).1 c hc')
      refine isChain_cons_cons.mpr ⟨(h x hxF).eq hnext, ?_⟩
      apply ih (front ++ [x])
      · intro z
        rw [hF z]
        simp only [mem_append, mem_cons, not_mem_nil, or_false]
        tauto
      · intro z hz w hw
        rcases mem_append.mp hz with hz | hz
        · exact hfront z hz w (mem_cons_of_mem x hw)
        · obtain rfl := mem_singleton.mp hz
          exact hlow w hw
      · exact hrest

/-- **The nodes from `a` on are an ascending list with one wrap.** -/
theorem circle (h : IsRing F next) (ha : a ∈ F) :
    ∃ low high, (low ++ a :: high).Pairwise (· < ·) ∧ (∀ x, x ∈ F ↔ x ∈ low ++ a :: high) ∧
      Circle next (a :: high ++ low) := by
  obtain ⟨low, high, hsplit⟩ := append_of_mem ((Finset.mem_sort (· ≤ ·)).mpr ha)
  have hmem : ∀ x, x ∈ F ↔ x ∈ low ++ a :: high := by
    intro x
    rw [← hsplit, Finset.mem_sort]
  have hsorted : (low ++ a :: high).Pairwise (· < ·) := by
    rw [← hsplit]
    exact (Finset.sortedLT_sort F).pairwise
  refine ⟨low, high, hsorted, hmem, ?_⟩
  -- the chain from the smallest node on, cut at a
  cases low with
  | nil =>
    rw [append_nil]
    refine h.isChain ha ?_ (a :: high) [] (by simpa using hmem) (by simp) hsorted
    intro c hc
    rcases mem_cons.mp ((hmem c).mp hc) with rfl | hc
    · exact le_rfl
    · exact ((pairwise_cons.mp hsorted).1 c hc).le
  | cons m low =>
    have hm : m ∈ F := (hmem m).mpr (by simp)
    have hmin : ∀ c ∈ F, m ≤ c := by
      intro c hc
      rcases mem_cons.mp ((hmem c).mp hc) with rfl | hc
      · exact le_rfl
      · exact ((pairwise_cons.mp hsorted).1 c hc).le
    have hchain := h.isChain hm hmin (m :: low ++ a :: high) [] (by simpa using hmem) (by simp)
      hsorted
    rw [append_assoc] at hchain
    obtain ⟨hfront, hback⟩ := isChain_split.mp hchain
    show List.IsChain _ (a :: high ++ m :: low ++ [a])
    rw [append_assoc]
    exact isChain_split.mpr ⟨hback, hfront⟩

end IsRing

end Xv6.Lib
