/-
  Xv6.Lib.Forest — parent pointers over a finite type.

  If the values of `parent` have a smaller rank than their argument, walking up from
  any node ends and visits no node twice.
-/
import Mathlib

namespace Xv6.Lib

variable {α : Type*}

/-- The nodes on the way up, nearest first; `none` if the walk has not ended after `fuel` nodes. -/
def walkUp (parent : α → Option α) : Nat → Option α → Option (List α)
  | _, none => some []
  | 0, some _ => none
  | fuel + 1, some q => (walkUp parent fuel (parent q)).map (q :: ·)

def IsParent (parent : α → Option α) (i q : α) : Prop := parent i = some q

/-- Any number of pointers up, at least one. -/
def IsAncestor (parent : α → Option α) : α → α → Prop := Relation.TransGen (IsParent parent)

/-- `rank` decreases along the pointers. -/
def Ranked (parent : α → Option α) (rank : α → Nat) : Prop :=
  ∀ i q, parent i = some q → rank q < rank i

section Walk

variable {parent : α → Option α}

theorem walkUp_of_length_le {fuel fuel' : Nat} {o : Option α} {l : List α}
    (h : walkUp parent fuel o = some l) (hl : l.length ≤ fuel') :
    walkUp parent fuel' o = some l := by
  induction fuel generalizing o l fuel' with
  | zero =>
    cases o with
    | none => simpa [walkUp] using h
    | some q => exact absurd h (by simp [walkUp])
  | succ n ih =>
    cases o with
    | none => simpa [walkUp] using h
    | some q =>
      obtain ⟨rest, hrest, rfl⟩ := Option.map_eq_some_iff.mp h
      cases fuel' with
      | zero => exact absurd hl (by simp)
      | succ m =>
        rw [walkUp, ih hrest (by simpa using hl), Option.map_some]

theorem not_isAncestor_of_root {i : α} (hp : parent i = none) (q : α) :
    ¬ IsAncestor parent i q := by
  intro ha
  obtain ⟨b, hb, _⟩ := Relation.TransGen.head'_iff.mp ha
  exact absurd (hp.symm.trans hb) (by simp)

theorem mem_walkUp {fuel : Nat} {i : α} {l : List α} (h : walkUp parent fuel (parent i) = some l)
    (q : α) : q ∈ l ↔ IsAncestor parent i q := by
  induction fuel generalizing i l with
  | zero =>
    cases hp : parent i with
    | none =>
      rw [hp] at h
      obtain rfl : [] = l := Option.some.inj h
      exact ⟨fun hq => absurd hq (by simp), fun ha => absurd ha (not_isAncestor_of_root hp q)⟩
    | some b => rw [hp] at h; exact absurd h (by simp [walkUp])
  | succ n ih =>
    cases hp : parent i with
    | none =>
      rw [hp] at h
      obtain rfl : [] = l := Option.some.inj h
      exact ⟨fun hq => absurd hq (by simp), fun ha => absurd ha (not_isAncestor_of_root hp q)⟩
    | some b =>
      rw [hp] at h
      obtain ⟨rest, hrest, rfl⟩ := Option.map_eq_some_iff.mp h
      have hstep : IsParent parent i b := hp
      rw [List.mem_cons]
      constructor
      · intro hq
        rcases hq with rfl | hq
        · exact .single hstep
        · exact .head hstep ((ih hrest).mp hq)
      · intro ha
        obtain ⟨c, hc, hcq⟩ := (Relation.TransGen.head'_iff).mp ha
        obtain rfl : b = c := Option.some.inj (hp.symm.trans hc)
        rcases Relation.reflTransGen_iff_eq_or_transGen.mp hcq with rfl | hcq
        · exact .inl rfl
        · exact .inr ((ih hrest).mpr hcq)

end Walk

section Rank

variable {parent : α → Option α} {rank : α → Nat}

theorem Ranked.lt_of_isAncestor (h : Ranked parent rank) {i q : α} (ha : IsAncestor parent i q) :
    rank q < rank i := by
  induction ha with
  | single hp => exact h _ _ hp
  | tail _ hp ih => exact Nat.lt_trans (h _ _ hp) ih

theorem Ranked.not_isAncestor_self (h : Ranked parent rank) (i : α) : ¬ IsAncestor parent i i :=
  fun ha => Nat.lt_irrefl _ (h.lt_of_isAncestor ha)

theorem Ranked.walkUp_rank (h : Ranked parent rank) (fuel : Nat) (i : α) (hi : rank i ≤ fuel) :
    ∃ l, walkUp parent fuel (parent i) = some l ∧ l.Nodup ∧ ∀ q ∈ l, rank q < rank i := by
  induction fuel generalizing i with
  | zero =>
    cases hp : parent i with
    | none => exact ⟨[], rfl, List.nodup_nil, by simp⟩
    | some b => exact absurd (h i b hp) (by omega)
  | succ n ih =>
    cases hp : parent i with
    | none => exact ⟨[], rfl, List.nodup_nil, by simp⟩
    | some b =>
      have hb := h i b hp
      obtain ⟨l, hl, hnd, hlt⟩ := ih b (by omega)
      refine ⟨b :: l, by rw [walkUp, hl, Option.map_some], ?_, ?_⟩
      · exact List.nodup_cons.mpr ⟨fun hm => Nat.lt_irrefl _ (hlt b hm), hnd⟩
      · intro q hq
        rcases List.mem_cons.mp hq with rfl | hq
        · exact hb
        · exact Nat.lt_trans (hlt q hq) hb

/-- **Walks are short.**  As much fuel as there are nodes is enough, and fewer
nodes are met. -/
theorem Ranked.walkUp_card [Fintype α] (h : Ranked parent rank) (i : α) :
    ∃ l, (∀ fuel, l.length ≤ fuel → walkUp parent fuel (parent i) = some l) ∧
      (i :: l).Nodup ∧ l.length < Fintype.card α := by
  obtain ⟨l, hl, hnd, hlt⟩ := h.walkUp_rank (rank i) i (Nat.le_refl _)
  have hnodup : (i :: l).Nodup := List.nodup_cons.mpr ⟨fun hm => Nat.lt_irrefl _ (hlt i hm), hnd⟩
  have hcard := hnodup.length_le_card
  rw [List.length_cons] at hcard
  exact ⟨l, fun fuel hf => walkUp_of_length_le hl hf, hnodup, hcard⟩

end Rank

end Xv6.Lib
