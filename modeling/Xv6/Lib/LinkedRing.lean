/-
  Xv6.Lib.LinkedRing — circular doubly linked lists through a head.

  A ring is a list `l` such that `next` leads from the head (`none`) over `l` back to the
  head, and `prev` over the reverse of `l`.
-/
import Mathlib

namespace Xv6.Lib

open List

section Leads

variable {β : Type} {f g : Option β → Option β} {x y z w : Option β} {l l₁ l₂ : List β} {b : β}

def Leads (f : Option β → Option β) : Option β → List β → Option β → Prop
  | x, [], y => f x = y
  | x, b :: l, y => f x = some b ∧ Leads f (some b) l y

def firstNode (l : List β) (y : Option β) : Option β := (l.head?.map some).getD y

def lastNode (x : Option β) (l : List β) : Option β := (l.getLast?.map some).getD x

theorem lastNode_cons (x : Option β) (b : β) (l : List β) :
    lastNode x (b :: l) = lastNode (some b) l := by
  cases l <;> simp [lastNode, List.getLast?_cons]

theorem firstNode_reverse (l : List β) : firstNode l.reverse x = lastNode x l := by
  simp [firstNode, lastNode]

theorem lastNode_mem (x : Option β) (l : List β) :
    lastNode x l = x ∨ ∃ b ∈ l, lastNode x l = some b := by
  induction l generalizing x with
  | nil => exact .inl rfl
  | cons b l ih =>
    rw [lastNode_cons]
    rcases ih (some b) with h | ⟨c, hc, h⟩
    · exact .inr ⟨b, by simp, h⟩
    · exact .inr ⟨c, by simp [hc], h⟩

theorem lastNode_ne (hx : x ≠ some b) (hb : b ∉ l) : lastNode x l ≠ some b := by
  rcases lastNode_mem x l with h | ⟨c, hc, h⟩
  · rwa [h]
  · rw [h]
    intro he
    exact hb (Option.some.inj he ▸ hc)

theorem Leads.first (h : Leads f x l y) : f x = firstNode l y := by
  cases l with
  | nil => exact h
  | cons b l => exact h.1

theorem leads_append : Leads f x (l₁ ++ b :: l₂) y ↔ Leads f x l₁ (some b) ∧ Leads f (some b) l₂ y := by
  induction l₁ generalizing x with
  | nil => rfl
  | cons c l₁ ih => exact (and_congr_right fun _ => ih).trans and_assoc.symm

theorem Leads.congr (h : Leads f x l y) (hx : g x = f x) (hl : ∀ b ∈ l, g (some b) = f (some b)) :
    Leads g x l y := by
  induction l generalizing x with
  | nil => exact hx.trans h
  | cons b l ih =>
    refine ⟨hx.trans h.1, ih h.2 (hl b mem_cons_self) ?_⟩
    intro c hc
    exact hl c (mem_cons_of_mem b hc)

theorem Leads.start (h : Leads f x l y) (hz : f z = f x) : Leads f z l y := by
  cases l with
  | nil => exact hz.trans h
  | cons b l => exact ⟨hz.trans h.1, h.2⟩

variable [DecidableEq β]

theorem Leads.update_of_ne (h : Leads f x l y) (hx : x ≠ z) (hl : ∀ b ∈ l, some b ≠ z) :
    Leads (Function.update f z w) x l y :=
  h.congr (Function.update_of_ne hx _ _) fun b hb => Function.update_of_ne (hl b hb) _ _

theorem Leads.redirect (h : Leads f x l y) (hx : ∀ b ∈ l, some b ≠ x) (hl : l.Nodup) :
    Leads (Function.update f (lastNode x l) z) x l z := by
  induction l generalizing x with
  | nil => exact Function.update_self _ _ _
  | cons b l ih =>
    rw [nodup_cons] at hl
    rw [lastNode_cons]
    constructor
    · have hne : x ≠ lastNode (some b) l := by
        rcases lastNode_mem (some b) l with he | ⟨c, hc, he⟩
        · rw [he]
          exact (hx b mem_cons_self).symm
        · rw [he]
          exact (hx c (mem_cons_of_mem b hc)).symm
      rw [Function.update_of_ne hne]
      exact h.1
    · apply ih h.2 _ hl.2
      intro c hc he
      exact hl.1 (Option.some.inj he ▸ hc)

theorem Leads.skip (h : Leads f none (l₁ ++ b :: l₂) none) (hl : (l₁ ++ b :: l₂).Nodup) :
    Leads (Function.update f (lastNode none l₁) (f (some b))) none (l₁ ++ l₂) none := by
  obtain ⟨hl₁, hl₂, hdisj⟩ := nodup_append.mp hl
  obtain ⟨hfront, hback⟩ := leads_append.mp h
  have hfirst : ∀ z, Leads (Function.update f (lastNode none l₁) z) none l₁ z :=
    fun z => hfront.redirect (fun c _ => Option.some_ne_none c) hl₁
  cases l₂ with
  | nil =>
    rw [append_nil, show f (some b) = none from hback]
    exact hfirst none
  | cons c l₂ =>
    rw [hback.1]
    apply leads_append.mpr
    refine ⟨hfirst (some c), hback.2.update_of_ne ?_ ?_⟩
    · exact (lastNode_ne (by simp) fun hc => hdisj c hc c (by simp) rfl).symm
    · intro d hd
      exact (lastNode_ne (by simp) fun hd' => hdisj d hd' d (by simp [hd]) rfl).symm

end Leads

/-! ## §2. Rings. -/

structure Links (β : Type) where
  next : Option β → Option β
  prev : Option β → Option β

namespace Links

variable {β : Type} (k : Links β)

def empty : Links β := { next := fun _ => none, prev := fun _ => none }

section Changes

variable [DecidableEq β]

def unlink (b : β) : Links β :=
  let prev := Function.update k.prev (k.next (some b)) (k.prev (some b))
  { prev := prev, next := Function.update k.next (prev (some b)) (k.next (some b)) }

/-- `b->next = head.next; b->prev = &head; head.next->prev = b; head.next = b`. -/
def insert (b : β) : Links β :=
  let next := Function.update k.next (some b) (k.next none)
  let prev := Function.update k.prev (some b) none
  { prev := Function.update prev (next none) (some b), next := Function.update next none (some b) }

end Changes

/-- A walk for an element with `p`: `none` if it has not ended, `some none` if it is back at the
head. -/
def walk (step : Option β → Option β) (p : β → Bool) : Nat → Option β → Option (Option β)
  | 0, _ => none
  | _ + 1, none => some none
  | fuel + 1, some b => if p b then some (some b) else walk step p fuel (step (some b))

theorem walk_eq {step : Option β → Option β} {p : β → Bool} {l : List β} {x : Option β} {fuel : Nat}
    (h : Leads step x l none) (hfuel : l.length < fuel) :
    walk step p fuel (step x) = some (l.find? p) := by
  induction l generalizing x fuel with
  | nil =>
    obtain ⟨fuel, rfl⟩ := Nat.exists_eq_succ_of_ne_zero (Nat.ne_of_gt hfuel)
    rw [show step x = none from h]
    rfl
  | cons b l ih =>
    obtain ⟨fuel, rfl⟩ := Nat.exists_eq_succ_of_ne_zero (Nat.ne_of_gt (Nat.zero_lt_of_lt hfuel))
    rw [h.1, walk, List.find?_cons]
    cases hp : p b with
    | true => rfl
    | false => exact ih h.2 (Nat.lt_of_succ_lt_succ hfuel)

/-- The nodes of `l`, in this order, form a ring with the head. -/
structure IsRing (l : List β) : Prop where
  nodup : l.Nodup
  next : Leads k.next none l none
  prev : Leads k.prev none l.reverse none

end Links

namespace Links.IsRing

variable {β : Type} {k : Links β} {l l₁ l₂ : List β} {b : β}

theorem empty : (Links.empty : Links β).IsRing [] := ⟨nodup_nil, rfl, rfl⟩

theorem walk_next (h : k.IsRing l) {p : β → Bool} {fuel : Nat} (hfuel : l.length < fuel) :
    walk k.next p fuel (k.next none) = some (l.find? p) :=
  walk_eq h.next hfuel

theorem walk_prev (h : k.IsRing l) {p : β → Bool} {fuel : Nat} (hfuel : l.length < fuel) :
    walk k.prev p fuel (k.prev none) = some (l.reverse.find? p) :=
  walk_eq h.prev (by rwa [length_reverse])

variable [DecidableEq β]

theorem unlink (h : k.IsRing (l₁ ++ b :: l₂)) : (k.unlink b).IsRing (l₁ ++ l₂) := by
  have hprev := h.prev
  have hnodup := nodup_reverse.mpr h.nodup
  have hrev : (l₁ ++ b :: l₂).reverse = l₂.reverse ++ b :: l₁.reverse := by simp
  rw [hrev] at hprev hnodup
  -- the two neighbours of b
  have hnext_b : k.next (some b) = lastNode none l₂.reverse := by
    rw [(leads_append.mp h.next).2.first, ← firstNode_reverse, reverse_reverse]
  have hprev_b : k.prev (some b) = lastNode none l₁ := by
    rw [(leads_append.mp hprev).2.first, firstNode_reverse]
  have hne : some b ≠ lastNode none l₂.reverse := by
    have hb : b ∉ l₂ := (nodup_cons.mp (nodup_append.mp h.nodup).2.1).1
    exact (lastNode_ne (by simp) (by simpa using hb)).symm
  refine ⟨?_, ?_, ?_⟩
  · exact (nodup_middle.mp h.nodup).of_cons
  · show Leads (Function.update k.next (Function.update k.prev _ _ (some b)) _) _ _ _
    rw [hnext_b, Function.update_of_ne hne, hprev_b, ← hnext_b]
    exact h.next.skip h.nodup
  · show Leads (Function.update k.prev _ _) _ _ _
    rw [hnext_b, reverse_append]
    exact hprev.skip hnodup

theorem insert (h : k.IsRing l) (hb : b ∉ l) : (k.insert b).IsRing (b :: l) := by
  have hhead : k.next none = lastNode none l.reverse := by
    rw [h.next.first, ← firstNode_reverse, reverse_reverse]
  have hne : some b ≠ lastNode none l.reverse := (lastNode_ne (by simp) (by simpa using hb)).symm
  have hb' : ∀ c ∈ l, some c ≠ some b := fun c hc he => hb (Option.some.inj he ▸ hc)
  -- b points where the head pointed
  have hnext : Leads (Function.update k.next (some b) (k.next none)) (some b) l none := by
    apply (h.next.update_of_ne (by simp) hb').start
    simp
  have hprev := h.prev.update_of_ne (w := none) (z := some b) (by simp)
    fun c hc => hb' c (mem_reverse.mp hc)
  have hprev_eq : (k.insert b).prev = Function.update (Function.update k.prev (some b) none)
      (lastNode none l.reverse) (some b) := by
    rw [← hhead]
    rfl
  refine ⟨nodup_cons.mpr ⟨hb, h.nodup⟩, ⟨?_, ?_⟩, ?_⟩
  · simp [Links.insert]
  · exact hnext.update_of_ne (by simp) fun c _ => Option.some_ne_none c
  · rw [hprev_eq, reverse_cons]
    apply leads_append.mpr
    refine ⟨hprev.redirect (fun c _ => Option.some_ne_none c) (nodup_reverse.mpr h.nodup), ?_⟩
    exact (Function.update_of_ne hne _ _).trans (Function.update_self _ _ _)

theorem foldl_insert {l' : List β} (h : k.IsRing l) (hl' : l'.Nodup) (hnew : ∀ b ∈ l', b ∉ l) :
    (l'.foldl (fun k b => k.insert b) k).IsRing (l'.reverse ++ l) := by
  induction l' generalizing k l with
  | nil => exact h
  | cons b l' ih =>
    rw [nodup_cons] at hl'
    rw [foldl_cons, reverse_cons, append_assoc]
    apply ih (h.insert (hnew b mem_cons_self)) hl'.2
    intro c hc hmem
    rcases mem_cons.mp hmem with rfl | hmem
    · exact hl'.1 hc
    · exact hnew c (mem_cons_of_mem b hc) hmem

end Links.IsRing

end Xv6.Lib
