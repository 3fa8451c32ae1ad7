/-
  Xv6.Lib.Alloc — programs over a shared allocator, and what they own.

  A `Prog` takes resources from a free list, gives them back, and draws numbers from a
  counter; other programs may run between any two of its effects.  `Prog.wp` is a weakest
  precondition over the resources a program owns.
-/
import Mathlib

namespace Xv6.Lib

open List

/-! ## §1. The history of an allocator. -/

inductive Event (ρ : Type) where
  | alloc (who : Nat) (r : ρ)
  | free (r : ρ)
  deriving DecidableEq

section Ledger

variable {ρ : Type}

/-- `r` was taken for `who` and has not been given back since. -/
def Owed (trace : List (Event ρ)) (who : Nat) (r : ρ) : Prop :=
  ∃ l₁ l₂, trace = l₁ ++ .alloc who r :: l₂ ∧ .free r ∉ l₂

/-- `r` was given back and has not been taken since. -/
def Returned (trace : List (Event ρ)) (r : ρ) : Prop :=
  ∃ l₁ l₂, trace = l₁ ++ .free r :: l₂ ∧ ∀ who, .alloc who r ∉ l₂

/-- Between two returns of a resource it was taken. -/
def NoDoubleFree (trace : List (Event ρ)) : Prop :=
  ∀ l₁ l₂ l₃ r, trace = l₁ ++ .free r :: l₂ ++ .free r :: l₃ → ∃ who, .alloc who r ∈ l₂

/-- Between two takings of a resource it was given back. -/
def NoDoubleAlloc (trace : List (Event ρ)) : Prop :=
  ∀ l₁ l₂ l₃ r who who', trace = l₁ ++ .alloc who r :: l₂ ++ .alloc who' r :: l₃ → .free r ∈ l₂

variable {trace l₁ l₂ : List (Event ρ)} {who who' : Nat} {r r' : ρ} {e e' : Event ρ}

/-- A split of a history that has grown by `e'` is at `e'`, or one of the older history. -/
theorem split_snoc (h : trace ++ [e'] = l₁ ++ e :: l₂) :
    (l₂ = [] ∧ e = e' ∧ trace = l₁) ∨ ∃ l, l₂ = l ++ [e'] ∧ trace = l₁ ++ e :: l := by
  rcases eq_nil_or_concat l₂ with rfl | ⟨l, last, rfl⟩
  · left
    obtain ⟨h1, h2⟩ := append_inj' h rfl
    exact ⟨rfl, (singleton_inj.mp h2).symm, h1⟩
  · right
    have h' : trace ++ [e'] = (l₁ ++ e :: l) ++ [last] := by rw [h]; simp
    obtain ⟨h1, h2⟩ := append_inj' h' rfl
    exact ⟨l, by rw [concat_eq_append, singleton_inj.mp h2], h1⟩

theorem owed_alloc (h : Owed (trace ++ [.alloc who' r']) who r) :
    (who = who' ∧ r = r') ∨ Owed trace who r := by
  obtain ⟨l₁, l₂, htr, hno⟩ := h
  rcases split_snoc htr with ⟨_, he, _⟩ | ⟨l, rfl, hold⟩
  · left
    injection he with hw hr
    exact ⟨hw, hr⟩
  · right
    exact ⟨l₁, l, hold, fun hmem => hno (mem_append_left _ hmem)⟩

theorem owed_free (h : Owed (trace ++ [.free r']) who r) : r ≠ r' ∧ Owed trace who r := by
  obtain ⟨l₁, l₂, htr, hno⟩ := h
  rcases split_snoc htr with ⟨_, he, _⟩ | ⟨l, rfl, hold⟩
  · cases he
  · refine ⟨?_, l₁, l, hold, fun hmem => hno (mem_append_left _ hmem)⟩
    rintro rfl
    exact hno (mem_append_right _ (mem_singleton.mpr rfl))

theorem owed_cons : Owed (e :: trace) who r ↔
    (e = .alloc who r ∧ .free r ∉ trace) ∨ Owed trace who r := by
  constructor
  · rintro ⟨l₁, l₂, htr, hno⟩
    cases l₁ with
    | nil =>
      obtain ⟨he, rfl⟩ := List.cons.inj htr
      exact .inl ⟨he, hno⟩
    | cons e' l₁ => exact .inr ⟨l₁, l₂, (List.cons.inj htr).2, hno⟩
  · rintro (⟨rfl, hno⟩ | ⟨l₁, l₂, rfl, hno⟩)
    · exact ⟨[], trace, rfl, hno⟩
    · exact ⟨e :: l₁, l₂, rfl, hno⟩

instance decidableOwed [DecidableEq ρ] :
    (trace : List (Event ρ)) → (who : Nat) → (r : ρ) → Decidable (Owed trace who r)
  | [], _, _ => isFalse fun ⟨l₁, _, h, _⟩ => by cases l₁ <;> cases h
  | _ :: trace, who, r =>
    have := decidableOwed trace who r
    decidable_of_iff _ owed_cons.symm

theorem returned_alloc (h : Returned (trace ++ [.alloc who r']) r) : r ≠ r' ∧ Returned trace r := by
  obtain ⟨l₁, l₂, htr, hno⟩ := h
  rcases split_snoc htr with ⟨_, he, _⟩ | ⟨l, rfl, hold⟩
  · cases he
  · refine ⟨?_, l₁, l, hold, fun w hmem => hno w (mem_append_left _ hmem)⟩
    rintro rfl
    exact hno who (mem_append_right _ (mem_singleton.mpr rfl))

theorem returned_free (h : Returned (trace ++ [.free r']) r) : r = r' ∨ Returned trace r := by
  obtain ⟨l₁, l₂, htr, hno⟩ := h
  rcases split_snoc htr with ⟨_, he, _⟩ | ⟨l, rfl, hold⟩
  · left
    injection he
  · right
    exact ⟨l₁, l, hold, fun w hmem => hno w (mem_append_left _ hmem)⟩

theorem NoDoubleFree.alloc (h : NoDoubleFree trace) : NoDoubleFree (trace ++ [.alloc who r]) := by
  intro l₁ l₂ l₃ r' htr
  rcases split_snoc htr with ⟨_, he, _⟩ | ⟨l, _, hold⟩
  · cases he
  · exact h l₁ l₂ l r' hold

theorem NoDoubleFree.free (h : NoDoubleFree trace) (hr : ¬ Returned trace r) :
    NoDoubleFree (trace ++ [.free r]) := by
  intro l₁ l₂ l₃ r' htr
  rcases split_snoc htr with ⟨_, he, hold⟩ | ⟨l, _, hold⟩
  · -- the second return is the new one: the first must have been undone
    injection he with he
    subst he
    by_contra hno
    exact hr ⟨l₁, l₂, hold, fun w hw => hno ⟨w, hw⟩⟩
  · exact h l₁ l₂ l r' hold

theorem NoDoubleAlloc.free (h : NoDoubleAlloc trace) : NoDoubleAlloc (trace ++ [.free r]) := by
  intro l₁ l₂ l₃ r' w w' htr
  rcases split_snoc htr with ⟨_, he, _⟩ | ⟨l, _, hold⟩
  · cases he
  · exact h l₁ l₂ l r' w w' hold

theorem NoDoubleAlloc.alloc (h : NoDoubleAlloc trace) (hr : ∀ w, ¬ Owed trace w r) :
    NoDoubleAlloc (trace ++ [.alloc who r]) := by
  intro l₁ l₂ l₃ r' w w' htr
  rcases split_snoc htr with ⟨_, he, hold⟩ | ⟨l, _, hold⟩
  · injection he with _ he
    subst he
    by_contra hno
    exact hr w ⟨l₁, l₂, hold, hno⟩
  · exact h l₁ l₂ l r' w w' hold

end Ledger

/-! ## §2. The allocator. -/

structure Heap (ρ ν : Type) where
  free : List ρ
  next : ν
  trace : List (Event ρ)
  deriving DecidableEq

section Heap

variable {ρ ν : Type}

/-- The history tells the free list: what was given back last is on it, and the two events
alternate. -/
structure Sound (h : Heap ρ ν) : Prop where
  returned : ∀ r, Returned h.trace r → r ∈ h.free
  owed : ∀ who r, Owed h.trace who r → r ∉ h.free
  noDoubleFree : NoDoubleFree h.trace
  noDoubleAlloc : NoDoubleAlloc h.trace

/-- What one effect does to the free list, to the history and to what its program owns. -/
inductive Moves (who : Nat) (h h' : Heap ρ ν) (own own' : Multiset ρ) : Prop
  | quiet (hf : h'.free = h.free) (ht : h'.trace = h.trace) (ho : own' = own)
  | alloc (r : ρ) (hf : h.free = r :: h'.free) (ht : h'.trace = h.trace ++ [.alloc who r])
    (ho : own' = r ::ₘ own)
  | free (r : ρ) (hf : h'.free = r :: h.free) (ht : h'.trace = h.trace ++ [.free r])
    (ho : own = r ::ₘ own')

variable {who : Nat} {h h' : Heap ρ ν} {own own' : Multiset ρ}

theorem Moves.conserve (hm : Moves who h h' own own') :
    (h'.free : Multiset ρ) + own' = h.free + own := by
  cases hm with
  | quiet hf _ ho => rw [hf, ho]
  | alloc r hf _ ho | free r hf _ ho =>
    rw [hf, ho, ← Multiset.cons_coe, Multiset.cons_add, Multiset.add_cons]

theorem Moves.frame (hm : Moves who h h' own own') (rest : Multiset ρ) :
    Moves who h h' (own + rest) (own' + rest) := by
  cases hm with
  | quiet hf ht ho => exact .quiet hf ht (by rw [ho])
  | alloc r hf ht ho => exact .alloc r hf ht (by rw [ho, Multiset.cons_add])
  | free r hf ht ho => exact .free r hf ht (by rw [ho, Multiset.cons_add])

theorem Sound.moves (hs : Sound h) (hm : Moves who h h' own own')
    (hnd : ((h.free : Multiset ρ) + own).Nodup) : Sound h' := by
  cases hm with
  | quiet hf ht _ =>
    constructor
    · intro r hr; rw [hf]; exact hs.returned r (ht ▸ hr)
    · intro w r hr; rw [hf]; exact hs.owed w r (ht ▸ hr)
    · rw [ht]; exact hs.noDoubleFree
    · rw [ht]; exact hs.noDoubleAlloc
  | alloc r hf ht _ =>
    have hmem : r ∈ h.free := hf ▸ mem_cons_self
    have hfresh : r ∉ h'.free := by
      have hl : (h.free : Multiset ρ).Nodup := (Multiset.nodup_add.mp hnd).1
      rw [hf, Multiset.coe_nodup, nodup_cons] at hl
      exact hl.1
    constructor
    · intro r' hr'
      rw [ht] at hr'
      obtain ⟨hne, hr'⟩ := returned_alloc hr'
      have := hs.returned r' hr'
      rw [hf, mem_cons] at this
      exact this.resolve_left hne
    · intro w r' hr'
      rw [ht] at hr'
      rcases owed_alloc hr' with ⟨_, rfl⟩ | hr'
      · exact hfresh
      · intro hin
        exact hs.owed w r' hr' (hf ▸ mem_cons_of_mem _ hin)
    · rw [ht]; exact hs.noDoubleFree.alloc
    · rw [ht]; exact hs.noDoubleAlloc.alloc fun w hw => hs.owed w r hw hmem
  | free r hf ht ho =>
    -- what is given back was owned, so it is not on the free list
    have hout : r ∉ h.free := by
      have hdis := (Multiset.nodup_add.mp hnd).2.2
      intro hin
      have hown : r ∈ own := ho ▸ Multiset.mem_cons_self r own'
      exact Multiset.disjoint_left.mp hdis (Multiset.mem_coe.mpr hin) hown
    constructor
    · intro r' hr'
      rw [ht] at hr'
      rw [hf, mem_cons]
      rcases returned_free hr' with rfl | hr'
      · exact .inl rfl
      · exact .inr (hs.returned r' hr')
    · intro w r' hr'
      rw [ht] at hr'
      obtain ⟨hne, hr'⟩ := owed_free hr'
      rw [hf, mem_cons]
      exact not_or.mpr ⟨hne, hs.owed w r' hr'⟩
    · rw [ht]; exact hs.noDoubleFree.free fun hr => hout (hs.returned r hr)
    · rw [ht]; exact hs.noDoubleAlloc.free

end Heap

/-! ## §3. Programs. -/

/-- A computation over the allocator.  `abort` stops everything. -/
inductive Prog (ρ ν α : Type) where
  | ret (a : α)
  | alloc (k : Option ρ → Prog ρ ν α)
  | free (r : ρ) (k : Prog ρ ν α)
  | draw (k : ν → Prog ρ ν α)
  | abort (why : String)

namespace Prog

variable {ρ ν α β : Type}

def bind : Prog ρ ν α → (α → Prog ρ ν β) → Prog ρ ν β
  | ret a, f => f a
  | alloc k, f => alloc fun r => (k r).bind f
  | free r k, f => free r (k.bind f)
  | draw k, f => draw fun n => (k n).bind f
  | abort why, _ => abort why

instance : Monad (Prog ρ ν) where
  pure := ret
  bind := bind

@[simp] theorem pure_bind (a : α) (f : α → Prog ρ ν β) : (pure a >>= f) = f a := rfl

/-- One effect of a program, on behalf of `who`; `bump` advances the counter. -/
def step (ok : ρ → Bool) (bump : ν → ν) (who : Nat) :
    Prog ρ ν α → Heap ρ ν → Option (Prog ρ ν α × Heap ρ ν)
  | ret _, _ => none
  | abort _, _ => none
  | alloc k, h =>
    match h.free with
    | [] => some (k none, h)
    | r :: rest =>
      some (k (some r), { h with free := rest, trace := h.trace ++ [.alloc who r] })
  | free r k, h =>
    if ok r then some (k, { h with free := r :: h.free, trace := h.trace ++ [.free r] })
    else none
  | draw k, h => some (k h.next, { h with next := bump h.next })

def run (ok : ρ → Bool) (bump : ν → ν) (who : Nat) :
    Prog ρ ν α → Heap ρ ν → Option (α × Heap ρ ν)
  | ret a, h => some (a, h)
  | abort _, _ => none
  | alloc k, h =>
    match h.free with
    | [] => (k none).run ok bump who h
    | r :: rest =>
      (k (some r)).run ok bump who
        { h with free := rest, trace := h.trace ++ [.alloc who r] }
  | free r k, h =>
    if ok r then
      k.run ok bump who { h with free := r :: h.free, trace := h.trace ++ [.free r] }
    else none
  | draw k, h => (k h.next).run ok bump who { h with next := bump h.next }

theorem run_bind (ok : ρ → Bool) (bump : ν → ν) (who : Nat) (prog : Prog ρ ν α)
    (f : α → Prog ρ ν β) (h : Heap ρ ν) :
    (prog >>= f).run ok bump who h =
      (prog.run ok bump who h).bind fun r => (f r.1).run ok bump who r.2 := by
  show (prog.bind f).run ok bump who h = _
  induction prog generalizing h with
  | ret a => rfl
  | abort why => rfl
  | alloc k ih =>
    simp only [bind, run]
    split
    · exact ih none h
    · exact ih _ _
  | free r k ih =>
    simp only [bind, run]
    split
    · exact ih _
    · rfl
  | draw k ih =>
    simp only [bind, run]
    exact ih _ _

/-! ## §4. What a program owns. -/

/-- Started with `own`, the program gives back only what it owns and ends in `Q`, unless it aborts.
-/
def wp (Q : α → Multiset ρ → Prop) : Prog ρ ν α → Multiset ρ → Prop
  | ret a, own => Q a own
  | alloc k, own => (k none).wp Q own ∧ ∀ r, (k (some r)).wp Q (r ::ₘ own)
  | free r k, own => ∃ rest, own = r ::ₘ rest ∧ k.wp Q rest
  | draw k, own => ∀ n, (k n).wp Q own
  | abort _, _ => True

variable {Q : α → Multiset ρ → Prop} {own own' : Multiset ρ}

@[simp] theorem wp_pure (a : α) : (pure a : Prog ρ ν α).wp Q own ↔ Q a own := Iff.rfl

@[simp] theorem wp_abort (why : String) : (abort why : Prog ρ ν α).wp Q own := trivial

theorem wp_bind {R : β → Multiset ρ → Prop} (prog : Prog ρ ν α) (f : α → Prog ρ ν β) :
    (prog >>= f).wp R own ↔ prog.wp (fun a own => (f a).wp R own) own := by
  show (prog.bind f).wp R own ↔ _
  induction prog generalizing own with
  | ret a | abort why => exact Iff.rfl
  | alloc k ih => exact and_congr (ih none) (forall_congr' fun r => ih (some r))
  | free r k ih => exact exists_congr fun rest => and_congr_right fun _ => ih
  | draw k ih => exact forall_congr' fun n => ih n

theorem wp_mono {R : α → Multiset ρ → Prop} {prog : Prog ρ ν α} (h : prog.wp Q own)
    (hQR : ∀ a own, Q a own → R a own) : prog.wp R own := by
  induction prog generalizing own with
  | ret a => exact hQR a own h
  | abort why => trivial
  | alloc k ih => exact ⟨ih none h.1, fun r => ih (some r) (h.2 r)⟩
  | free r k ih =>
    obtain ⟨rest, hown, hk⟩ := h
    exact ⟨rest, hown, ih hk⟩
  | draw k ih => exact fun n => ih n (h n)

section Soundness

variable {ok : ρ → Bool} {bump : ν → ν} {who : Nat} {h h' : Heap ρ ν}

/-- **One effect, whoever else is running**: resources move only between the free list and the
program. -/
theorem step_wp {prog prog' : Prog ρ ν α} (hwp : prog.wp Q own)
    (hs : prog.step ok bump who h = some (prog', h')) :
    ∃ own', prog'.wp Q own' ∧ Moves who h h' own own' := by
  cases prog with
  | ret a => cases hs
  | abort why => cases hs
  | alloc k =>
    simp only [step] at hs
    split at hs
    · cases hs
      exact ⟨own, hwp.1, .quiet rfl rfl rfl⟩
    · next r rest hfree =>
      cases hs
      exact ⟨r ::ₘ own, hwp.2 r, .alloc r hfree rfl rfl⟩
  | free r k =>
    simp only [step] at hs
    split at hs
    · cases hs
      obtain ⟨rest, hown, hk⟩ := hwp
      exact ⟨rest, hk, .free r rfl rfl hown⟩
    · cases hs
  | draw k =>
    cases hs
    exact ⟨own, hwp h.next, .quiet rfl rfl rfl⟩

theorem run_wp (inv : Heap ρ ν → Multiset ρ → Prop)
    (hinv : ∀ h h' own own', inv h own → Moves who h h' own own' → inv h' own')
    {prog : Prog ρ ν α} {a : α} (hwp : prog.wp Q own) (h0 : inv h own)
    (hr : prog.run ok bump who h = some (a, h')) : ∃ own', Q a own' ∧ inv h' own' := by
  induction prog generalizing h own with
  | ret b =>
    cases hr
    exact ⟨own, hwp, h0⟩
  | abort why => cases hr
  | alloc k ih =>
    simp only [run] at hr
    split at hr
    · exact ih none hwp.1 h0 hr
    · next r rest hfree =>
      exact ih (some r) (hwp.2 r) (hinv _ _ _ _ h0 (.alloc r hfree rfl rfl)) hr
  | free r k ih =>
    simp only [run] at hr
    split at hr
    · obtain ⟨rest, hown, hk⟩ := hwp
      exact ih hk (hinv _ _ _ _ h0 (.free r rfl rfl hown)) hr
    · cases hr
  | draw k ih =>
    simp only [run] at hr
    refine ih h.next (hwp h.next) ?_ hr
    exact hinv _ _ _ _ h0 (.quiet rfl rfl rfl)

theorem run_steps {prog : Prog ρ ν α} {a : α} (hr : prog.run ok bump who h = some (a, h')) :
    Relation.ReflTransGen (fun (x y : Prog ρ ν α × Heap ρ ν) => x.1.step ok bump who x.2 = some y)
      (prog, h) (ret a, h') := by
  induction prog generalizing h with
  | ret b =>
    cases hr
    exact .refl
  | abort why => cases hr
  | alloc k ih =>
    simp only [run] at hr
    split at hr
    · next hfree => exact .head (by simp only [step, hfree]) (ih none hr)
    · next r rest hfree => exact .head (by simp only [step, hfree]) (ih (some r) hr)
  | free r k ih =>
    simp only [run] at hr
    split at hr
    · next hok => exact .head (by simp only [step, if_pos hok]) (ih hr)
    · cases hr
  | draw k ih =>
    simp only [run] at hr
    exact .head rfl (ih h.next hr)

end Soundness

/-! ## §5. What a program returns. -/

/-- Whatever it is handed, the program ends with a result that satisfies
`R`, if it does not abort. -/
def ends (R : α → Prop) : Prog ρ ν α → Prop
  | ret a => R a
  | alloc k => ∀ r, (k r).ends R
  | free _ k => k.ends R
  | draw k => ∀ m, (k m).ends R
  | abort _ => True

section Ends

variable {R : α → Prop}

theorem ends_bind {R : β → Prop} (prog : Prog ρ ν α) (g : α → Prog ρ ν β) :
    (prog >>= g).ends R ↔ prog.ends fun a => (g a).ends R := by
  show (prog.bind g).ends R ↔ _
  induction prog with
  | ret a | abort why => exact Iff.rfl
  | alloc k ih => exact forall_congr' fun r => ih r
  | free r k ih => exact ih
  | draw k ih => exact forall_congr' fun m => ih m

theorem ends_mono {S : α → Prop} {prog : Prog ρ ν α} (h : prog.ends R) (hRS : ∀ a, R a → S a) :
    prog.ends S := by
  induction prog with
  | ret a => exact hRS a h
  | abort why => trivial
  | alloc k ih => exact fun r => ih r (h r)
  | free r k ih => exact ih h
  | draw k ih => exact fun m => ih m (h m)

theorem step_ends {ok : ρ → Bool} {bump : ν → ν} {who : Nat} {prog prog' : Prog ρ ν α}
    {h h' : Heap ρ ν} (he : prog.ends R) (hs : prog.step ok bump who h = some (prog', h')) :
    prog'.ends R := by
  cases prog with
  | ret a => cases hs
  | abort why => cases hs
  | alloc k =>
    simp only [step] at hs
    split at hs
    · cases hs
      exact he none
    · next r rest hfree =>
      cases hs
      exact he (some r)
  | free r k =>
    simp only [step] at hs
    split at hs
    · cases hs
      exact he
    · cases hs
  | draw k =>
    cases hs
    exact he h.next

theorem run_ends {ok : ρ → Bool} {bump : ν → ν} {who : Nat} {prog : Prog ρ ν α} {h h' : Heap ρ ν}
    {a : α} (he : prog.ends R) (hrun : prog.run ok bump who h = some (a, h')) : R a := by
  induction prog generalizing h with
  | ret b =>
    cases hrun
    exact he
  | abort why => cases hrun
  | alloc k ih =>
    simp only [run] at hrun
    split at hrun
    · exact ih none (he none) hrun
    · next r rest hfree => exact ih (some r) (he (some r)) hrun
  | free r k ih =>
    simp only [run] at hrun
    split at hrun
    · exact ih he hrun
    · cases hrun
  | draw k ih => exact ih h.next (he h.next) hrun

end Ends

/-! ## §6. The numbers a program draws. -/

/-- Started when the counter is at least `n`, the program ends in `Q` with a lower bound of the
counter, whoever else draws numbers, as long as none above `bound` is drawn; `f` measures the
counter. -/
def draws (f : ν → Nat) (bound : Nat) (Q : Nat → α → Prop) : Prog ρ ν α → Nat → Prop
  | ret a, n => Q n a
  | alloc k, n => ∀ r, (k r).draws f bound Q n
  | free _ k, n => k.draws f bound Q n
  | draw k, n => ∀ m, n ≤ f m → f m ≤ bound → (k m).draws f bound Q (f m + 1)
  | abort _, _ => True

section Draws

variable {f : ν → Nat} {bound n : Nat}

theorem draws_bind {R : Nat → β → Prop} (prog : Prog ρ ν α) (g : α → Prog ρ ν β) :
    (prog >>= g).draws f bound R n ↔ prog.draws f bound (fun n a => (g a).draws f bound R n) n := by
  show (prog.bind g).draws f bound R n ↔ _
  induction prog generalizing n with
  | ret a | abort why => exact Iff.rfl
  | alloc k ih => exact forall_congr' fun r => ih r
  | free r k ih => exact ih
  | draw k ih => exact forall_congr' fun m => imp_congr_right fun _ => imp_congr_right fun _ => ih m

theorem draws_mono {Q R : Nat → α → Prop} {prog : Prog ρ ν α} (h : prog.draws f bound Q n)
    (hQR : ∀ n a, Q n a → R n a) : prog.draws f bound R n := by
  induction prog generalizing n with
  | ret a => exact hQR n a h
  | abort why => trivial
  | alloc k ih => exact fun r => ih r (h r)
  | free r k ih => exact ih h
  | draw k ih => exact fun m hm hb => ih m (h m hm hb)

variable {Q : Nat → α → Prop} {prog prog' : Prog ρ ν α}

theorem draws_and_ends {R : α → Prop} {prog : Prog ρ ν α}
    (hd : prog.draws f bound Q n) (he : prog.ends R) :
    prog.draws f bound (fun n a => Q n a ∧ R a) n := by
  induction prog generalizing n with
  | ret a => exact ⟨hd, he⟩
  | abort why => trivial
  | alloc k ih => exact fun r => ih r (hd r) (he r)
  | free r k ih => exact ih hd he
  | draw k ih => exact fun m hm hb => ih m (hd m hm hb) (he m)

theorem step_next {ok : ρ → Bool} {bump : ν → ν} {who : Nat} {h h' : Heap ρ ν}
    (hs : prog.step ok bump who h = some (prog', h')) :
    h'.next = h.next ∨ h'.next = bump h.next := by
  cases prog with
  | ret a => cases hs
  | abort why => cases hs
  | alloc k =>
    simp only [step] at hs
    split at hs <;> cases hs <;> exact .inl rfl
  | free r k =>
    simp only [step] at hs
    split at hs
    · cases hs
      exact .inl rfl
    · cases hs
  | draw k =>
    cases hs
    exact .inr rfl

theorem step_draws {ok : ρ → Bool} {bump : ν → ν} {who : Nat} {h h' : Heap ρ ν}
    (hbump : ∀ m, f m ≤ bound → f (bump m) = f m + 1) (hd : prog.draws f bound Q n)
    (hn : n ≤ f h.next) (hbound : f h.next ≤ bound)
    (hs : prog.step ok bump who h = some (prog', h')) :
    ∃ n', n' ≤ f h'.next ∧ prog'.draws f bound Q n' := by
  cases prog with
  | ret a => cases hs
  | abort why => cases hs
  | alloc k =>
    simp only [step] at hs
    split at hs
    · cases hs
      exact ⟨n, hn, hd none⟩
    · next r rest hfree =>
      cases hs
      exact ⟨n, hn, hd (some r)⟩
  | free r k =>
    simp only [step] at hs
    split at hs
    · cases hs
      exact ⟨n, hn, hd⟩
    · cases hs
  | draw k =>
    cases hs
    refine ⟨f h.next + 1, ?_, hd h.next hn hbound⟩
    show f h.next + 1 ≤ f (bump h.next)
    rw [hbump h.next hbound]

end Draws

end Prog

end Xv6.Lib
