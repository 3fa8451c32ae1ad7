/-
  Xv6.Vm.Owned — which pages a page table owns, and that vm.c respects it.

  A page table owns its own page-table pages and the pages mapped below TRAPFRAME.
-/
import Xv6.Vm.Uvm

namespace Xv6

open Lib Node Option Prog Multiset Finset

/-! ## §1. The pages of a tree. -/

@[irreducible] def Node.owned {α : Type} (child : Fin 512 → α → Multiset Pa) (n : Node α) : Multiset Pa :=
  n.page ::ₘ ∑ i, (n.slot i).elim 0 (child i)

theorem exchange {M : Type} [AddCancelCommMonoid M] {a a' b b' l x : M}
    (inner : a' + l = a + x) (outer : b' + a = b + a') : b' + l = b + x := by
  apply add_right_cancel (b := a + a')
  calc b' + l + (a + a') = (b' + a) + (a' + l) := by abel
    _ = (b + a') + (a + x) := by rw [outer, inner]
    _ = b + x + (a + a') := by abel

theorem sum_update_add {ι M : Type} [Fintype ι] [DecidableEq ι] [AddCommMonoid M]
    (f : ι → M) (i : ι) (b : M) : ∑ j, Function.update f i b j + f i = ∑ j, f j + b := by
  rw [sum_update_of_mem (mem_univ i), sdiff_singleton_eq_erase,
    ← add_sum_erase _ f (mem_univ i)]
  abel

variable {α : Type} {i : Fin 512}

theorem Node.owned_set (child : Fin 512 → α → Multiset Pa) (n : Node α) (i : Fin 512)
    (x : Option α) :
    (n.set i x).owned child + (n.slot i).elim 0 (child i) = n.owned child + x.elim 0 (child i) := by
  have hslot : (fun j => ((n.set i x).slot j).elim 0 (child j)) =
      Function.update (fun j => (n.slot j).elim 0 (child j)) i (x.elim 0 (child i)) := by
    funext j
    by_cases hj : j = i
    · subst hj; simp [Node.set]
    · simp [Node.set, hj]
  unfold Node.owned
  rw [hslot, cons_add, cons_add, sum_update_add]
  rfl

@[simp] theorem Node.owned_empty (child : Fin 512 → α → Multiset Pa) (page : Pa) :
    (.empty page : Node α).owned child = {page} := by
  unfold Node.owned Node.empty
  simp only [elim_none, sum_const_zero]
  exact cons_zero page

@[simp] theorem Node.set_set (n : Node α) (i : Fin 512) (x y : Option α) :
    (n.set i x).set i y = n.set i y := by
  simp [Node.set]

@[simp] theorem Node.set_slot_self (n : Node α) (i : Fin 512) (x : Option α) :
    (n.set i x).slot i = x := by
  simp [Node.set]

theorem Node.set_slot_ne (n : Node α) {i j : Fin 512} (h : j ≠ i) (x : Option α) :
    (n.set i x).slot j = n.slot j := by
  simp [Node.set, h]

theorem Node.owned_split (child : Fin 512 → α → Multiset Pa) {n : Node α}
    {c : α} (h : n.slot i = some c) :
    ∃ rest, n.owned child = child i c + rest ∧
      ∀ c', (n.set i (some c')).owned child = child i c' + rest := by
  refine ⟨(n.set i none).owned child, ?_, fun c' => ?_⟩
  · have e := n.owned_set child i none
    simp only [h, elim_some, elim_none, add_zero] at e
    rw [← e, add_comm]
  · have e := (n.set i none).owned_set child i (some c')
    simp only [set_set, set_slot_self, elim_none, elim_some,
      add_zero] at e
    rw [e, add_comm]

/-- The address that the three indices stand for. -/
def vaOf (i j k : Fin 512) : Nat := ((i.val * 512 + j.val) * 512 + k.val) * PGSIZE

def ownedAt (va : Nat) (pa : Pa) : Multiset Pa := if va < TRAPFRAME then {pa} else 0

def leafOwned (va : Nat) (leaf : Leaf) : Multiset Pa := ownedAt va leaf.pa

def ownedLeaves (i j : Fin 512) (n0 : Node Leaf) : Multiset Pa :=
  n0.owned fun k leaf => leafOwned (vaOf i j k) leaf

def ownedTables (i : Fin 512) (n1 : Node (Node Leaf)) : Multiset Pa := n1.owned (ownedLeaves i)

/-- **The pages a page table owns.** -/
def ownedPages (pagetable : Pagetable) : Multiset Pa := pagetable.owned ownedTables

/-! ## §2. Addresses and indices. -/

theorem vaOf_PX {va : Nat} (hal : va % PGSIZE = 0) (hva : va < MAXVA) :
    vaOf (PX 2 va) (PX 1 va) (PX 0 va) = va := by
  simp only [vaOf, PX, Fin.val_ofNat, PGSIZE, MAXVA] at *
  omega

theorem eq_of_PX_eq {va va' : Nat} (hal : va % PGSIZE = 0) (hva : va < MAXVA)
    (hal' : va' % PGSIZE = 0) (hva' : va' < MAXVA) (h2 : PX 2 va = PX 2 va')
    (h1 : PX 1 va = PX 1 va') (h0 : PX 0 va = PX 0 va') : va = va' := by
  rw [← vaOf_PX hal hva, ← vaOf_PX hal' hva', h2, h1, h0]

theorem PGROUNDUP_aligned (sz : Nat) : PGROUNDUP sz % PGSIZE = 0 := by
  simp only [PGROUNDUP, PGSIZE]
  omega

theorem PGROUNDUP_le_TRAPFRAME {sz : Nat} (h : sz ≤ TRAPFRAME) : PGROUNDUP sz ≤ TRAPFRAME := by
  simp only [PGROUNDUP, PGSIZE, TRAPFRAME, TRAMPOLINE, MAXVA] at *
  omega

/-! ## §3. Stores through a PTE. -/

theorem Node.set_self (n : Node α) {x : Option α} (h : n.slot i = x) : n.set i x = n := by
  subst h
  simp [Node.set]

section Stores

variable {pagetable : Pagetable} {va va' : Nat} {old x : Option Leaf}

theorem Node.pte_eq_some (h : pagetable.pte va = some old) :
    ∃ n1 n0, pagetable.slot (PX 2 va) = some n1 ∧ n1.slot (PX 1 va) = some n0 ∧
      n0.slot (PX 0 va) = old := by
  unfold Node.pte at h
  split at h
  · cases h
  · next n1 h1 =>
    split at h
    · cases h
    · next n0 h0 => exact ⟨n1, n0, h1, h0, Option.some.inj h⟩

theorem ownedPages_setPte (hal : va % PGSIZE = 0) (hva : va < MAXVA)
    (h : pagetable.pte va = some old) :
    ownedPages (pagetable.setPte va x) + old.elim 0 (leafOwned va) =
      ownedPages pagetable + x.elim 0 (leafOwned va) := by
  obtain ⟨n1, n0, h1, h0, rfl⟩ := pte_eq_some h
  have e0 := n0.owned_set (fun k leaf => leafOwned (vaOf (PX 2 va) (PX 1 va) k) leaf) (PX 0 va) x
  have e1 := n1.owned_set (ownedLeaves (PX 2 va)) (PX 1 va) (some (n0.set (PX 0 va) x))
  have e2 := pagetable.owned_set ownedTables (PX 2 va)
    (some (n1.set (PX 1 va) (some (n0.set (PX 0 va) x))))
  simp only [vaOf_PX hal hva] at e0
  simp only [h0, elim_some, ownedLeaves] at e1
  simp only [h1, elim_some, ownedTables] at e2
  have hset : pagetable.setPte va x =
      pagetable.set (PX 2 va) (some (n1.set (PX 1 va) (some (n0.set (PX 0 va) x)))) := by
    simp only [Node.setPte, h1, h0]
  rw [hset]
  exact exchange (exchange e0 e1) e2

theorem Node.lookup_setPte_self (h : pagetable.pte va = some old) :
    (pagetable.setPte va x).lookup va = x := by
  obtain ⟨n1, n0, h1, h0, rfl⟩ := pte_eq_some h
  simp [Node.setPte, h1, h0, Node.lookup, Node.pte, Node.set]

theorem Node.lookup_setPte_ne (hal : va % PGSIZE = 0) (hva : va < MAXVA)
    (hal' : va' % PGSIZE = 0) (hva' : va' < MAXVA) (hne : va' ≠ va)
    (h : pagetable.pte va = some old) :
    (pagetable.setPte va x).lookup va' = pagetable.lookup va' := by
  obtain ⟨n1, n0, h1, h0, rfl⟩ := pte_eq_some h
  simp only [Node.setPte, h1, h0, Node.lookup, Node.pte, Node.set, Function.update_apply]
  by_cases e2 : PX 2 va' = PX 2 va
  · by_cases e1 : PX 1 va' = PX 1 va
    · have e0 : PX 0 va' ≠ PX 0 va := fun e0 =>
        hne (eq_of_PX_eq hal' hva' hal hva e2 e1 e0)
      simp [e2, e1, e0, h1, h0]
    · simp [e2, e1, h1]
  · simp [e2]

end Stores

/-! ## §4. walk. -/

/-- `n'` is `n` with the child `c` in slot `i`, new and empty unless it was
there before. -/
structure Descended {α : Type} (n : Node (Node α)) (i : Fin 512) (n' : Node (Node α))
    (c : Option (Node α)) : Prop where
  self : n'.slot i = c
  other : ∀ j, j ≠ i → n'.slot j = n.slot j
  fresh : n.slot i = c ∨ n.slot i = none ∧ ∃ page, c = some (.empty page)

theorem descend_spec (g : Fin 512 → Fin 512 → α → Multiset Pa) (n : Node (Node α))
    (i : Fin 512) (alloc : Bool) (frame : Multiset Pa) :
    (descend n i alloc).wp
      (fun r own => own = r.1.owned (fun i c => c.owned (g i)) + frame ∧ Descended n i r.1 r.2)
      (n.owned (fun i c => c.owned (g i)) + frame) := by
  unfold descend
  split
  · next c hc => exact ⟨rfl, hc, fun _ _ => rfl, .inl hc⟩
  · next hc =>
    split
    · refine ⟨⟨rfl, hc, fun _ _ => rfl, .inl hc⟩, fun page => ⟨?_, ?_, ?_, ?_⟩⟩
      · have e := n.owned_set (fun i c => c.owned (g i)) i (some (Node.empty page))
        simp only [hc, elim_none, add_zero, elim_some, owned_empty] at e
        show page ::ₘ _ = _
        rw [e, ← singleton_add]
        abel
      · exact n.set_slot_self i _
      · exact fun j hj => n.set_slot_ne hj _
      · exact .inr ⟨hc, page, rfl⟩
    · exact ⟨rfl, hc, fun _ _ => rfl, .inl hc⟩

def SameMap (pagetable pagetable' : Pagetable) : Prop :=
  ∀ va, pagetable'.lookup va = pagetable.lookup va

theorem Node.lookup_eq (pagetable : Pagetable) (va : Nat) :
    pagetable.lookup va = (pagetable.slot (PX 2 va)).bind fun n1 =>
      (n1.slot (PX 1 va)).bind fun n0 => n0.slot (PX 0 va) := by
  unfold Node.lookup Node.pte
  split
  · next h => simp [h]
  · next n1 h =>
    split
    · next h0 => simp [h, h0]
    · next n0 h0 => simp [h, h0]

theorem Descended.bind_eq {α β : Type} {n n' : Node (Node α)} {c : Option (Node α)}
    (h : Descended n i n' c) (j : Fin 512) (f : Node α → Option β)
    (hf : ∀ page, f (.empty page) = none) :
    (n'.slot j).bind f = (n.slot j).bind f := by
  by_cases hj : j = i
  · subst hj
    rw [h.self]
    rcases h.fresh with he | ⟨hnone, page, rfl⟩
    · rw [he]
    · rw [hnone]
      exact hf page
  · rw [h.other j hj]

theorem walk_spec (pagetable : Pagetable) (va : Nat) (alloc : Bool) (frame : Multiset Pa) :
    (walk pagetable va alloc).wp
      (fun r own => own = ownedPages r.1 + frame ∧ SameMap pagetable r.1 ∧ r.2 = r.1.pte va ∧
        va < MAXVA)
      (ownedPages pagetable + frame) := by
  unfold walk
  split
  · trivial
  · next hva =>
    rw [not_le] at hva
    rw [wp_bind]
    refine wp_mono (descend_spec (fun i => ownedLeaves i) pagetable (PX 2 va) alloc frame) ?_
    rintro ⟨n2, c1⟩ own ⟨hown, hd2⟩
    have hlook2 : SameMap pagetable n2 := by
      intro va'
      rw [lookup_eq, lookup_eq]
      exact hd2.bind_eq _ _ fun page => rfl
    cases c1 with
    | none =>
      have h2 : n2.slot (PX 2 va) = none := hd2.self
      refine ⟨hown, hlook2, ?_, hva⟩
      simp only [Node.pte, h2]
    | some n1 =>
      obtain ⟨rest, hsplit, hset⟩ := owned_split ownedTables hd2.self
      have hown' : own = ownedTables (PX 2 va) n1 + (rest + frame) := by
        rw [hown, ← add_assoc, ← hsplit]
        rfl
      show Prog.wp _ (descend n1 (PX 1 va) alloc >>= _) own
      rw [wp_bind, hown']
      refine wp_mono (descend_spec
        (fun j k leaf => leafOwned (vaOf (PX 2 va) j k) leaf) n1 (PX 1 va) alloc _) ?_
      rintro ⟨n1', c0⟩ own ⟨hown, hd1⟩
      have hown' : own = ownedPages (n2.set (PX 2 va) (some n1')) + frame := by
        rw [hown, ownedPages, hset n1', add_assoc]
        rfl
      have hlook1 : SameMap pagetable (n2.set (PX 2 va) (some n1')) := by
        intro va'
        rw [← hlook2 va', lookup_eq, lookup_eq]
        by_cases h2 : PX 2 va' = PX 2 va
        · rw [h2, set_slot_self, hd2.self]
          exact hd1.bind_eq _ _ fun page => rfl
        · rw [set_slot_ne _ h2]
      cases c0 with
      | none =>
        have h1 : n1'.slot (PX 1 va) = none := hd1.self
        refine ⟨hown', hlook1, ?_, hva⟩
        simp only [Node.pte, set_slot_self, h1]
      | some n0 =>
        have h1 : n1'.slot (PX 1 va) = some n0 := hd1.self
        refine ⟨hown', hlook1, ?_, hva⟩
        simp only [Node.pte, set_slot_self, h1]

theorem descend_false (n : Node (Node α)) (i : Fin 512) :
    descend n i false = pure (n, n.slot i) := by
  unfold descend
  cases n.slot i <;> rfl

theorem walk_false (pagetable : Pagetable) (va : Nat) : walk pagetable va false =
      if MAXVA ≤ va then .abort "walk" else pure (pagetable, pagetable.pte va) := by
  unfold walk
  split
  · rfl
  · rw [descend_false, pure_bind]
    unfold Node.pte
    cases h2 : pagetable.slot (PX 2 va) with
    | none => rfl
    | some n1 =>
      show (descend n1 (PX 1 va) false >>= _) = _
      rw [descend_false, pure_bind]
      cases h1 : n1.slot (PX 1 va) <;> simp only [h1, set_self _ h2]

/-! ## §5. mappages and uvmunmap. -/

/-- Pages outside `P` translate alike. -/
def AgreeOff (P : Nat → Prop) (pagetable pagetable' : Pagetable) : Prop :=
  ∀ va, va % PGSIZE = 0 → va < MAXVA → ¬ P va → pagetable'.lookup va = pagetable.lookup va

section AgreeOff

variable {P P' : Nat → Prop} {pt pt' pt'' : Pagetable} {va : Nat}

theorem AgreeOff.refl (P : Nat → Prop) (pt : Pagetable) : AgreeOff P pt pt := fun _ _ _ _ => rfl

theorem AgreeOff.trans (h : AgreeOff P pt pt') (h' : AgreeOff P pt' pt'') : AgreeOff P pt pt'' := by
  intro va hal hva hP
  rw [h' va hal hva hP, h va hal hva hP]

theorem AgreeOff.mono (h : AgreeOff P pt pt') (hP : ∀ va, P va → P' va) : AgreeOff P' pt pt' :=
  fun va hal hva hn => h va hal hva fun hp => hn (hP va hp)

theorem AgreeOff.trapframe (h : AgreeOff (· < TRAPFRAME) pt pt') :
    pt'.lookup TRAPFRAME = pt.lookup TRAPFRAME :=
  h TRAPFRAME (by decide) (by decide) (by decide)

theorem agreeOff_setPte {old x : Option Leaf} (hal : va % PGSIZE = 0) (hva : va < MAXVA)
    (h : pt.pte va = some old) : AgreeOff (· = va) pt (pt.setPte va x) :=
  fun _ hal' hva' hne => lookup_setPte_ne hal hva hal' hva' hne h

end AgreeOff

/-- One page: on success the mapping has taken over the page, on failure the
caller still has it. -/
theorem mappages_spec (pt : Pagetable) (va : Nat) (pa : Pa) (perm : Nat) (frame : Multiset Pa) :
    (mappages pt va PGSIZE pa perm).wp (fun r own =>
        (r.2 = true → own = ownedPages r.1 + frame ∧ pt.lookup va = none ∧
          r.1.lookup va = some { pa := pa, flags := perm ||| PTE_V } ∧ AgreeOff (· = va) pt r.1) ∧
        (r.2 = false → own = ownedPages r.1 + (ownedAt va pa + frame) ∧ SameMap pt r.1))
      (ownedPages pt + (ownedAt va pa + frame)) := by
  unfold mappages
  split
  · trivial
  next hal =>
  rw [not_not] at hal
  rw [if_neg (by decide), if_neg (by decide)]
  show Prog.wp _ (walk pt va true >>= _) _
  rw [wp_bind]
  refine wp_mono (walk_spec pt va true _) ?_
  rintro ⟨pt', pte⟩ own ⟨hown, hsame, hpte, hva⟩
  match pte, hpte with
  | none, _ => exact ⟨fun h => (by cases h), fun _ => ⟨hown, hsame⟩⟩
  | some (some _), _ => trivial
  | some none, hpte =>
    refine ⟨fun _ => ⟨?_, ?_, ?_, ?_⟩, fun h => by cases h⟩
    · have e := ownedPages_setPte (x := some { pa := pa, flags := perm ||| PTE_V }) hal hva hpte.symm
      simp only [elim_none, add_zero, elim_some, leafOwned] at e
      rw [hown, e]
      abel
    · rw [← hsame va, Node.lookup, ← hpte]
      rfl
    · exact lookup_setPte_self hpte.symm
    · intro va' hal' hva' hne
      rw [← hsame va']
      exact lookup_setPte_ne hal hva hal' hva' hne hpte.symm

/-- Free what is mapped below TRAPFRAME, or just unmap what the table does not own. -/
def UnmapRange (va npages : Nat) (doFree : Bool) : Prop :=
  if doFree then va + npages * PGSIZE ≤ TRAPFRAME else TRAPFRAME ≤ va

theorem uvmunmapLoop_spec (doFree : Bool) (n : Nat) (pt : Pagetable) (va : Nat)
    (frame : Multiset Pa) (hal : va % PGSIZE = 0) (hrange : UnmapRange va n doFree) :
    (uvmunmapLoop doFree n pt va).wp (fun pt' own => own = ownedPages pt' + frame ∧
        AgreeOff (fun a => va ≤ a ∧ a < va + n * PGSIZE) pt pt')
      (ownedPages pt + frame) := by
  induction n generalizing pt va with
  | zero => exact ⟨rfl, AgreeOff.refl _ _⟩
  | succ n ih =>
    show Prog.wp _ (walk pt va false >>= _) _
    rw [walk_false]
    split
    · trivial
    next hva =>
    rw [not_le] at hva
    rw [pure_bind]
    match hpte : pt.pte va with
    | none => trivial
    | some none => trivial
    | some (some leaf) =>
      show Prog.wp _ (if leaf.flags = PTE_V then _ else _) _
      split
      · trivial
      have hal' : (va + PGSIZE) % PGSIZE = 0 := by
        rw [Nat.add_mod_right]
        exact hal
      have hagree : AgreeOff (fun a => va ≤ a ∧ a < va + (n + 1) * PGSIZE) pt
          (pt.setPte va none) :=
        (agreeOff_setPte hal hva hpte).mono fun a ha => by
          subst ha
          simp only [PGSIZE]
          omega
      have e := ownedPages_setPte (x := none) hal hva hpte
      simp only [elim_none, add_zero, elim_some, leafOwned, ownedAt] at e
      -- the rest of the loop, from the table without this page
      have hrest : ∀ own, own = ownedPages (pt.setPte va none) + frame →
          UnmapRange (va + PGSIZE) n doFree →
          (uvmunmapLoop doFree n (pt.setPte va none) (va + PGSIZE)).wp
            (fun pt' own => own = ownedPages pt' + frame ∧
              AgreeOff (fun a => va ≤ a ∧ a < va + (n + 1) * PGSIZE) pt pt') own := by
        intro own hown hr
        rw [hown]
        refine wp_mono (ih (pt.setPte va none) (va + PGSIZE) hal' hr) ?_
        rintro pt' own ⟨hown, hoff⟩
        refine ⟨hown, hagree.trans (hoff.mono fun a ha => ?_)⟩
        simp only [PGSIZE] at *
        omega
      cases doFree with
      | true =>
        have hr : va + (n + 1) * PGSIZE ≤ TRAPFRAME := hrange
        have hlt : va < TRAPFRAME := by
          simp only [PGSIZE] at hr
          omega
        rw [if_pos hlt] at e
        refine ⟨ownedPages (pt.setPte va none) + frame, ?_, hrest _ rfl ?_⟩
        · rw [← e, ← singleton_add]
          abel
        · show va + PGSIZE + n * PGSIZE ≤ TRAPFRAME
          simp only [PGSIZE] at *
          omega
      | false =>
        have hr : TRAPFRAME ≤ va := hrange
        rw [if_neg (by omega), add_zero] at e
        refine hrest _ (by rw [e]) ?_
        show TRAPFRAME ≤ va + PGSIZE
        omega

theorem uvmunmap_spec (pt : Pagetable) (va npages : Nat) (doFree : Bool) (frame : Multiset Pa)
    (hrange : UnmapRange va npages doFree) :
    (uvmunmap pt va npages doFree).wp (fun pt' own => own = ownedPages pt' + frame ∧
        AgreeOff (fun a => va ≤ a ∧ a < va + npages * PGSIZE) pt pt')
      (ownedPages pt + frame) := by
  unfold uvmunmap
  split
  · trivial
  · next hal => exact uvmunmapLoop_spec doFree npages pt va frame (not_not.mp hal) hrange

end Xv6
