/-
  Xv6.Vm.UserMemory — ownership of user memory through its whole life.

  TRAPFRAME is mapped before any user page is and stops `uvmalloc` with a panic.
-/
import Xv6.Vm.Owned

namespace Xv6

open Lib

/-- The result of growing, shrinking or copying: same trapframe mapping, all
owned pages accounted for. -/
def Kept (pt pt' : Pagetable) (frame own : Multiset Pa) : Prop :=
  own = ownedPages pt' + frame ∧ AgreeOff (· < TRAPFRAME) pt pt'

/-! ## §1. uvmdealloc and uvmalloc. -/

theorem uvmdealloc_spec (pt : Pagetable) (oldsz newsz : Nat) (frame : Multiset Pa)
    (hsz : oldsz ≤ TRAPFRAME) :
    (uvmdealloc pt oldsz newsz).wp (fun r own => Kept pt r.1 frame own ∧ r.2 ≤ oldsz)
      (ownedPages pt + frame) := by
  unfold uvmdealloc
  split
  · exact ⟨⟨rfl, .refl _ _⟩, le_rfl⟩
  split
  · next hlt hround =>
    have hold := PGROUNDUP_le_TRAPFRAME hsz
    have hend : PGROUNDUP newsz + (PGROUNDUP oldsz - PGROUNDUP newsz) / PGSIZE * PGSIZE ≤
        TRAPFRAME := by
      have := Nat.div_mul_le_self (PGROUNDUP oldsz - PGROUNDUP newsz) PGSIZE
      omega
    rw [Prog.wp_bind]
    refine Prog.wp_mono (uvmunmap_spec pt _ _ true frame hend) ?_
    intro pt' own ⟨hown, hoff⟩
    refine ⟨⟨hown, hoff.mono fun a ha => ?_⟩, by omega⟩
    omega
  · exact ⟨⟨rfl, .refl _ _⟩, by omega⟩

theorem uvmdealloc_fail_spec (pt pt₀ : Pagetable) (a oldsz n : Nat) (frame : Multiset Pa)
    (ha : a ≤ TRAPFRAME) (h₀ : AgreeOff (· < TRAPFRAME) pt₀ pt) :
    (uvmdealloc pt a oldsz >>= fun r => pure (r.1, false)).wp
      (fun r own => Kept pt₀ r.1 frame own ∧ (r.2 = true → a + n * PGSIZE ≤ TRAPFRAME))
      (ownedPages pt + frame) := by
  rw [Prog.wp_bind]
  refine Prog.wp_mono (uvmdealloc_spec pt a oldsz frame ha) ?_
  rintro ⟨pt', sz⟩ own ⟨⟨hown, hoff⟩, _⟩
  exact ⟨⟨hown, h₀.trans hoff⟩, fun h => by cases h⟩

theorem uvmallocLoop_spec (oldsz xperm n : Nat) (pt : Pagetable) (a : Nat) (frame : Multiset Pa)
    (hal : a % PGSIZE = 0) (ha : a ≤ TRAPFRAME) (htf : pt.lookup TRAPFRAME ≠ none) :
    (uvmallocLoop oldsz xperm n pt a).wp
      (fun r own => Kept pt r.1 frame own ∧ (r.2 = true → a + n * PGSIZE ≤ TRAPFRAME))
      (ownedPages pt + frame) := by
  induction n generalizing pt a with
  | zero => exact ⟨⟨rfl, .refl _ _⟩, fun _ => by omega⟩
  | succ n ih =>
    refine ⟨?_, fun mem => ?_⟩
    · exact uvmdealloc_fail_spec pt pt a oldsz (n + 1) frame ha (.refl _ _)
    -- whether or not the mapping would own the page, somebody does
    have hmem : mem ::ₘ (ownedPages pt + frame) =
        ownedPages pt + (ownedAt a mem + ((if a < TRAPFRAME then 0 else {mem}) + frame)) := by
      unfold ownedAt
      split <;> rw [← Multiset.singleton_add] <;> abel
    show Prog.wp _ (mappages pt a PGSIZE mem _ >>= _) _
    rw [Prog.wp_bind, hmem]
    refine Prog.wp_mono (mappages_spec pt a mem _ _) ?_
    rintro ⟨pt', ok⟩ own ⟨hok, hfail⟩
    cases ok with
    | true =>
      obtain ⟨hown, hnone, _, hoff⟩ := hok rfl
      -- TRAPFRAME is mapped, so this page is below it
      have hlt : a < TRAPFRAME := by
        rcases Nat.lt_or_eq_of_le ha with hlt | rfl
        · exact hlt
        · exact absurd hnone htf
      have hoff' : AgreeOff (· < TRAPFRAME) pt pt' := hoff.mono fun b hb => by omega
      have hown' : own = ownedPages pt' + frame := by
        rw [hown, if_pos hlt, zero_add]
      show Prog.wp _ (uvmallocLoop oldsz xperm n pt' (a + PGSIZE)) own
      rw [hown']
      refine Prog.wp_mono (ih pt' (a + PGSIZE) ?_ ?_ ?_) ?_
      · rw [Nat.add_mod_right]
        exact hal
      · simp only [PGSIZE, TRAPFRAME, TRAMPOLINE, MAXVA] at *
        omega
      · rw [hoff'.trapframe]
        exact htf
      · rintro r own ⟨⟨hown, hoff⟩, hle⟩
        refine ⟨⟨hown, hoff'.trans hoff⟩, fun hr => ?_⟩
        have := hle hr
        simp only [PGSIZE] at *
        omega
    | false =>
      obtain ⟨hown, hsame⟩ := hfail rfl
      refine ⟨ownedPages pt' + frame, ?_, ?_⟩
      · rw [hown, ← Multiset.singleton_add]
        unfold ownedAt
        split <;> abel
      · exact uvmdealloc_fail_spec pt' pt a oldsz (n + 1) frame ha fun va _ _ _ => hsame va

theorem uvmalloc_spec (pt : Pagetable) (oldsz newsz xperm : Nat) (frame : Multiset Pa)
    (hsz : oldsz ≤ TRAPFRAME) (htf : pt.lookup TRAPFRAME ≠ none) :
    (uvmalloc pt oldsz newsz xperm).wp
      (fun r own => Kept pt r.1 frame own ∧ r.2 ≤ TRAPFRAME ∧ (r.2 = 0 ∨ r.2 = max oldsz newsz))
      (ownedPages pt + frame) := by
  unfold uvmalloc
  split
  · exact ⟨⟨rfl, .refl _ _⟩, hsz, .inr (by omega)⟩
  · rw [Prog.wp_bind]
    refine Prog.wp_mono (uvmallocLoop_spec _ xperm _ pt _ frame (PGROUNDUP_aligned oldsz)
      (PGROUNDUP_le_TRAPFRAME hsz) htf) ?_
    rintro ⟨pt', ok⟩ own ⟨hkept, hle⟩
    refine ⟨hkept, ?_⟩
    cases ok with
    | true =>
      have := hle rfl
      show newsz ≤ TRAPFRAME ∧ (newsz = 0 ∨ newsz = max oldsz newsz)
      simp only [PGSIZE] at this
      omega
    | false => exact ⟨Nat.zero_le _, .inl rfl⟩

/-! ## §2. freewalk and uvmfree. -/

theorem sum_slotIndices (f : Fin 512 → Multiset Pa) : ∑ i, f i = (slotIndices.map f).sum := by
  unfold slotIndices
  exact Fin.sum_univ_def f

section Freewalk

variable {α : Type} (g : Fin 512 → α → Multiset Pa) (child : α → Kernel Unit)
  (hchild : ∀ i c frame, (child c).wp (fun _ own => own = frame) (g i c + frame)) (n : Node α)

include hchild

theorem freewalkSlots_spec (l : List (Fin 512)) (frame : Multiset Pa) :
    (freewalkSlots child n l).wp (fun _ own => own = frame)
      ((l.map fun i => (n.slot i).elim 0 (g i)).sum + frame) := by
  induction l generalizing frame with
  | nil => exact zero_add frame
  | cons i l ih =>
    unfold freewalkSlots
    rw [Prog.wp_bind, List.map_cons, List.sum_cons, add_assoc]
    cases n.slot i with
    | none =>
      show Prog.wp _ (freewalkSlots child n l) (0 + _)
      rw [zero_add]
      exact ih frame
    | some c =>
      refine Prog.wp_mono (hchild i c _) ?_
      rintro _ own rfl
      exact ih frame

/-- Freeing a node gives back its page and whatever its slots own, if freeing
a child does. -/
theorem freewalkNode_spec (frame : Multiset Pa) :
    (freewalkNode child n).wp (fun _ own => own = frame) (n.owned g + frame) := by
  have hown : n.owned g + frame =
      (slotIndices.map fun i => (n.slot i).elim 0 (g i)).sum + (n.page ::ₘ frame) := by
    unfold Node.owned
    rw [sum_slotIndices, Multiset.cons_add, Multiset.add_cons]
  unfold freewalkNode
  rw [Prog.wp_bind, hown]
  refine Prog.wp_mono (freewalkSlots_spec g child hchild n _ _) ?_
  rintro _ own rfl
  exact ⟨frame, rfl, rfl⟩

end Freewalk

theorem freewalk_spec (pt : Pagetable) (frame : Multiset Pa) :
    (freewalk pt).wp (fun _ own => own = frame) (ownedPages pt + frame) := by
  unfold freewalk
  refine freewalkNode_spec ownedTables _ (fun i n1 frame => ?_) pt frame
  refine freewalkNode_spec (ownedLeaves i) _ (fun j n0 frame => ?_) n1 frame
  exact freewalkNode_spec _ _ (fun _ _ _ => Prog.wp_abort _) n0 frame

theorem uvmfree_spec (pt : Pagetable) (sz : Nat) (frame : Multiset Pa) (hsz : sz ≤ TRAPFRAME) :
    (uvmfree pt sz).wp (fun _ own => own = frame) (ownedPages pt + frame) := by
  unfold uvmfree
  split
  · have hend : 0 + PGROUNDUP sz / PGSIZE * PGSIZE ≤ TRAPFRAME := by
      have h1 := Nat.div_mul_le_self (PGROUNDUP sz) PGSIZE
      have h2 := PGROUNDUP_le_TRAPFRAME hsz
      omega
    rw [Prog.wp_bind]
    refine Prog.wp_mono (uvmunmap_spec pt 0 _ true frame hend) ?_
    rintro pt' own ⟨rfl, _⟩
    exact freewalk_spec pt' frame
  · exact freewalk_spec pt frame

/-! ## §3. uvmcopy, uvmfirst, uvmclear. -/

theorem uvmunmap_undo_spec (new new₀ : Pagetable) (i : Nat) (frame : Multiset Pa)
    (hi : i ≤ TRAPFRAME) (h₀ : AgreeOff (· < TRAPFRAME) new₀ new) :
    (uvmunmap new 0 (i / PGSIZE) true >>= fun new => pure (new, false)).wp
      (fun r own => Kept new₀ r.1 frame own) (ownedPages new + frame) := by
  have hend : 0 + i / PGSIZE * PGSIZE ≤ TRAPFRAME := by
    have := Nat.div_mul_le_self i PGSIZE
    omega
  rw [Prog.wp_bind]
  refine Prog.wp_mono (uvmunmap_spec new 0 _ true frame hend) ?_
  rintro new' own ⟨hown, hoff⟩
  exact ⟨hown, h₀.trans (hoff.mono fun a ha => by omega)⟩

theorem uvmcopyLoop_spec (old : Pagetable) (n : Nat) (new : Pagetable) (i : Nat)
    (frame : Multiset Pa) (hi : i + n * PGSIZE ≤ TRAPFRAME) :
    (uvmcopyLoop old n new i).wp (fun r own => Kept new r.1 frame own)
      (ownedPages new + frame) := by
  induction n generalizing new i with
  | zero => exact ⟨rfl, .refl _ _⟩
  | succ n ih =>
    have hlt : i < TRAPFRAME := by
      simp only [PGSIZE] at hi
      omega
    show Prog.wp _ (walk old i false >>= _) _
    rw [walk_false]
    split
    · trivial
    rw [Prog.pure_bind]
    rcases old.pte i with _ | _ | leaf
    · trivial
    · trivial
    · refine ⟨uvmunmap_undo_spec new new i frame hlt.le (.refl _ _), fun mem => ?_⟩
      have hmem : mem ::ₘ (ownedPages new + frame) = ownedPages new + (ownedAt i mem + frame) := by
        rw [ownedAt, if_pos hlt, ← Multiset.singleton_add]
        abel
      show Prog.wp _ (mappages new i PGSIZE mem leaf.flags >>= _) _
      rw [Prog.wp_bind, hmem]
      refine Prog.wp_mono (mappages_spec new i mem leaf.flags frame) ?_
      rintro ⟨new', ok⟩ own ⟨hok, hfail⟩
      cases ok with
      | true =>
        obtain ⟨rfl, _, _, hoff⟩ := hok rfl
        have hoff' : AgreeOff (· < TRAPFRAME) new new' := hoff.mono fun b hb => by omega
        refine Prog.wp_mono (ih new' (i + PGSIZE) ?_) ?_
        · simp only [PGSIZE] at *
          omega
        · rintro r own ⟨hown, hoff⟩
          exact ⟨hown, hoff'.trans hoff⟩
      | false =>
        obtain ⟨hown, hsame⟩ := hfail rfl
        refine ⟨ownedPages new' + frame, ?_, ?_⟩
        · rw [hown, ownedAt, if_pos hlt, ← Multiset.singleton_add]
          abel
        · exact uvmunmap_undo_spec new' new i frame hlt.le fun va _ _ _ => hsame va

theorem uvmcopy_spec (old new : Pagetable) (sz : Nat) (frame : Multiset Pa) (hsz : sz ≤ TRAPFRAME) :
    (uvmcopy old new sz).wp (fun r own => Kept new r.1 frame own) (ownedPages new + frame) := by
  refine uvmcopyLoop_spec old _ new 0 frame ?_
  have := PGROUNDUP_le_TRAPFRAME hsz
  unfold PGROUNDUP at this
  omega

theorem uvmfirst_spec (pt : Pagetable) (frame : Multiset Pa) : (uvmfirst pt).wp
      (fun pt' own => Kept pt pt' frame own ∨ ∃ mem, Kept pt pt' (mem ::ₘ frame) own)
      (ownedPages pt + frame) := by
  refine ⟨trivial, fun mem => ?_⟩
  show Prog.wp _ (mappages pt 0 PGSIZE mem _ >>= _) _
  have hmem : mem ::ₘ (ownedPages pt + frame) = ownedPages pt + (ownedAt 0 mem + frame) := by
    rw [ownedAt, if_pos (by decide), ← Multiset.singleton_add]
    abel
  rw [Prog.wp_bind, hmem]
  refine Prog.wp_mono (mappages_spec pt 0 mem _ frame) ?_
  rintro ⟨pt', ok⟩ own ⟨hok, hfail⟩
  cases ok with
  | true =>
    obtain ⟨hown, _, _, hoff⟩ := hok rfl
    exact .inl ⟨hown, hoff.mono fun b hb => by rw [hb]; decide⟩
  | false =>
    -- uvmfirst does not look at the result of mappages
    obtain ⟨hown, hsame⟩ := hfail rfl
    refine .inr ⟨mem, ?_, fun va _ _ _ => hsame va⟩
    rw [hown, ownedAt, if_pos (by decide), ← Multiset.singleton_add]

theorem uvmclear_spec (pt : Pagetable) (va : Nat) (frame : Multiset Pa) (hal : va % PGSIZE = 0)
    (hlt : va < TRAPFRAME) :
    (uvmclear pt va).wp (fun pt' own => Kept pt pt' frame own) (ownedPages pt + frame) := by
  unfold uvmclear
  rw [walk_false]
  split
  · trivial
  next hva =>
  rw [not_le] at hva
  rw [Prog.pure_bind]
  match hpte : pt.pte va with
  | none => trivial
  | some x =>
    refine ⟨?_, (agreeOff_setPte hal hva hpte).mono fun b hb => hb ▸ hlt⟩
    have e := ownedPages_setPte
      (x := x.map fun leaf => { leaf with flags := leaf.flags ^^^ (leaf.flags &&& PTE_U) })
      hal hva hpte
    have hx : (x.map fun leaf =>
        { leaf with flags := leaf.flags ^^^ (leaf.flags &&& PTE_U) }).elim 0 (leafOwned va) =
        x.elim 0 (leafOwned va) := by
      cases x <;> rfl
    rw [hx] at e
    rw [add_right_cancel e]

/-! ## §4. The page table of a process. -/

theorem procPagetable_spec (trampoline tf : Pa) (frame : Multiset Pa) :
    (procPagetable trampoline tf).wp (fun r own => match r with
        | none => own = frame
        | some pt => own = ownedPages pt + frame ∧ (pt.lookup TRAPFRAME).map Leaf.pa = some tf)
      frame := by
  refine ⟨rfl, fun page => ?_⟩
  have h0 : page ::ₘ frame =
      ownedPages (Node.empty page) + (ownedAt TRAMPOLINE trampoline + frame) := by
    rw [ownedPages, Node.owned_empty, ownedAt, if_neg (by decide), zero_add,
      Multiset.singleton_add]
  show Prog.wp _ (mappages (Node.empty page) TRAMPOLINE PGSIZE trampoline _ >>= _) _
  rw [Prog.wp_bind, h0]
  refine Prog.wp_mono (mappages_spec _ TRAMPOLINE trampoline _ frame) ?_
  rintro ⟨pt, ok⟩ own ⟨hok, hfail⟩
  cases ok with
  | false =>
    obtain ⟨hown, _⟩ := hfail rfl
    rw [ownedAt, if_neg (by decide), zero_add] at hown
    subst hown
    show Prog.wp _ (uvmfree pt 0 >>= _) _
    rw [Prog.wp_bind]
    exact Prog.wp_mono (uvmfree_spec pt 0 frame (Nat.zero_le _)) fun _ _ h => h
  | true =>
    obtain ⟨hown, _⟩ := hok rfl
    have h1 : own = ownedPages pt + (ownedAt TRAPFRAME tf + frame) := by
      rw [hown, ownedAt, if_neg (by decide), zero_add]
    show Prog.wp _ (mappages pt TRAPFRAME PGSIZE tf _ >>= _) _
    rw [Prog.wp_bind, h1]
    refine Prog.wp_mono (mappages_spec pt TRAPFRAME tf _ frame) ?_
    rintro ⟨pt', ok⟩ own ⟨hok, hfail⟩
    cases ok with
    | true =>
      obtain ⟨hown, _, hmap, _⟩ := hok rfl
      exact ⟨hown, by rw [hmap]; rfl⟩
    | false =>
      obtain ⟨hown, _⟩ := hfail rfl
      rw [ownedAt, if_neg (by decide), zero_add] at hown
      subst hown
      show Prog.wp _ (uvmunmap pt' TRAMPOLINE 1 false >>= _) _
      rw [Prog.wp_bind]
      refine Prog.wp_mono (uvmunmap_spec pt' TRAMPOLINE 1 false frame
        (show TRAPFRAME ≤ TRAMPOLINE by decide)) ?_
      rintro pt'' own ⟨rfl, _⟩
      show Prog.wp _ (uvmfree pt'' 0 >>= _) _
      rw [Prog.wp_bind]
      exact Prog.wp_mono (uvmfree_spec pt'' 0 frame (Nat.zero_le _)) fun _ _ h => h

theorem procFreepagetable_spec (pt : Pagetable) (sz : Nat) (frame : Multiset Pa)
    (hsz : sz ≤ TRAPFRAME) :
    (procFreepagetable pt sz).wp (fun _ own => own = frame) (ownedPages pt + frame) := by
  unfold procFreepagetable
  rw [Prog.wp_bind]
  refine Prog.wp_mono (uvmunmap_spec pt TRAMPOLINE 1 false frame
    (show TRAPFRAME ≤ TRAMPOLINE by decide)) ?_
  rintro pt' own ⟨rfl, _⟩
  rw [Prog.wp_bind]
  refine Prog.wp_mono (uvmunmap_spec pt' TRAPFRAME 1 false frame
    (show TRAPFRAME ≤ TRAPFRAME from le_rfl)) ?_
  rintro pt'' own ⟨rfl, _⟩
  exact uvmfree_spec pt'' sz frame hsz

end Xv6
