/-
  Xv6.Proc.Image — the memory of a process: allocproc, fork_core, growproc, freeproc.
-/
import Xv6.Vm.UserMemory

namespace Xv6

open Lib Option Prog Multiset

/-! ## §1. The functions. -/

structure Image where
  pagetable : Pagetable
  sz : Nat

/-- `freeproc`: `np->trapframe`, then `np->pagetable`, each if it is there. -/
def freeproc (trapframe : Option Pa) (pagetable : Option Pagetable) (sz : Nat) : Kernel Unit := do
  match trapframe with
  | some tf => kfree tf
  | none => pure ()
  match pagetable with
  | some pagetable => procFreepagetable pagetable sz
  | none => pure ()

/-- `allocproc` after it has found a slot. -/
def allocproc (trampoline : Pa) : Kernel (Option (Pa × Pagetable)) := do
  match ← kalloc with
  | none => do
    freeproc none none 0
    pure none
  | some tf => do
    match ← procPagetable trampoline tf with
    | none => do
      freeproc (some tf) none 0
      pure none
    | some pagetable => pure (some (tf, pagetable))

/-- `fork_core` up to the last point where it can fail. A slot that `allocproc` returns has `sz =
0`. -/
def forkCore (trampoline : Pa) (parent : Image) : Kernel (Option (Pa × Image)) := do
  match ← allocproc trampoline with
  | none => pure none
  | some (tf, pagetable) => do
    let (pagetable, ok) ← uvmcopy parent.pagetable pagetable parent.sz
    if ok then pure (some (tf, { pagetable := pagetable, sz := parent.sz }))
    else do
      freeproc (some tf) (some pagetable) 0
      pure none

/-- `userinit`: the memory of the first process.  A null result of `allocproc`
is used as it is. -/
def userinit (trampoline : Pa) : Kernel (Pa × Image) := do
  match ← allocproc trampoline with
  | none => .abort "kerneltrap"
  | some (tf, pagetable) => do
    let pagetable ← uvmfirst pagetable
    pure (tf, { pagetable := pagetable, sz := PGSIZE })

/-- `growproc(n)` with its result; the sum is taken in 64 bits. -/
def growproc (p : Image) (n : Int) : Kernel (Image × Int) :=
  let newsz := ((p.sz + n) % 2 ^ 64).toNat
  if 0 < n then do
    let (pagetable, sz) ← uvmalloc p.pagetable p.sz newsz PTE_W
    if sz = 0 then pure ({ p with pagetable := pagetable }, -1)
    else pure ({ pagetable := pagetable, sz := sz }, 0)
  else if n < 0 then do
    let (pagetable, sz) ← uvmdealloc p.pagetable p.sz newsz
    pure ({ pagetable := pagetable, sz := sz }, 0)
  else pure (p, 0)

/-! ## §2. What they own. -/

/-- TRAPFRAME is mapped to the process's own trapframe, and user memory ends
below it. -/
structure Image.Ok (p : Image) (tf : Pa) : Prop where
  trapframe : (p.pagetable.lookup TRAPFRAME).map Leaf.pa = some tf
  sz : p.sz ≤ TRAPFRAME

theorem Image.Ok.lookup_ne_none {p : Image} {tf : Pa} (h : p.Ok tf) :
    p.pagetable.lookup TRAPFRAME ≠ none := by
  intro hnone
  have := h.trapframe
  rw [hnone] at this
  cases this

theorem Image.Ok.kept {p : Image} {tf : Pa} {frame own : Multiset Pa} (h : p.Ok tf) (p' : Image)
    (hk : Kept p.pagetable p'.pagetable frame own) (hsz : p'.sz ≤ TRAPFRAME) : p'.Ok tf := by
  refine ⟨?_, hsz⟩
  rw [hk.2.trapframe]
  exact h.trapframe

/-- The pages of `p->trapframe` and `p->pagetable`. -/
def pagesOf (trapframe : Option Pa) (pagetable : Option Pagetable) : Multiset Pa :=
  trapframe.elim 0 (fun tf => {tf}) + pagetable.elim 0 ownedPages

theorem freeproc_spec (trapframe : Option Pa) (pagetable : Option Pagetable) (sz : Nat)
    (frame : Multiset Pa) (hsz : sz ≤ TRAPFRAME) :
    (freeproc trapframe pagetable sz).wp (fun _ own => own = frame)
      (pagesOf trapframe pagetable + frame) := by
  -- the second half, whatever the first has left
  have htable : (match pagetable with
      | some pagetable => procFreepagetable pagetable sz
      | none => pure () : Kernel Unit).wp (fun _ own => own = frame)
      (pagetable.elim 0 ownedPages + frame) := by
    cases pagetable with
    | none => exact zero_add frame
    | some pt => exact procFreepagetable_spec pt sz frame hsz
  unfold freeproc pagesOf
  cases trapframe with
  | none =>
    rw [elim_none, zero_add]
    exact htable
  | some tf =>
    refine ⟨pagetable.elim 0 ownedPages + frame, ?_, htable⟩
    rw [elim_some, add_assoc, singleton_add]

theorem allocproc_spec (trampoline : Pa) (frame : Multiset Pa) : (allocproc trampoline).wp
      (fun r own => match r with
        | none => own = frame
        | some (tf, pt) => own = pagesOf (some tf) (some pt) + frame ∧
          ({ pagetable := pt, sz := 0 } : Image).Ok tf)
      frame := by
  refine ⟨rfl, fun tf => ?_⟩
  show Prog.wp _ (procPagetable trampoline tf >>= _) _
  rw [wp_bind]
  refine wp_mono (procPagetable_spec trampoline tf (tf ::ₘ frame)) ?_
  intro r own hr
  cases r with
  | none => exact ⟨frame, hr, rfl⟩
  | some pt =>
    refine ⟨?_, hr.2, Nat.zero_le _⟩
    rw [hr.1, pagesOf, elim_some, elim_some, ← singleton_add]
    abel

def NewProcess (frame : Multiset Pa) (r : Option (Pa × Image)) (own : Multiset Pa) : Prop :=
  match r with
  | none => own = frame
  | some (tf, p) => own = pagesOf (some tf) (some p.pagetable) + frame ∧ p.Ok tf

theorem forkCore_spec (trampoline : Pa) (parent : Image) (frame : Multiset Pa)
    (hsz : parent.sz ≤ TRAPFRAME) :
    (forkCore trampoline parent).wp (NewProcess frame) frame := by
  unfold forkCore
  rw [wp_bind]
  refine wp_mono (allocproc_spec trampoline frame) ?_
  intro r own hr
  match r, hr with
  | none, hr => exact hr
  | some (tf, pt), ⟨hown, hok⟩ =>
    have hown' : own = ownedPages pt + (tf ::ₘ frame) := by
      rw [hown, pagesOf, elim_some, elim_some, ← singleton_add]
      abel
    show Prog.wp _ (uvmcopy parent.pagetable pt parent.sz >>= _) own
    rw [wp_bind, hown']
    refine wp_mono (uvmcopy_spec parent.pagetable pt parent.sz (tf ::ₘ frame) hsz) ?_
    rintro ⟨pt', ok⟩ own hkept
    have hown'' : own = pagesOf (some tf) (some pt') + frame := by
      rw [hkept.1, pagesOf, elim_some, elim_some, ← singleton_add]
      abel
    cases ok with
    | true => exact ⟨hown'', hok.kept ⟨pt', parent.sz⟩ hkept hsz⟩
    | false =>
      show Prog.wp _ (freeproc (some tf) (some pt') 0 >>= _) own
      rw [wp_bind, hown'']
      exact wp_mono (freeproc_spec (some tf) (some pt') 0 frame (Nat.zero_le _))
        fun _ _ h => h

/-- The first process; a user page that could not be mapped stays allocated. -/
theorem userinit_spec (trampoline : Pa) (frame : Multiset Pa) : (userinit trampoline).wp
      (fun r own => ∃ lost, own = pagesOf (some r.1) (some r.2.pagetable) + (lost + frame) ∧
        r.2.Ok r.1)
      frame := by
  unfold userinit
  rw [wp_bind]
  refine wp_mono (allocproc_spec trampoline frame) ?_
  intro r own hr
  match r, hr with
  | none, _ => trivial
  | some (tf, pt), ⟨hown, hok⟩ =>
    have hown' : own = ownedPages pt + (tf ::ₘ frame) := by
      rw [hown, pagesOf, elim_some, elim_some, ← singleton_add]
      abel
    show Prog.wp _ (uvmfirst pt >>= _) own
    rw [wp_bind, hown']
    refine wp_mono (uvmfirst_spec pt (tf ::ₘ frame)) ?_
    have hsz : PGSIZE ≤ TRAPFRAME := by decide
    rintro pt' own (hkept | ⟨mem, hkept⟩)
    · refine ⟨0, ?_, hok.kept ⟨pt', PGSIZE⟩ hkept hsz⟩
      rw [hkept.1, pagesOf, elim_some, elim_some, ← singleton_add]
      abel
    · refine ⟨{mem}, ?_, hok.kept ⟨pt', PGSIZE⟩ hkept hsz⟩
      rw [hkept.1, pagesOf, elim_some, elim_some, ← singleton_add,
        ← singleton_add]
      abel

theorem growproc_spec (p : Image) (tf : Pa) (n : Int) (frame : Multiset Pa) (h : p.Ok tf) :
    (growproc p n).wp (fun r own => own = ownedPages r.1.pagetable + frame ∧ r.1.Ok tf)
      (ownedPages p.pagetable + frame) := by
  unfold growproc
  dsimp only
  split
  · rw [wp_bind]
    refine wp_mono (uvmalloc_spec p.pagetable p.sz _ PTE_W frame h.sz h.lookup_ne_none) ?_
    rintro ⟨pt, sz⟩ own ⟨hkept, hsz, _⟩
    show Prog.wp _ (if sz = 0 then _ else _) own
    split
    · exact ⟨hkept.1, h.kept ⟨pt, p.sz⟩ hkept h.sz⟩
    · exact ⟨hkept.1, h.kept ⟨pt, sz⟩ hkept hsz⟩
  split
  · rw [wp_bind]
    refine wp_mono (uvmdealloc_spec p.pagetable p.sz _ frame h.sz) ?_
    rintro ⟨pt, sz⟩ own ⟨hkept, hsz⟩
    exact ⟨hkept.1, h.kept ⟨pt, sz⟩ hkept (le_trans hsz h.sz)⟩
  · exact ⟨rfl, h⟩

end Xv6
