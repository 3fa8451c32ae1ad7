/-
  Xv6.Vm.Uvm — the page-table functions of vm.c and proc.c over `kalloc`.

  A function that changes a page table returns the changed tree, also when it fails.  `walk`
  returns what the PTE holds (`none` for a null pointer, `some none` for an invalid PTE) and
  `setPte` stores through it.
-/
import Xv6.Vm.PageTable
import Xv6.Lib.Alloc

namespace Xv6

open Lib

/-! ## §1. Kernel code that allocates (kalloc.c, alloctid). -/

abbrev Kernel (α : Type) := Prog Pa UInt32 α

def kalloc : Kernel (Option Pa) := .alloc .ret

def kfree (pa : Pa) : Kernel Unit := .free pa (.ret ())

def alloctid : Kernel UInt32 := .draw .ret

def KERNBASE : Nat := 0x80000000

def PHYSTOP : Nat := KERNBASE + 128 * 1024 * 1024

def kfreeOk (kend pa : Pa) : Bool := pa % PGSIZE = 0 ∧ kend ≤ pa ∧ pa < PHYSTOP

/-- The pages that `freerange(end, PHYSTOP)` frees, in its order. -/
def freerange (kend : Pa) : List Pa :=
  (List.range ((PHYSTOP - PGROUNDUP kend) / PGSIZE)).map fun i => PGROUNDUP kend + i * PGSIZE

/-! ## §2. The tree. -/

def PTE_V : Nat := 1
def PTE_R : Nat := 2
def PTE_W : Nat := 4
def PTE_X : Nat := 8
def PTE_U : Nat := 16

instance neZeroPtes : NeZero 512 := ⟨by decide⟩

/-- The nine index bits of a level. -/
def PX (level va : Nat) : Fin 512 := Fin.ofNat 512 (va / 2 ^ (12 + 9 * level))

def Node.set {α : Type} (n : Node α) (i : Fin 512) (x : Option α) : Node α :=
  { n with slot := Function.update n.slot i x }

/-- A page-table page after `memset(pagetable, 0, PGSIZE)`. -/
def Node.empty {α : Type} (page : Pa) : Node α := { page := page, slot := fun _ => none }

def Node.pte (pagetable : Pagetable) (va : Nat) : Option (Option Leaf) :=
  match pagetable.slot (PX 2 va) with
  | none => none
  | some n1 =>
    match n1.slot (PX 1 va) with
    | none => none
    | some n0 => some (n0.slot (PX 0 va))

/-- The mapping of `va`. -/
def Node.lookup (pagetable : Pagetable) (va : Nat) : Option Leaf := (pagetable.pte va).join

/-- `*pte = x` for the PTE of `va`. -/
def Node.setPte (pagetable : Pagetable) (va : Nat) (x : Option Leaf) : Pagetable :=
  match pagetable.slot (PX 2 va) with
  | none => pagetable
  | some n1 =>
    match n1.slot (PX 1 va) with
    | none => pagetable
    | some n0 =>
      pagetable.set (PX 2 va) (some (n1.set (PX 1 va) (some (n0.set (PX 0 va) x))))

/-! ## §3. walk and mappages. -/

def descend {α : Type} (n : Node (Node α)) (i : Fin 512) (alloc : Bool) :
    Kernel (Node (Node α) × Option (Node α)) :=
  match n.slot i with
  | some child => pure (n, some child)
  | none =>
    if alloc then do
      match ← kalloc with
      | none => pure (n, none)
      | some page => pure (n.set i (some (Node.empty page)), some (Node.empty page))
    else pure (n, none)

def walk (pagetable : Pagetable) (va : Nat) (alloc : Bool) :
    Kernel (Pagetable × Option (Option Leaf)) :=
  if MAXVA ≤ va then .abort "walk"
  else do
    let (n2, child) ← descend pagetable (PX 2 va) alloc
    match child with
    | none => pure (n2, none)
    | some n1 => do
      let (n1, child) ← descend n1 (PX 1 va) alloc
      let n2 := n2.set (PX 2 va) (some n1)
      match child with
      | none => pure (n2, none)
      | some n0 => pure (n2, some (n0.slot (PX 0 va)))

def mappagesLoop (perm : Nat) : Nat → Pagetable → Nat → Pa → Kernel (Pagetable × Bool)
  | 0, pagetable, _, _ => pure (pagetable, true)
  | n + 1, pagetable, a, pa => do
    let (pagetable, pte) ← walk pagetable a true
    match pte with
    | none => pure (pagetable, false)
    | some (some _) => .abort "mappages: remap"
    | some none =>
      mappagesLoop perm n (pagetable.setPte a (some { pa := pa, flags := perm ||| PTE_V }))
        (a + PGSIZE) (pa + PGSIZE)

/-- The result is `true` for 0 and `false` for -1. -/
def mappages (pagetable : Pagetable) (va size : Nat) (pa : Pa) (perm : Nat) :
    Kernel (Pagetable × Bool) :=
  if va % PGSIZE ≠ 0 then .abort "mappages: va not aligned"
  else if size % PGSIZE ≠ 0 then .abort "mappages: size not aligned"
  else if size = 0 then .abort "mappages: size"
  else mappagesLoop perm (size / PGSIZE) pagetable va pa

/-! ## §4. User memory. -/

def uvmunmapLoop (doFree : Bool) : Nat → Pagetable → Nat → Kernel Pagetable
  | 0, pagetable, _ => pure pagetable
  | n + 1, pagetable, a => do
    let (pagetable, pte) ← walk pagetable a false
    match pte with
    | none => .abort "uvmunmap: walk"
    | some none => .abort "uvmunmap: not mapped"
    | some (some leaf) =>
      if leaf.flags = PTE_V then .abort "uvmunmap: not a leaf"
      else do
        if doFree then kfree leaf.pa
        uvmunmapLoop doFree n (pagetable.setPte a none) (a + PGSIZE)

def uvmunmap (pagetable : Pagetable) (va npages : Nat) (doFree : Bool) : Kernel Pagetable :=
  if va % PGSIZE ≠ 0 then .abort "uvmunmap: not aligned"
  else uvmunmapLoop doFree npages pagetable va

def uvmcreate : Kernel (Option Pagetable) := do
  match ← kalloc with
  | none => pure none
  | some page => pure (some (Node.empty page))

/-- `mem` is used without a test: a write to address 0 is a kernel fault. -/
def uvmfirst (pagetable : Pagetable) : Kernel Pagetable := do
  match ← kalloc with
  | none => .abort "kerneltrap"
  | some mem => do
    let (pagetable, _) ←
      mappages pagetable 0 PGSIZE mem (PTE_W ||| PTE_R ||| PTE_X ||| PTE_U)
    pure pagetable

def uvmdealloc (pagetable : Pagetable) (oldsz newsz : Nat) : Kernel (Pagetable × Nat) :=
  if oldsz ≤ newsz then pure (pagetable, oldsz)
  else if PGROUNDUP newsz < PGROUNDUP oldsz then do
    let npages := (PGROUNDUP oldsz - PGROUNDUP newsz) / PGSIZE
    let pagetable ← uvmunmap pagetable (PGROUNDUP newsz) npages true
    pure (pagetable, newsz)
  else pure (pagetable, newsz)

def uvmallocLoop (oldsz xperm : Nat) : Nat → Pagetable → Nat → Kernel (Pagetable × Bool)
  | 0, pagetable, _ => pure (pagetable, true)
  | n + 1, pagetable, a => do
    match ← kalloc with
    | none => do
      let (pagetable, _) ← uvmdealloc pagetable a oldsz
      pure (pagetable, false)
    | some mem => do
      let (pagetable, ok) ← mappages pagetable a PGSIZE mem (PTE_R ||| PTE_U ||| xperm)
      if ok then uvmallocLoop oldsz xperm n pagetable (a + PGSIZE)
      else do
        kfree mem
        let (pagetable, _) ← uvmdealloc pagetable a oldsz
        pure (pagetable, false)

def uvmalloc (pagetable : Pagetable) (oldsz newsz xperm : Nat) : Kernel (Pagetable × Nat) :=
  if newsz < oldsz then pure (pagetable, oldsz)
  else do
    let oldsz := PGROUNDUP oldsz
    let (pagetable, ok) ←
      uvmallocLoop oldsz xperm ((newsz - oldsz + PGSIZE - 1) / PGSIZE) pagetable oldsz
    pure (pagetable, if ok then newsz else 0)

/-- The 512 slots of a page-table page, in order. -/
@[irreducible] def slotIndices : List (Fin 512) := List.finRange 512

def freewalkSlot {α : Type} (child : α → Kernel Unit) : Option α → Kernel Unit
  | some c => child c
  | none => pure ()

def freewalkSlots {α : Type} (child : α → Kernel Unit) (n : Node α) :
    List (Fin 512) → Kernel Unit
  | [] => pure ()
  | i :: l => do
    freewalkSlot child (n.slot i)
    freewalkSlots child n l

/-- The slots of one page-table page, then the page itself. -/
def freewalkNode {α : Type} (child : α → Kernel Unit) (n : Node α) : Kernel Unit := do
  freewalkSlots child n slotIndices
  kfree n.page

/-- `freewalk`; a mapping that is still there is a panic. -/
def freewalk (pagetable : Pagetable) : Kernel Unit :=
  freewalkNode (freewalkNode (freewalkNode fun _ => .abort "freewalk: leaf")) pagetable

def uvmfree (pagetable : Pagetable) (sz : Nat) : Kernel Unit :=
  if 0 < sz then do
    let pagetable ← uvmunmap pagetable 0 (PGROUNDUP sz / PGSIZE) true
    freewalk pagetable
  else freewalk pagetable

def uvmcopyLoop (old : Pagetable) : Nat → Pagetable → Nat → Kernel (Pagetable × Bool)
  | 0, new, _ => pure (new, true)
  | n + 1, new, i => do
    let (_, pte) ← walk old i false
    match pte with
    | none => .abort "uvmcopy: pte should exist"
    | some none => .abort "uvmcopy: page not present"
    | some (some leaf) => do
      match ← kalloc with
      | none => do
        let new ← uvmunmap new 0 (i / PGSIZE) true
        pure (new, false)
      | some mem => do
        let (new, ok) ← mappages new i PGSIZE mem leaf.flags
        if ok then uvmcopyLoop old n new (i + PGSIZE)
        else do
          kfree mem
          let new ← uvmunmap new 0 (i / PGSIZE) true
          pure (new, false)

def uvmcopy (old new : Pagetable) (sz : Nat) : Kernel (Pagetable × Bool) :=
  uvmcopyLoop old ((sz + PGSIZE - 1) / PGSIZE) new 0

/-- Mark a PTE invalid for user access. -/
def uvmclear (pagetable : Pagetable) (va : Nat) : Kernel Pagetable := do
  let (pagetable, pte) ← walk pagetable va false
  match pte with
  | none => .abort "uvmclear"
  | some x =>
    pure (pagetable.setPte va
      (x.map fun leaf => { leaf with flags := leaf.flags ^^^ (leaf.flags &&& PTE_U) }))

/-! ## §5. The page table of a process (proc.c). -/

def procPagetable (trampoline trapframe : Pa) : Kernel (Option Pagetable) := do
  match ← uvmcreate with
  | none => pure none
  | some pagetable => do
    let (pagetable, ok) ← mappages pagetable TRAMPOLINE PGSIZE trampoline (PTE_R ||| PTE_X)
    if ok then do
      let (pagetable, ok) ← mappages pagetable TRAPFRAME PGSIZE trapframe (PTE_R ||| PTE_W)
      if ok then pure (some pagetable)
      else do
        let pagetable ← uvmunmap pagetable TRAMPOLINE 1 false
        uvmfree pagetable 0
        pure none
    else do
      uvmfree pagetable 0
      pure none

def procFreepagetable (pagetable : Pagetable) (sz : Nat) : Kernel Unit := do
  let pagetable ← uvmunmap pagetable TRAMPOLINE 1 false
  let pagetable ← uvmunmap pagetable TRAPFRAME 1 false
  uvmfree pagetable sz

end Xv6
