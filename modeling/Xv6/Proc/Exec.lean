/-
  Xv6.Proc.Exec — `exec`: a new image from the bytes of an ELF file.

  Of the new memory only the page table is modelled, not the bytes that `loadseg` and
  `copyout` put there.
-/
import Xv6.Proc.Image

namespace Xv6

open Lib Prog

/-! ## §1. Reading the file. -/

/-- A little-endian field of `len` bytes at offset `off`. -/
def leField (bytes : List UInt8) (off len : Nat) : Nat :=
  ((bytes.drop off).take len).foldr (fun b acc => b.toNat + 256 * acc) 0

def readiBytes (file : List UInt8) (off n : Nat) : List UInt8 :=
  if file.length < off ∨ 2 ^ 32 ≤ off + n then [] else (file.drop off).take n

def ELF_MAGIC : Nat := 0x464C457F
def ELF_PROG_LOAD : Nat := 1

/-- `sizeof(struct elfhdr)` and `sizeof(struct proghdr)`. -/
def ELFHDR_SIZE : Nat := 64
def PROGHDR_SIZE : Nat := 56

structure ElfHdr where
  magic : Nat
  entry : Nat
  phoff : Nat
  phnum : Nat

structure ProgHdr where
  type : Nat
  flags : Nat
  off : Nat
  vaddr : Nat
  filesz : Nat
  memsz : Nat

def readElf (file : List UInt8) : Option ElfHdr :=
  let b := readiBytes file 0 ELFHDR_SIZE
  if b.length ≠ ELFHDR_SIZE then none
  else some { magic := leField b 0 4, entry := leField b 24 8, phoff := leField b 32 8,
              phnum := leField b 56 2 }

def readProgHdr (file : List UInt8) (off : Nat) : Option ProgHdr :=
  let b := readiBytes file off PROGHDR_SIZE
  if b.length ≠ PROGHDR_SIZE then none
  else some { type := leField b 0 4, flags := leField b 4 4, off := leField b 8 8,
              vaddr := leField b 16 8, filesz := leField b 32 8, memsz := leField b 40 8 }

/-! ## §2. Loading. -/

def flags2perm (flags : Nat) : Nat :=
  (if flags.testBit 0 then PTE_X else 0) ||| (if flags.testBit 1 then PTE_W else 0)

def walkaddr (pagetable : Pagetable) (va : Nat) : Nat :=
  if MAXVA ≤ va then 0
  else
    match pagetable.lookup va with
    | none => 0
    | some leaf => if leaf.flags &&& PTE_U = 0 then 0 else leaf.pa

def loadsegLoop (pagetable : Pagetable) (va : Nat) (file : List UInt8) (offset sz : Nat) :
    Nat → Nat → Kernel Bool
  | 0, _ => pure true
  | n + 1, i =>
    if walkaddr pagetable (va + i) = 0 then .abort "loadseg: address should exist"
    else
      let len := if sz - i < PGSIZE then sz - i else PGSIZE
      if (readiBytes file ((offset + i) % 2 ^ 32) len).length ≠ len then pure false
      else loadsegLoop pagetable va file offset sz n (i + PGSIZE)

/-- `offset` and `sz` are 32-bit parameters. -/
def loadseg (pagetable : Pagetable) (va : Nat) (file : List UInt8) (offset sz : Nat) :
    Kernel Bool :=
  let sz := sz % 2 ^ 32
  loadsegLoop pagetable va file (offset % 2 ^ 32) sz ((sz + PGSIZE - 1) / PGSIZE) 0

/-- The pagetable and `sz` the loop has reached; `false` stands for `goto bad`. -/
def loadSegments (file : List UInt8) : Nat → Nat → Image → Kernel (Image × Bool)
  | 0, _, p => pure (p, true)
  | n + 1, off, p =>
    match readProgHdr file off with
    | none => pure (p, false)
    | some ph =>
      let next := (off + PROGHDR_SIZE) % 2 ^ 32
      if ph.type ≠ ELF_PROG_LOAD then loadSegments file n next p
      else if ph.memsz < ph.filesz then pure (p, false)
      else if 2 ^ 64 ≤ ph.vaddr + ph.memsz then pure (p, false)
      else if ph.vaddr % PGSIZE ≠ 0 then pure (p, false)
      else do
        let (pagetable, sz1) ←
          uvmalloc p.pagetable p.sz (ph.vaddr + ph.memsz) (flags2perm ph.flags)
        if sz1 = 0 then pure ({ p with pagetable := pagetable }, false)
        else do
          let ok ← loadseg pagetable ph.vaddr file ph.off ph.filesz
          if ok then loadSegments file n next { pagetable := pagetable, sz := sz1 }
          else pure ({ pagetable := pagetable, sz := sz1 }, false)

/-! ## §3. The stack. -/

def USERSTACK : Nat := 1
def MAXARG : Nat := 32

/-- Whether `copyout(pagetable, dstva, …, len)` succeeds, in at most `fuel`
pages. -/
def copyoutOk (pagetable : Pagetable) : Nat → Nat → Nat → Bool
  | 0, _, len => len = 0
  | fuel + 1, dstva, len =>
    if len = 0 then true
    else
      let va0 := dstva / PGSIZE * PGSIZE
      if MAXVA ≤ va0 then false
      else
        match pagetable.lookup va0 with
        | none => false
        | some leaf =>
          if leaf.flags &&& PTE_U = 0 ∨ leaf.flags &&& PTE_W = 0 then false
          else copyoutOk pagetable fuel (va0 + PGSIZE) (len - (PGSIZE - (dstva - va0)))

/-- `sp -= n; sp -= sp % 16` on 64 bits. -/
def pushDown (sp n : Nat) : Nat :=
  let sp := (sp + 2 ^ 64 - n % 2 ^ 64) % 2 ^ 64
  sp - sp % 16

/-- Push the argument strings; `argc` and `sp` after them. -/
def pushArgs (pagetable : Pagetable) (stackbase : Nat) :
    List (List UInt8) → Nat → Nat → Option (Nat × Nat)
  | [], argc, sp => some (argc, sp)
  | s :: rest, argc, sp =>
    if MAXARG ≤ argc then none
    else
      let sp := pushDown sp (s.length + 1)
      if sp < stackbase then none
      else if copyoutOk pagetable (s.length + 1) sp (s.length + 1) then
        pushArgs pagetable stackbase rest (argc + 1) sp
      else none

def pushStack (pagetable : Pagetable) (sz : Nat) (argv : List (List UInt8)) : Option (Nat × Nat) :=
  let stackbase := sz - USERSTACK * PGSIZE
  match pushArgs pagetable stackbase argv 0 sz with
  | none => none
  | some (argc, sp) =>
    let sp := pushDown sp ((argc + 1) * 8)
    if sp < stackbase then none
    else if copyoutOk pagetable ((argc + 1) * 8) sp ((argc + 1) * 8) then some (argc, sp)
    else none

/-! ## §4. exec. -/

structure Execed where
  image : Image
  epc : Nat
  sp : Nat
  argc : Nat

/-- `goto bad` once there is a page table. -/
def execBad (p : Image) : Kernel (Option Execed) := do
  procFreepagetable p.pagetable p.sz
  pure none

def execStack (old p : Image) (entry : Nat) (argv : List (List UInt8)) :
    Kernel (Option Execed) := do
  let sz := PGROUNDUP p.sz
  let (pagetable, sz1) ← uvmalloc p.pagetable sz (sz + (USERSTACK + 1) * PGSIZE) PTE_W
  if sz1 = 0 then execBad { pagetable := pagetable, sz := sz }
  else do
    let pagetable ← uvmclear pagetable (sz1 - (USERSTACK + 1) * PGSIZE)
    match pushStack pagetable sz1 argv with
    | none => execBad { pagetable := pagetable, sz := sz1 }
    | some (argc, sp) => do
      procFreepagetable old.pagetable old.sz
      pure (some
        { image := { pagetable := pagetable, sz := sz1 }, epc := entry, sp := sp, argc := argc })

/-- `exec`; `none` for the result -1.  `file` is `none` if `namei` finds nothing. -/
def exec (trampoline trapframe : Pa) (old : Image) (file : Option (List UInt8))
    (argv : List (List UInt8)) : Kernel (Option Execed) :=
  match file with
  | none => pure none
  | some file =>
    match readElf file with
    | none => pure none
    | some elf =>
      if elf.magic ≠ ELF_MAGIC then pure none
      else do
        match ← procPagetable trampoline trapframe with
        | none => pure none
        | some pagetable => do
          let (p, ok) ← loadSegments file elf.phnum (elf.phoff % 2 ^ 32)
            { pagetable := pagetable, sz := 0 }
          if ok then execStack old p elf.entry argv else execBad p

/-! ## §5. What it owns. -/

theorem loadsegLoop_spec (pt : Pagetable) (va : Nat) (file : List UInt8) (offset sz n i : Nat)
    (own : Multiset Pa) :
    (loadsegLoop pt va file offset sz n i).wp (fun _ own' => own' = own) own := by
  induction n generalizing i with
  | zero => rfl
  | succ n ih =>
    unfold loadsegLoop
    split
    · trivial
    · dsimp only
      generalize (if sz - i < PGSIZE then sz - i else PGSIZE) = len
      split
      · rfl
      · exact ih (i + PGSIZE)

theorem loadSegments_spec (file : List UInt8) (n off : Nat) (p : Image) (tf : Pa)
    (frame : Multiset Pa) (h : p.Ok tf) :
    (loadSegments file n off p).wp (fun r own => own = ownedPages r.1.pagetable + frame ∧ r.1.Ok tf)
      (ownedPages p.pagetable + frame) := by
  induction n generalizing off p with
  | zero => exact ⟨rfl, h⟩
  | succ n ih =>
    unfold loadSegments
    split
    · exact ⟨rfl, h⟩
    next ph _ =>
    dsimp only
    split
    · exact ih _ p h
    split
    · exact ⟨rfl, h⟩
    split
    · exact ⟨rfl, h⟩
    split
    · exact ⟨rfl, h⟩
    rw [wp_bind]
    refine wp_mono (uvmalloc_spec p.pagetable p.sz _ _ frame h.sz h.lookup_ne_none) ?_
    rintro ⟨pt, sz1⟩ own ⟨hkept, hsz, _⟩
    have hok1 : (⟨pt, sz1⟩ : Image).Ok tf := h.kept ⟨pt, sz1⟩ hkept hsz
    show Prog.wp _ (if sz1 = 0 then _ else _) own
    split
    · exact ⟨hkept.1, h.kept ⟨pt, p.sz⟩ hkept h.sz⟩
    rw [wp_bind]
    refine wp_mono (loadsegLoop_spec pt ph.vaddr file _ _ _ 0 own) ?_
    intro ok own' hown'
    cases ok with
    | false => exact ⟨hown'.trans hkept.1, hok1⟩
    | true =>
      show Prog.wp _ (loadSegments file n _ ⟨pt, sz1⟩) own'
      rw [hown', hkept.1]
      exact ih _ ⟨pt, sz1⟩ hok1

def ExecPost (old : Image) (tf : Pa) (frame : Multiset Pa) (r : Option Execed)
    (own : Multiset Pa) : Prop :=
  match r with
  | none => own = ownedPages old.pagetable + frame
  | some e => own = ownedPages e.image.pagetable + frame ∧ e.image.Ok tf

theorem execBad_spec (old p : Image) (tf : Pa) (frame : Multiset Pa) (h : p.Ok tf) :
    (execBad p).wp (ExecPost old tf frame)
      (ownedPages p.pagetable + (ownedPages old.pagetable + frame)) := by
  unfold execBad
  rw [wp_bind]
  exact wp_mono (procFreepagetable_spec p.pagetable p.sz _ h.sz) fun _ _ h => h

theorem execStack_spec (old p : Image) (tf : Pa) (entry : Nat) (argv : List (List UInt8))
    (frame : Multiset Pa) (hold : old.sz ≤ TRAPFRAME) (h : p.Ok tf) :
    (execStack old p entry argv).wp (ExecPost old tf frame)
      (ownedPages p.pagetable + (ownedPages old.pagetable + frame)) := by
  unfold execStack
  have hsz := PGROUNDUP_le_TRAPFRAME h.sz
  rw [wp_bind]
  refine wp_mono (uvmalloc_spec p.pagetable _ _ _ _ hsz h.lookup_ne_none) ?_
  rintro ⟨pt, sz1⟩ own ⟨hkept, hsz1, hcases⟩
  dsimp only at hsz1 hcases ⊢
  rw [hkept.1]
  split
  · exact execBad_spec old ⟨pt, _⟩ tf frame (h.kept ⟨pt, _⟩ hkept hsz)
  next hne =>
  -- the guard page is the lower of the two new ones
  have hguard : sz1 - (USERSTACK + 1) * PGSIZE = PGROUNDUP p.sz := by
    simp only [USERSTACK, PGSIZE] at *
    omega
  have hlt : PGROUNDUP p.sz < TRAPFRAME := by
    simp only [USERSTACK, PGSIZE] at *
    omega
  rw [wp_bind, hguard]
  refine wp_mono (uvmclear_spec pt _ _ (PGROUNDUP_aligned p.sz) hlt) ?_
  intro pt' own hkept'
  have hok' : (⟨pt', sz1⟩ : Image).Ok tf :=
    (h.kept ⟨pt, sz1⟩ hkept hsz1).kept ⟨pt', sz1⟩ hkept' hsz1
  rw [hkept'.1]
  cases pushStack pt' sz1 argv with
  | none => exact execBad_spec old ⟨pt', sz1⟩ tf frame hok'
  | some r =>
    obtain ⟨argc, sp⟩ := r
    have hown : ownedPages pt' + (ownedPages old.pagetable + frame) =
        ownedPages old.pagetable + (ownedPages pt' + frame) := by abel
    show Prog.wp _ (procFreepagetable old.pagetable old.sz >>= _) _
    rw [wp_bind, hown]
    refine wp_mono (procFreepagetable_spec old.pagetable old.sz _ hold) ?_
    intro _ own hown
    exact ⟨hown, hok'⟩

theorem exec_spec (trampoline tf : Pa) (old : Image) (file : Option (List UInt8))
    (argv : List (List UInt8)) (frame : Multiset Pa) (hold : old.sz ≤ TRAPFRAME) :
    (exec trampoline tf old file argv).wp (ExecPost old tf frame)
      (ownedPages old.pagetable + frame) := by
  unfold exec
  split
  · rfl
  next file =>
  split
  · rfl
  next elf _ =>
  split
  · rfl
  rw [wp_bind]
  refine wp_mono (procPagetable_spec trampoline tf _) ?_
  intro r own hr
  cases r with
  | none => exact hr
  | some pt =>
    show Prog.wp _ (loadSegments file elf.phnum _ ⟨pt, 0⟩ >>= _) own
    rw [wp_bind, hr.1]
    refine wp_mono (loadSegments_spec file elf.phnum _ ⟨pt, 0⟩ tf _
      ⟨hr.2, Nat.zero_le _⟩) ?_
    rintro ⟨p, ok⟩ own ⟨hown, hok⟩
    rw [hown]
    cases ok with
    | true => exact execStack_spec old p tf elf.entry argv frame hold hok
    | false => exact execBad_spec old p tf frame hok

end Xv6
