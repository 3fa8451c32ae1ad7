/-
  Xv6.Fs.Balance — path and descriptor calls keep the books balanced.

  The ledger is what the inode table counts beyond the references that open files and
  working directories own, with the sleep locks and `log.outstanding`.
-/
import Xv6.Fs.Books
import Xv6.Fs.Files
import Xv6.Lib.Run

namespace Xv6.Fs

open Lib Lib.Comp

/-! ## §1. Owners and the ledger. -/

def fileRef (file : File) : Books :=
  if file.type = .FD_INODE ∨ file.type = .FD_DEVICE then refOf file.ip else 0

namespace Sys

/-- The references that open files and working directories own. -/
def held (s : Sys) : Books := ∑ f, fileRef (s.file .ftable f) + ∑ p, refOf (s.cwd p)

def ledger (s : Sys) : Books × Int := (s.fs.books - s.held, s.outstanding)

/-- One entry per inode, and a closed file is FD_NONE. -/
structure Tidy (s : Sys) : Prop where
  uniq : s.fs.Uniq
  closed : ∀ f, (s.file .ftable f).ref = 0 → (s.file .ftable f).type = .FD_NONE

def kfiles (s : Sys) : Fin NFILE → File := s.file .kftable

structure TidyWith (k : Fin NFILE → File) (s : Sys) : Prop extends Tidy s where
  kernel : s.kfiles = k

section Setters

variable (s : Sys) (t : Table) (f : Fin NFILE) (file : File)

@[simp] theorem setFile_cwd : (s.setFile t f file).cwd = s.cwd := rfl

@[simp] theorem setFile_self : (s.setFile t f file).file t = put (s.file t) f file := if_pos rfl

theorem setFile_other {u : Table} (h : u ≠ t) : (s.setFile t f file).file u = s.file u := if_neg h

end Setters

variable {s s' : Sys}

theorem held_setFile (f : Fin NFILE) (file : File) :
    (s.setFile .ftable f file).held = s.held + (fileRef file - fileRef (s.file .ftable f)) := by
  unfold held
  rw [setFile_self, setFile_cwd, sum_put]
  abel

theorem held_setCwd (p : Slot) (cwd : Option (Fin NINODE)) :
    (s.setCwd p cwd).held = s.held + (refOf cwd - refOf (s.cwd p)) := by
  unfold held setCwd
  rw [sum_put (g := refOf)]
  abel

theorem held_congr (hfile : s'.file .ftable = s.file .ftable) (hcwd : s'.cwd = s.cwd) :
    s'.held = s.held := by
  unfold held
  rw [hfile, hcwd]

theorem ledger_change {b : Books} {n : Int} (hfile : s'.file .ftable = s.file .ftable)
    (hcwd : s'.cwd = s.cwd) (hb : s'.fs.books = s.fs.books + b)
    (hn : s'.outstanding = s.outstanding + n) : s'.ledger = s.ledger + (b, n) := by
  unfold ledger
  rw [held_congr hfile hcwd, hb, hn]
  refine Prod.ext ?_ rfl
  show s.fs.books + b - s.held = s.fs.books - s.held + b
  abel

end Sys

/-- What `m` adds to the ledger when it returns. -/
abbrev Charges {α : Type} (d : α → Books × Int) (m : SysM α) : Prop :=
  Adds Sys.Tidy Sys.ledger d m

abbrev Balanced {α : Type} (m : SysM α) : Prop := Charges (fun _ => 0) m

abbrev Settles {α : Type} (k : Fin NFILE → File) (d : α → Books × Int) (m : SysM α) : Prop :=
  Adds (Sys.TidyWith k) Sys.ledger d m

/-! ## §2. Transactions and files. -/

variable {k : Fin NFILE → File}

variable {α : Type} {m : SysM α}

theorem Charges.settles {d : α → Books × Int} (hm : Charges d m)
    (hk : Keeps Sys.kfiles m) : Settles k d m := by
  intro s hs
  refine wp_mono (wp_and (hm s hs.toTidy) (hk s)) fun _ _ ⟨⟨hs', hl⟩, hk'⟩ => ⟨⟨hs', ?_⟩, hl⟩
  exact hk'.trans hs.kernel

theorem liftFs_run (m : FsM α) (s : Sys) :
    Returns (fun a s' => ∃ fs, m s.fs = .ok (a, fs) ∧ s' = s.setFs fs) (liftFs m) s := by
  unfold Returns liftFs
  rw [wp_zoom]
  unfold wp
  split
  · next heq => exact ⟨_, heq, rfl⟩
  · exact trivial

theorem beginOp_run (sb : Superblock) (s : Sys) :
    Returns (fun _ s' => s' = s.setOutstanding (s.outstanding + 1)) (beginOp sb) s := by
  unfold beginOp Returns
  rw [wp_bind, wp_get]
  split
  · exact trivial
  · next log hlog =>
    obtain ⟨_, _, rfl⟩ := LogLayer.beginOp_eq_some hlog
    exact rfl

theorem endOp_run (sb : Superblock) (s : Sys) :
    Returns (fun _ s' => ∃ lh, s' = (s.setOutstanding (s.outstanding - 1)).setFs { s.fs with lh := lh } ∧
      (s.outstanding = 1 → lh = [])) (endOp sb) s := by
  unfold endOp Returns
  rw [wp_bind, wp_get]
  split
  · exact trivial
  · next log doCommit hlog =>
    obtain ⟨_, ⟨h1, rfl, rfl⟩ | ⟨h1, rfl, rfl⟩⟩ := LogLayer.endOp_eq_ok hlog
    · refine ⟨[], ?_, fun _ => rfl⟩
      have h1' : s.outstanding = 1 := h1
      show (s.setOutstanding 0).setFs _ = (s.setOutstanding (s.outstanding - 1)).setFs _
      rw [h1']
      rfl
    · exact ⟨s.fs.lh, rfl, fun h => absurd h h1⟩

theorem liftFs_returns {d : α → Books} {m : FsM α} {s : Sys} (hs : s.TidyWith k)
    (hm : Returns (fun a v => v.Uniq ∧ v.books = s.fs.books + d a) m s.fs) :
    Returns (fun a s' => (s'.TidyWith k ∧ s'.ledger = s.ledger + (d a, 0)) ∧ s'.cwd = s.cwd)
      (liftFs m) s := by
  unfold Returns liftFs
  rw [wp_zoom]
  refine wp_mono hm fun a v ⟨hu, hb⟩ => ⟨⟨⟨⟨hu, hs.closed⟩, hs.kernel⟩, ?_⟩, rfl⟩
  exact Sys.ledger_change rfl rfl hb (add_zero _).symm

theorem liftFs_settles {d : α → Books} {m : FsM α} (hm : Counts d m) :
    Settles k (fun a => (d a, 0)) (liftFs m) := by
  intro s hs
  exact wp_mono (liftFs_returns hs (hm s.fs hs.uniq)) fun a s' h => h.1

section Functions

variable (sb : Superblock) (p : Slot)

theorem beginOp_settles : Settles k (fun _ => (0, 1)) (beginOp sb) := by
  intro s hs
  refine Returns.mono (beginOp_run sb s) fun _ s' hs' => ?_
  subst hs'
  exact ⟨⟨⟨hs.uniq, hs.closed⟩, hs.kernel⟩, Sys.ledger_change rfl rfl (add_zero _).symm rfl⟩

variable {s : Sys} {o : Option (Fin NFILE)} {α : Type}

theorem endOp_returns (hs : s.TidyWith k) :
    Returns (fun _ s' => (s'.TidyWith k ∧ s'.ledger = s.ledger + (0, -1)) ∧ s'.cwd = s.cwd)
      (endOp sb) s := by
  refine .mono (endOp_run sb s) fun _ s' ⟨lh, hs', _⟩ => ?_
  subst hs'
  refine ⟨⟨⟨⟨hs.uniq, hs.closed⟩, hs.kernel⟩, ?_⟩, rfl⟩
  exact Sys.ledger_change rfl rfl (add_zero _).symm rfl

theorem endOp_settles : Settles k (fun _ => (0, -1)) (endOp sb) := fun _ hs =>
  wp_mono (endOp_returns sb hs) fun _ _ h => h.1

theorem modifyFile_returns {f : Fin NFILE} {g : File → File} (hs : s.TidyWith k)
    (hg : (g (s.file .ftable f)).ref = 0 → (g (s.file .ftable f)).type = .FD_NONE) :
    Returns (fun _ s' => s'.TidyWith k ∧ s'.ledger =
      s.ledger - (fileRef (g (s.file .ftable f)) - fileRef (s.file .ftable f), 0))
      (modifyFile .ftable f g) s := by
  refine ⟨⟨⟨hs.uniq, ?_⟩, (s.setFile_other .ftable f _ (by decide)).trans hs.kernel⟩, ?_⟩
  · intro f'
    rw [Sys.setFile_self, put_apply]
    split
    · exact hg
    · exact hs.closed f'
  · unfold Sys.ledger
    rw [Sys.held_setFile]
    refine Prod.ext ?_ ?_
    · show s.fs.books - (s.held + (fileRef (g (s.file .ftable f)) - fileRef (s.file .ftable f))) =
        s.fs.books - s.held - (fileRef (g (s.file .ftable f)) - fileRef (s.file .ftable f))
      abel
    · show s.outstanding = s.outstanding - 0
      rw [sub_zero]

theorem modifyFile_same {f : Fin NFILE} {g : File → File} (hs : s.TidyWith k)
    (hg : (g (s.file .ftable f)).ref = 0 → (g (s.file .ftable f)).type = .FD_NONE)
    (hown : fileRef (g (s.file .ftable f)) = fileRef (s.file .ftable f)) :
    Returns (fun _ s' => s'.TidyWith k ∧ s'.ledger = s.ledger + 0) (modifyFile .ftable f g) s := by
  refine (modifyFile_returns hs hg).mono fun _ s' ⟨hs', hl⟩ => ⟨hs', ?_⟩
  rw [hown, sub_self] at hl
  rw [add_zero, hl]
  exact sub_zero s.ledger

theorem setOfile_balanced {fd : Fin NOFILE} :
    Balanced (modify fun s => s.setOfile p fd o : SysM Unit) := by
  refine .modify fun s hs => ⟨⟨hs.uniq, hs.closed⟩, ?_⟩
  exact Sys.ledger_change rfl rfl (add_zero _).symm (add_zero _).symm

theorem setOfile_settles {fd : Fin NOFILE} :
    Settles k (fun _ => 0) (modify fun s => s.setOfile p fd o : SysM Unit) :=
  (setOfile_balanced p).settles fun _ => rfl

theorem putInode_settles (ip : Option (Fin NINODE)) :
    Settles k (fun _ => (-refOf ip, 0)) (putInode sb ip) := by
  have hput : Counts (fun _ => -refOf ip) (deref ip >>= iput sb) := by
    cases ip with
    | none => exact .throw
    | some e => exact iput_counts sb e
  unfold putInode
  refine (beginOp_settles sb).bind fun _ => ?_
  refine (liftFs_settles hput).bind fun _ => ?_
  refine (endOp_settles sb).congr fun _ => ?_
  refine Prod.ext ?_ ?_
  · show (0 : Books) = -refOf ip - 0 - -refOf ip
    abel
  · show (-1 : Int) = 0 - 1 - 0
    omega

theorem fileclose_settles (f : Fin NFILE) : Settles k (fun _ => 0) (fileclose sb f) := by
  unfold fileclose closeIn
  refine .of_get fun s hs => ?_
  dsimp only
  split
  · exact trivial
  · split
    · next href =>
      refine modifyFile_same hs (fun h => ?_) rfl
      have h0 : (s.file .ftable f).ref - 1 = 0 := h
      omega
    · refine (modifyFile_returns hs fun _ => rfl).bind fun _ s' ⟨hs', hl⟩ => ?_
      have hnone : fileRef { s.file .ftable f with ref := 0, type := .FD_NONE } = 0 :=
        if_neg (by simp)
      rw [hnone, zero_sub] at hl
      unfold guarded
      split
      · next htype =>
        have hown : fileRef (s.file .ftable f) = refOf (s.file .ftable f).ip := if_pos htype
        refine .mono (putInode_settles sb _ s' hs') fun _ s'' ⟨hs'', hl'⟩ => ⟨hs'', ?_⟩
        rw [hl', hl, hown]
        refine Prod.ext ?_ ?_
        · show s.ledger.1 - -refOf _ + -refOf _ = s.ledger.1 + 0
          abel
        · show s.ledger.2 - 0 + 0 = s.ledger.2 + 0
          omega
      · next htype =>
        have hown : fileRef (s.file .ftable f) = 0 := if_neg htype
        refine ⟨hs', ?_⟩
        rw [hl, hown, neg_zero]
        show s.ledger - 0 = s.ledger + 0
        rw [sub_zero, add_zero]

theorem filealloc_returns (hs : s.TidyWith k) :
    Returns (fun r s' => (s'.TidyWith k ∧ s'.ledger = s.ledger + 0) ∧ ∀ f, r = some f →
      (s'.file .ftable f).ref = 1 ∧ (s'.file .ftable f).type = .FD_NONE) filealloc s := by
  unfold filealloc allocIn Returns
  rw [wp_bind, wp_get]
  split
  · rw [wp_pure, add_zero]
    refine ⟨⟨hs, rfl⟩, ?_⟩
    intro f hf
    cases hf
  · next f hfind =>
    have href : (s.file .ftable f).ref = 0 := by
      have hp := List.find?_some hfind
      exact of_decide_eq_true hp
    have htype := hs.closed f href
    refine Returns.bind (wp_and (modifyFile_same hs (fun _ => htype) rfl)
      (R := fun _ s' => s'.file .ftable =
        put (s.file .ftable) f { s.file .ftable f with ref := 1 }) ?_)
      fun _ s' ⟨hs', hfile⟩ => ⟨hs', ?_⟩
    · exact s.setFile_self .ftable f _
    · intro f' hf'
      cases hf'
      rw [hfile, put_self]
      exact ⟨rfl, htype⟩

theorem fdalloc_returns (hs : s.TidyWith k) (f : Fin NFILE) :
    Returns (fun _ s' => (s'.TidyWith k ∧ s'.ledger = s.ledger + 0) ∧ s'.file = s.file)
      (fdalloc p f) s := by
  unfold fdalloc Returns
  rw [wp_bind, wp_get]
  split
  · rw [wp_pure, add_zero]
    exact ⟨⟨hs, rfl⟩, rfl⟩
  · refine Returns.bind (wp_and (setOfile_settles p s hs)
      (R := fun _ (s' : Sys) => s'.file = s.file) ?_) fun _ s' h => h
    exact rfl

theorem openFile_returns (hs : s.TidyWith k) :
    Returns (fun r s' => (s'.TidyWith k ∧ s'.ledger = s.ledger + 0) ∧ ∀ f fd, r = some (f, fd) →
      (s'.file .ftable f).ref = 1 ∧ (s'.file .ftable f).type = .FD_NONE) (openFile sb p) s := by
  unfold openFile
  refine (filealloc_returns hs).bind fun r s' ⟨⟨hs', hl⟩, hfile⟩ => ?_
  match r with
  | none =>
    refine ⟨⟨hs', hl⟩, ?_⟩
    intro f fd h
    cases h
  | some f =>
    refine (fdalloc_returns p hs' f).bind fun r s'' ⟨⟨hs'', hl'⟩, hfile'⟩ => ?_
    rw [add_zero, hl] at hl'
    match r with
    | none =>
      -- no descriptor is free: the file is closed again
      refine .bind (fileclose_settles sb f s'' hs'') fun _ s₃ ⟨hs₃, hl₃⟩ => ?_
      refine ⟨⟨hs₃, ?_⟩, ?_⟩
      · rw [hl₃, hl', add_zero]
      · intro f fd h
        cases h
    | some fd =>
      refine ⟨⟨hs'', hl'⟩, ?_⟩
      intro f' fd' h
      cases h
      rw [hfile']
      exact hfile f rfl

/-! ## §3. The system calls on paths. -/

/-- Every owner is counted. -/
def Covered (g : Books × Int) : Prop := ∀ e, 0 ≤ g.1.1 e

theorem refOf_nonneg (o : Option (Fin NINODE)) (e : Fin NINODE) : 0 ≤ (refOf o).1 e := by
  cases o with
  | none => exact le_refl (0 : Int)
  | some f =>
    show (0 : Int) ≤ Pi.single (M := fun _ => Int) f 1 e
    rw [Pi.single_apply]
    split <;> omega

theorem fileRef_nonneg (file : File) (e : Fin NINODE) : 0 ≤ (fileRef file).1 e := by
  unfold fileRef
  split
  · exact refOf_nonneg _ e
  · exact le_refl (0 : Int)

theorem Sys.held_apply (s : Sys) (e : Fin NINODE) :
    s.held.1 e = ∑ f, (fileRef (s.file .ftable f)).1 e + ∑ p, (refOf (s.cwd p)).1 e := by
  unfold held
  rw [Prod.fst_add, Prod.fst_sum, Prod.fst_sum, Pi.add_apply, Finset.sum_apply, Finset.sum_apply]

theorem Sys.one_le_held {e : Fin NINODE} (h : s.cwd p = some e) : 1 ≤ s.held.1 e := by
  have hfiles : 0 ≤ ∑ f, (fileRef (s.file .ftable f)).1 e :=
    Finset.sum_nonneg fun f _ => fileRef_nonneg _ e
  have hone : (refOf (s.cwd p)).1 e ≤ ∑ p, (refOf (s.cwd p)).1 e :=
    Finset.single_le_sum (f := fun p => (refOf (s.cwd p)).1 e)
      (fun p _ => refOf_nonneg _ e) (Finset.mem_univ p)
  have hval : (refOf (s.cwd p)).1 e = 1 := by
    rw [h]
    exact Pi.single_eq_same e 1
  rw [Sys.held_apply]
  omega

theorem cwdHeld_of_covered (h : Covered s.ledger) : CwdHeld (s.cwd p) s.fs.books := by
  intro e he
  have hheld := Sys.one_le_held p he
  have hcov : 0 ≤ s.fs.books.1 e - s.held.1 e := h e
  omega

theorem walk_returns {d : α → Books} {m : FsM α} (hs : s.TidyWith k)
    (hcov : Covered s.ledger) (hm : CountsFrom (CwdHeld (s.cwd p)) d m) :
    Returns (fun a s' => s'.TidyWith k ∧ s'.ledger = s.ledger + (d a, 0)) (liftFs m) s :=
  (liftFs_returns hs (hm s.fs hs.uniq (cwdHeld_of_covered p hcov))).mono fun _ _ h => h.1

section

variable (cwd : Option (Fin NINODE)) (path : List UInt8)

include cwd path

theorem openExisting_counts (omode : UInt32) :
    CountsFrom (CwdHeld cwd) heldOf (openExisting sb cwd path omode) := by
  unfold openExisting
  refine (namei_counts sb cwd path).bind fun r => Adds.from ?_ _
  match r with
  | none => exact .pure (sub_self _)
  | some ip =>
    refine (ilock_counts sb ip).bind fun _ => ?_
    refine .bind_zero .get fun s => ?_
    refine .ite (fun _ => ?_) fun _ => .pure ?_
    · exact put_settled sb ip rfl
    · show oneRef ip + oneLock ip - oneRef ip - oneLock ip = 0
      abel

theorem openInode_counts (omode : UInt32) :
    CountsFrom (CwdHeld cwd) heldOf (openInode sb cwd path omode) := by
  unfold openInode
  exact .ite (fun _ => create_counts sb cwd path _ _ _)
    fun _ => openExisting_counts sb cwd path omode

theorem chdirTarget_counts : CountsFrom (CwdHeld cwd) refOf (chdirTarget sb cwd path) := by
  unfold chdirTarget
  refine (namei_counts sb cwd path).bind fun r => Adds.from ?_ _
  match r with
  | none => exact .pure (sub_self _)
  | some ip =>
    refine (ilock_counts sb ip).bind fun _ => ?_
    refine .bind_zero .get fun s => ?_
    refine .ite (fun _ => ?_) fun _ => ?_
    · exact put_settled sb ip rfl
    · refine (iunlock_counts ip).bind fun _ => .pure ?_
      show oneRef ip - oneRef ip - oneLock ip - -oneLock ip = 0
      abel

end

theorem putEnd_settles (ip : Fin NINODE) (r : α) :
    Settles k (fun _ => -(oneRef ip + oneLock ip, 1)) (do
      liftFs (iunlockput sb ip)
      endOp sb
      pure r) := by
  refine (liftFs_settles (iunlockput_counts sb ip)).bind fun _ => ?_
  refine (endOp_settles sb).bind fun _ => .pure ?_
  refine Prod.ext ?_ ?_
  · show -(oneRef ip + oneLock ip) - (-oneRef ip - oneLock ip) - 0 = 0
    abel
  · show (-1 : Int) - 0 - -1 = 0
    omega

theorem end_settles (r : α) : Settles k (fun _ => -(0, 1)) (do
    endOp sb
    pure r) := by
  refine (endOp_settles sb).bind fun _ => .pure ?_
  refine Prod.ext ?_ ?_
  · show -(0 : Books) - 0 = 0
    abel
  · show (-1 : Int) - -1 = 0
    omega

theorem Covered.of_begin {g : Books × Int} (h : Covered (g - (0, 1))) : Covered g := by
  intro e
  have he : 0 ≤ g.1.1 e - 0 := h e
  omega

theorem fileRef_opened (file : File) (ip : Fin NINODE) (d : Dinode) (omode : UInt32) :
    fileRef (file.opened ip d omode) = oneRef ip := by
  have htype : (file.opened ip d omode).type = .FD_INODE ∨
      (file.opened ip d omode).type = .FD_DEVICE := by
    show (if d.type = T_DEVICE then FdType.FD_DEVICE else .FD_INODE) = .FD_INODE ∨
      (if d.type = T_DEVICE then FdType.FD_DEVICE else .FD_INODE) = .FD_DEVICE
    by_cases h : d.type = T_DEVICE
    · rw [if_pos h]
      exact .inr rfl
    · rw [if_neg h]
      exact .inl rfl
  exact if_pos htype

theorem openEnd_settles (ip : Fin NINODE) (c : Prop) [Decidable c] (r : Int) :
    Settles k (fun _ => -(oneLock ip, 1)) (do
      liftFs (guarded c (itrunc sb ip))
      liftFs (iunlock ip)
      endOp sb
      pure r) := by
  refine (liftFs_settles (.guarded (itrunc_silent sb ip))).bind fun _ => ?_
  refine (liftFs_settles (iunlock_counts ip)).bind fun _ => ?_
  refine (endOp_settles sb).bind fun _ => .pure ?_
  refine Prod.ext ?_ ?_
  · show -oneLock ip - 0 - -oneLock ip - 0 = 0
    abel
  · show (-1 : Int) - 0 - 0 - -1 = 0
    omega

theorem openLocked_settles (ip : Fin NINODE) (d : Dinode) (omode : UInt32) :
    Settles k (fun _ => -(oneRef ip + oneLock ip, 1)) (do
      match ← openFile sb p with
      | none => do
        liftFs (iunlockput sb ip)
        endOp sb
        pure (-1)
      | some (f, fd) => do
        modifyFile .ftable f fun file => file.opened ip d omode
        liftFs (guarded (omode &&& O_TRUNC ≠ 0 ∧ d.type = T_FILE) (itrunc sb ip))
        liftFs (iunlock ip)
        endOp sb
        pure (fd.val : Int)) := by
  intro s hs
  refine Returns.bind (openFile_returns sb p hs) fun r s' ⟨⟨hs', hl⟩, hfile⟩ => ?_
  rw [add_zero] at hl
  match r with
  | none =>
    refine .mono (putEnd_settles sb ip (-1) s' hs') fun _ s'' ⟨hs'', hl'⟩ => ⟨hs'', ?_⟩
    rw [hl', hl]
  | some (f, fd) =>
    obtain ⟨href, htype⟩ := hfile f fd rfl
    have hold : fileRef (s'.file .ftable f) = 0 := by
      unfold fileRef
      rw [htype]
      exact if_neg (by simp)
    refine .bind (modifyFile_returns hs' fun h => ?_) fun _ s'' ⟨hs'', hl'⟩ => ?_
    · have h0 : (s'.file .ftable f).ref = 0 := h
      omega
    · rw [fileRef_opened, hold, sub_zero, hl] at hl'
      refine .mono (openEnd_settles sb ip _ _ s'' hs'') fun _ s₃ ⟨hs₃, hl₃⟩ => ⟨hs₃, ?_⟩
      rw [hl₃, hl']
      refine Prod.ext ?_ ?_
      · show s.ledger.1 - oneRef ip + -oneLock ip = s.ledger.1 + -(oneRef ip + oneLock ip)
        abel
      · show s.ledger.2 - 0 + -1 = s.ledger.2 + -1
        omega

theorem begin_walk {α β : Type} {d : α → Books} {f : Option (Fin NINODE) → FsM α}
    {rest : α → SysM β} (hf : ∀ cwd, CountsFrom (CwdHeld cwd) d (f cwd))
    (hrest : ∀ a, Settles k (fun _ => -(d a, 1)) (rest a)) :
    AddsFrom Covered (Sys.TidyWith k) Sys.ledger (fun _ => 0) (do
      beginOp sb
      let r ← liftFs (f ((← get).cwd p))
      rest r) := by
  refine ((beginOp_settles sb).from _).bind fun _ => ?_
  refine .of_get fun s hs hK => ?_
  refine .then_adds (walk_returns p hs (Covered.of_begin hK) (hf _)) fun a => ?_
  refine (hrest a).congr fun _ => Prod.ext ?_ ?_
  · show -d a = 0 - 0 - d a
    abel
  · show (-1 : Int) = 0 - 1 - 0
    omega

theorem sysOpen_balanced (path : Option (List UInt8)) (omode : UInt32) :
    AddsFrom Covered (Sys.TidyWith k) Sys.ledger (fun _ => 0) (sysOpen sb p path omode) := by
  unfold sysOpen
  match path with
  | none => exact .pure rfl
  | some path =>
    refine begin_walk sb p (fun cwd => openInode_counts sb cwd path omode) fun r => ?_
    match r with
    | none => exact end_settles sb (-1)
    | some ip =>
      refine .bind_zero .get fun s => ?_
      exact .ite (fun _ => putEnd_settles sb ip (-1))
        fun _ => openLocked_settles sb p ip _ omode

theorem makeNode_balanced (path : Option (List UInt8)) (type major minor : Int16) :
    AddsFrom Covered (Sys.TidyWith k) Sys.ledger (fun _ => 0) (makeNode sb p path type major minor) := by
  unfold makeNode
  match path with
  | none =>
    refine ((beginOp_settles sb).from _).bind fun _ => Adds.from ?_ _
    exact (end_settles sb (-1)).congr fun _ => (zero_sub _).symm
  | some path =>
    refine begin_walk sb p (fun cwd => create_counts sb cwd path type major minor) fun r => ?_
    match r with
    | none => exact end_settles sb (-1)
    | some ip => exact putEnd_settles sb ip 0

theorem sysLink_balanced (old new : Option (List UInt8)) :
    AddsFrom Covered (Sys.TidyWith k) Sys.ledger (fun _ => 0) (sysLink sb p old new) := by
  unfold sysLink
  match old, new with
  | some old, some new =>
    exact begin_walk sb p (fun cwd => link_counts sb cwd old new) fun r => end_settles sb r
  | none, _ => exact .pure rfl
  | some _, none => exact .pure rfl

theorem sysUnlink_balanced (path : Option (List UInt8)) :
    AddsFrom Covered (Sys.TidyWith k) Sys.ledger (fun _ => 0) (sysUnlink sb p path) := by
  unfold sysUnlink
  match path with
  | none => exact .pure rfl
  | some path =>
    exact begin_walk sb p (fun cwd => unlink_counts sb cwd path) fun r => end_settles sb r

theorem setCwd_ledger {o cwd : Option (Fin NINODE)} (h : s.cwd p = o) :
    (s.setCwd p cwd).ledger = s.ledger - (refOf cwd - refOf o, 0) := by
  unfold Sys.ledger
  rw [Sys.held_setCwd, h]
  refine Prod.ext ?_ ?_
  · show s.fs.books - (s.held + (refOf cwd - refOf o)) = s.fs.books - s.held - (refOf cwd - refOf o)
    abel
  · show s.outstanding = s.outstanding - 0
    omega

theorem chdirEnd_settles (ip : Fin NINODE) : Settles k (fun _ => -(oneRef ip, 1)) (do
      liftFs (deref ((← get).cwd p) >>= iput sb)
      endOp sb
      modify fun s => s.setCwd p (some ip)
      pure (0 : Int)) := by
  refine .of_get fun s hs => ?_
  have hput : Counts (fun _ => -refOf (s.cwd p)) (deref (s.cwd p) >>= iput sb) := by
    cases s.cwd p with
    | none => exact .throw
    | some e => exact iput_counts sb e
  refine (liftFs_returns hs (hput s.fs hs.uniq)).bind fun _ s₁ ⟨⟨hs₁, hl₁⟩, hcwd₁⟩ => ?_
  refine (endOp_returns sb hs₁).bind fun _ s₂ ⟨⟨hs₂, hl₂⟩, hcwd₂⟩ => ?_
  refine ⟨⟨⟨hs₂.uniq, hs₂.closed⟩, hs₂.kernel⟩, ?_⟩
  show (s₂.setCwd p (some ip)).ledger = _
  rw [setCwd_ledger p (o := s.cwd p) (by rw [hcwd₂, hcwd₁]), hl₂, hl₁]
  refine Prod.ext ?_ ?_
  · show s.ledger.1 + -refOf (s.cwd p) + 0 - (oneRef ip - refOf (s.cwd p)) = s.ledger.1 + -oneRef ip
    abel
  · show s.ledger.2 + 0 + -1 - 0 = s.ledger.2 + -1
    omega

theorem sysChdir_balanced (path : Option (List UInt8)) :
    AddsFrom Covered (Sys.TidyWith k) Sys.ledger (fun _ => 0) (sysChdir sb p path) := by
  unfold sysChdir
  match path with
  | none =>
    refine ((beginOp_settles sb).from _).bind fun _ => Adds.from ?_ _
    exact (end_settles sb (-1)).congr fun _ => (zero_sub _).symm
  | some path =>
    refine begin_walk sb p (fun cwd => chdirTarget_counts sb cwd path) fun r => ?_
    match r with
    | none => exact end_settles sb (-1)
    | some ip => exact chdirEnd_settles sb p ip

end Functions

/-! ## §4. Sequences of path calls. -/

/-- The system calls on paths, with the process that makes them. -/
inductive PathCall where
  | opens (p : Slot) (path : Option (List UInt8)) (omode : UInt32)
  | mkdir (p : Slot) (path : Option (List UInt8))
  | mknod (p : Slot) (path : Option (List UInt8)) (major minor : Int16)
  | link (p : Slot) (old new : Option (List UInt8))
  | unlink (p : Slot) (path : Option (List UInt8))
  | chdir (p : Slot) (path : Option (List UInt8))

def PathCall.run (sb : Superblock) : PathCall → SysM Int
  | .opens p path omode => sysOpen sb p path omode
  | .mkdir p path => sysMkdir sb p path
  | .mknod p path major minor => sysMknod sb p path major minor
  | .link p old new => sysLink sb p old new
  | .unlink p path => sysUnlink sb p path
  | .chdir p path => sysChdir sb p path

def PathStep (sb : Superblock) (s s' : Sys) : Prop := ∃ (c : PathCall) (r : Int),
  c.run sb s = .ok (r, s')

def File.Owns (file : File) (e : Fin NINODE) : Prop :=
  (file.type = .FD_INODE ∨ file.type = .FD_DEVICE) ∧ file.ip = some e

instance (file : File) (e : Fin NINODE) : Decidable (file.Owns e) :=
  inferInstanceAs (Decidable (_ ∧ _))

namespace Sys

def owners (s : Sys) (e : Fin NINODE) : Int :=
  (Finset.univ.filter fun f => (s.file .ftable f).Owns e).card +
    (Finset.univ.filter fun p => s.cwd p = some e).card

/-- No lock is held, an inode has one entry, every owner is counted, a closed file is FD_NONE. -/
structure Idle (s : Sys) : Prop where
  unlocked : ∀ e, (s.fs.itable e).locked = false
  uniq : ∀ e f, 0 < (s.fs.itable e).ref → 0 < (s.fs.itable f).ref →
    (s.fs.itable e).inum = (s.fs.itable f).inum → e = f
  counted : ∀ e, s.owners e ≤ (s.fs.itable e).ref
  closed : ∀ f, (s.file .ftable f).ref = 0 → (s.file .ftable f).type = .FD_NONE

theorem held_eq_owners (s : Sys) (e : Fin NINODE) : s.held.1 e = s.owners e := by
  have hcwd : ∀ o : Option (Fin NINODE), (refOf o).1 e = if o = some e then 1 else 0 := by
    intro o
    cases o with
    | none => simp [refOf]
    | some f => simp [refOf, oneRef, Pi.single_apply, eq_comm]
  have hfile : ∀ file : File, (fileRef file).1 e = if file.Owns e then 1 else 0 := by
    intro file
    unfold fileRef File.Owns
    by_cases htype : file.type = .FD_INODE ∨ file.type = .FD_DEVICE
    · simp only [htype, hcwd, true_and, if_true]
    · simp [htype]
  rw [held_apply, owners, Finset.card_filter, Finset.card_filter]
  simp only [hfile, hcwd, Nat.cast_sum, Nat.cast_ite, Nat.cast_one, Nat.cast_zero]

theorem Idle.tidy {s : Sys} (h : s.Idle) : s.Tidy := ⟨h.uniq, h.closed⟩

theorem Idle.covered {s : Sys} (h : s.Idle) : Covered s.ledger := by
  intro e
  show 0 ≤ (s.fs.itable e).ref - s.held.1 e
  have hle := h.counted e
  rw [held_eq_owners]
  omega

theorem ledger_eq {s s' : Sys} (h : s'.ledger = s.ledger) :
    (∀ e, (s'.fs.itable e).ref - (s.fs.itable e).ref = s'.owners e - s.owners e) ∧
      (∀ e, (s'.fs.itable e).locked = (s.fs.itable e).locked) ∧
      s'.outstanding = s.outstanding := by
  have hbooks : s'.fs.books - s'.held = s.fs.books - s.held := congrArg Prod.fst h
  refine ⟨fun e => ?_, fun e => ?_, congrArg Prod.snd h⟩
  · have he : (s'.fs.itable e).ref - s'.held.1 e = (s.fs.itable e).ref - s.held.1 e :=
      congrFun (congrArg Prod.fst hbooks) e
    rw [held_eq_owners, held_eq_owners] at he
    omega
  · -- owners hold no locks
    have hzero : ∀ u : Sys, u.held.2 = 0 := by
      intro u
      have hfile : ∀ file : File, (fileRef file).2 = 0 := by
        intro file
        unfold fileRef
        split
        · cases file.ip <;> rfl
        · rfl
      have hcwd : ∀ o : Option (Fin NINODE), (refOf o).2 = 0 := by
        intro o
        cases o <;> rfl
      unfold held
      rw [Prod.snd_add, Prod.snd_sum, Prod.snd_sum]
      simp only [hfile, hcwd, Finset.sum_const_zero, add_zero]
    have he : (if (s'.fs.itable e).locked then (1 : Int) else 0) - s'.held.2 e =
        (if (s.fs.itable e).locked then 1 else 0) - s.held.2 e :=
      congrFun (congrArg Prod.snd hbooks) e
    rw [hzero, hzero, Pi.zero_apply, sub_zero, sub_zero] at he
    cases h1 : (s'.fs.itable e).locked <;> cases h2 : (s.fs.itable e).locked <;>
      simp [h1, h2] at he <;> rfl

end Sys

theorem PathCall.balanced (sb : Superblock) (c : PathCall) :
    AddsFrom Covered (Sys.TidyWith k) Sys.ledger (fun _ => 0) (c.run sb) := by
  cases c with
  | opens p path omode => exact sysOpen_balanced sb p path omode
  | mkdir p path | mknod p path major minor => exact makeNode_balanced sb p path _ _ _
  | link p old new => exact sysLink_balanced sb p old new
  | unlink p path => exact sysUnlink_balanced sb p path
  | chdir p path => exact sysChdir_balanced sb p path

theorem idle_of_balanced {s s' : Sys} {r : α}
    (hm : AddsFrom Covered (Sys.TidyWith s.kfiles) Sys.ledger (fun _ => 0) m) (hs : s.Idle)
    (hr : m s = .ok (r, s')) : s'.Idle ∧ s'.ledger = s.ledger := by
  obtain ⟨htidy, hl⟩ := wp_ok (hm s ⟨hs.tidy, rfl⟩ hs.covered) hr
  have hl' : s'.ledger = s.ledger := by
    rw [hl]
    exact add_zero _
  obtain ⟨href, hlock, _⟩ := Sys.ledger_eq hl'
  refine ⟨⟨fun e => ?_, htidy.uniq, fun e => ?_, htidy.closed⟩, hl'⟩
  · rw [hlock e]
    exact hs.unlocked e
  · have h1 := href e
    have h2 := hs.counted e
    omega

theorem reachable_idle {sb : Superblock} {s : Sys} (h : Reachable Sys.Idle (PathStep sb) s) :
    s.Idle := by
  refine Reachable.invariant Sys.Idle (fun _ h => h) (fun s s' hs hstep => ?_) h
  obtain ⟨c, r, hc⟩ := hstep
  exact (idle_of_balanced (c.balanced sb) hs hc).1

/-- **Path calls are balanced.** Whatever the disk holds and however the calls return: all sleep
locks are released, the transaction is closed, the counts change exactly as the references that open
files and working directories own, and an inode has at most one entry in use. -/
theorem path_calls_balanced (sb : Superblock) {s s' : Sys} {c : PathCall} {r : Int}
    (hs : Reachable Sys.Idle (PathStep sb) s) (hc : c.run sb s = .ok (r, s')) :
    (∀ e, (s'.fs.itable e).locked = false) ∧ s'.outstanding = s.outstanding ∧
      (∀ e, (s'.fs.itable e).ref - (s.fs.itable e).ref = s'.owners e - s.owners e) ∧
      (∑ e, (s'.fs.itable e).ref - ∑ e, (s.fs.itable e).ref =
        ∑ e, s'.owners e - ∑ e, s.owners e) ∧
      (∀ e f, 0 < (s'.fs.itable e).ref → 0 < (s'.fs.itable f).ref →
        (s'.fs.itable e).inum = (s'.fs.itable f).inum → e = f) := by
  obtain ⟨hidle, hl⟩ := idle_of_balanced (c.balanced sb) (reachable_idle hs) hc
  obtain ⟨href, _, hout⟩ := Sys.ledger_eq hl
  refine ⟨hidle.unlocked, hout, href, ?_, hidle.uniq⟩
  rw [← Finset.sum_sub_distrib, ← Finset.sum_sub_distrib]
  exact Finset.sum_congr rfl fun e _ => href e

def returned {α : Type} (m : SysM α) (s : Sys) (test : α → Sys → Bool) : Bool :=
  match m s with
  | .ok r => test r.1 r.2
  | .error _ => false

theorem exists_of_returned {s : Sys} {test : α → Sys → Bool}
    (h : returned m s test = true) : ∃ r s', m s = .ok (r, s') ∧ test r s' = true := by
  unfold returned at h
  split at h
  · next r hr => exact ⟨r.1, r.2, hr, h⟩
  · cases h

theorem smallBoot_idle : smallBoot.Idle := by
  constructor <;> decide +kernel

/-- Making a directory on the small disk. -/
theorem path_calls_balanced_mkdir : ∃ s',
    (PathCall.mkdir 0 (some [47, 97])).run smallSb smallBoot = .ok (0, s') ∧
      ∑ e, (s'.fs.itable e).ref - ∑ e, (smallBoot.fs.itable e).ref =
        ∑ e, s'.owners e - ∑ e, smallBoot.owners e := by
  have hrun : returned ((PathCall.mkdir 0 (some [47, 97])).run smallSb) smallBoot
      (fun r _ => r == 0) = true := by decide +kernel
  obtain ⟨r, s', hr, htest⟩ := exists_of_returned hrun
  have hzero : r = 0 := by simpa using htest
  subst hzero
  exact ⟨s', hr, (path_calls_balanced smallSb (Reachable.start smallBoot_idle) hr).2.2.2.1⟩

end Xv6.Fs
