/-
  Xv6.Fs.FileCalls — the file operations of all system calls.
-/
import Xv6.Fs.Balance

namespace Xv6.Fs

open Lib Lib.Comp

variable {k : Fin NFILE → File}

/-! ## §1. Reading and writing. -/

def lockOf : Option (Fin NINODE) → Books
  | none => 0
  | some e => oneLock e

section Functions

variable (sb : Superblock) (p : Slot) (f : Fin NFILE)

theorem locked_counts {α : Type} {m : Fin NINODE → FsM α} (ip : Option (Fin NINODE))
    (hm : ∀ e, Silent (m e)) : Counts (fun _ => lockOf ip) (do
      let e ← deref ip
      ilock sb e
      m e) := by
  cases ip with
  | none => exact .throw
  | some e =>
    have hlocked : Counts (fun _ => oneLock e) (ilock sb e >>= fun _ => m e) := by
      refine (ilock_counts sb e).bind fun _ => ?_
      exact (hm e).congr fun _ => (sub_self (oneLock e)).symm
    exact hlocked

theorem unlock_counts (ip : Option (Fin NINODE)) :
    Counts (fun _ => -lockOf ip) (deref ip >>= iunlock) := by
  cases ip with
  | none => exact .throw
  | some e => exact iunlock_counts e

theorem modifyOff_settles (g : File → UInt32) :
    Settles k (fun _ => 0) (modifyFile .ftable f fun file => { file with off := g file }) :=
  fun _ hs => modifyFile_same hs (fun href => hs.closed f href) rfl

theorem fileread_settles (n : Int32) (ok : Nat → Nat → Bool) (other : Int) :
    Settles k (fun _ => 0) (fileread sb f n ok other) := by
  unfold fileread
  refine .bind_zero .get fun s => .ite (fun _ => .pure rfl) fun _ => ?_
  split
  · exact .throw
  · exact .pure rfl
  · exact .pure rfl
  · refine (liftFs_settles (locked_counts sb _ fun e => readi_silent sb e _ _ ok)).bind fun r => ?_
    refine .bind_zero (modifyOff_settles f _) fun _ => ?_
    refine (liftFs_settles (unlock_counts _)).bind fun _ => .pure ?_
    refine Prod.ext ?_ rfl
    show (0 : Books) - lockOf _ - -lockOf _ = 0
    abel

section

variable (src : Nat → Option UInt8)

theorem writeChunk_settles (i n1 : Nat) : Settles k (fun _ => 0) (writeChunk sb f src i n1) := by
  unfold writeChunk
  refine (beginOp_settles sb).bind fun _ => .bind_zero .get fun s => ?_
  refine (liftFs_settles (locked_counts sb _ fun e => writei_silent sb e _ _ _)).bind fun r => ?_
  refine .bind_zero (.guarded (modifyOff_settles f _)) fun _ => ?_
  refine (liftFs_settles (unlock_counts _)).bind fun _ => ?_
  refine (endOp_settles sb).bind fun _ => .pure ?_
  refine Prod.ext ?_ ?_
  · show (0 : Books) - 0 - lockOf _ - -lockOf _ - 0 = 0
    abel
  · show (0 : Int) - 1 - 0 - 0 - -1 = 0
    omega

theorem writeLoop_settles (n fuel i : Nat) :
    Settles k (fun _ => 0) (writeLoop sb f src n fuel i) := by
  induction fuel generalizing i with
  | zero => exact .pure rfl
  | succ fuel ih =>
    unfold writeLoop
    refine .ite (fun _ => ?_) fun _ => .pure rfl
    refine .bind_zero (writeChunk_settles sb f src _ _) fun r => ?_
    exact .ite (fun _ => .pure rfl) fun _ => ih _

theorem filewrite_settles (n : Int32) (other : Int) :
    Settles k (fun _ => 0) (filewrite sb f src n other) := by
  unfold filewrite
  refine .bind_zero .get fun s => .ite (fun _ => .pure rfl) fun _ => ?_
  split
  · exact .throw
  · exact .pure rfl
  · exact .pure rfl
  · exact .bind_zero (writeLoop_settles sb f src _ _ _) fun _ => .pure rfl

end

theorem filestat_settles (ok : Bool) : Settles k (fun _ => 0) (filestat sb f ok) := by
  unfold filestat
  refine .bind_zero .get fun s => .ite (fun _ => ?_) fun _ => .pure rfl
  refine .bind_zero ?_ fun _ => .pure rfl
  refine liftFs_settles (d := fun _ => 0) ?_
  cases (s.file .ftable f).ip with
  | none => exact .throw
  | some e =>
    have hpair : Silent (ilock sb e >>= fun _ => iunlock e) := by
      refine (ilock_counts sb e).bind fun _ => ?_
      exact (iunlock_counts e).congr fun _ => (zero_sub _).symm
    exact hpair

/-! ## §2. Descriptors. -/

theorem argfd_settles (fd : Int) : Settles k (fun _ => 0) (argfd p fd) := by
  unfold argfd
  refine .bind_zero .get fun s => ?_
  split
  · exact .pure rfl
  · exact .pure rfl

theorem onFile_settles (fd : Int) {op : Fin NFILE → SysM Int} (hop : ∀ f, Settles k (fun _ => 0) (op f)) :
    Settles k (fun _ => 0) (onFile p fd op) := by
  unfold onFile
  refine .bind_zero (argfd_settles p fd) fun r => ?_
  match r with
  | none => exact .pure rfl
  | some (_, f) => exact hop f

theorem sysClose_settles (fd : Int) : Settles k (fun _ => 0) (sysClose sb p fd) := by
  unfold sysClose
  refine .bind_zero (argfd_settles p fd) fun r => ?_
  match r with
  | none => exact .pure rfl
  | some (i, f) =>
    refine .bind_zero (setOfile_settles p) fun _ => ?_
    exact .bind_zero (fileclose_settles sb f) fun _ => .pure rfl

theorem filedup_settles : Settles k (fun _ => 0) (filedup f) := by
  unfold filedup
  refine .of_get fun s hs => ?_
  split
  · exact trivial
  · next href =>
    refine modifyFile_same hs (fun h => ?_) rfl
    have h0 : (s.file .ftable f).ref + 1 = 0 := h
    omega

theorem sysDup_settles (fd : Int) : Settles k (fun _ => 0) (sysDup p fd) := by
  unfold sysDup
  refine .bind_zero (argfd_settles p fd) fun r => ?_
  match r with
  | none => exact .pure rfl
  | some (i, f) =>
    refine .bind_zero (fun s hs => Returns.mono (fdalloc_returns p hs f) fun _ _ h => h.1)
      fun r => ?_
    match r with
    | none => exact .pure rfl
    | some fd => exact .bind_zero (filedup_settles f) fun _ => .pure rfl

/-! ## §3. fork, exit and exec. -/

theorem forkFiles_settles (np : Slot) (l : List (Fin NOFILE)) :
    Settles k (fun _ => 0) (forkFiles p np l) := by
  induction l with
  | nil => exact .pure rfl
  | cons fd l ih =>
    unfold forkFiles
    refine .bind_zero .get fun s => ?_
    split
    · exact ih
    · refine .bind_zero (filedup_settles _) fun _ => ?_
      exact .bind_zero (setOfile_settles np) fun _ => ih

theorem closeAll_settles (l : List (Fin NOFILE)) : Settles k (fun _ => 0) (closeAll sb p l) := by
  induction l with
  | nil => exact .pure rfl
  | cons fd l ih =>
    unfold closeAll
    refine .bind_zero .get fun s => ?_
    split
    · exact ih
    · refine .bind_zero (fileclose_settles sb _) fun _ => ?_
      exact .bind_zero (setOfile_settles p) fun _ => ih

theorem forkFiles_keeps_cwd (np : Slot) (l : List (Fin NOFILE)) :
    Keeps Sys.cwd (forkFiles p np l) := by
  induction l with
  | nil => exact .pure
  | cons fd l ih =>
    unfold forkFiles
    refine Keeps.get.bind fun s => ?_
    split
    · exact ih
    · refine .bind ?_ fun _ => .bind (.modify fun _ => rfl) fun _ => ih
      unfold filedup
      refine Keeps.get.bind fun s => Keeps.ite Keeps.throw ?_
      exact Keeps.modify fun _ => rfl

theorem fork_settles {s : Sys} {np : Slot} (hs : s.TidyWith k) (hK : Covered s.ledger)
    (hnp : s.cwd np = none) :
    Returns (fun _ s' => s'.TidyWith k ∧ s'.ledger = s.ledger + 0) (fork p np) s := by
  unfold fork
  refine .bind (wp_and (forkFiles_settles p np _ s hs) (forkFiles_keeps_cwd p np _ s))
    fun _ s₁ ⟨⟨hs₁, hl₁⟩, hcwd₁⟩ => ?_
  rw [add_zero] at hl₁
  unfold Returns
  rw [wp_bind, wp_get]
  have hdup : CountsFrom (CwdHeld (s₁.cwd p)) oneRef (deref (s₁.cwd p) >>= idup) := by
    cases s₁.cwd p with
    | none => exact fun _ _ _ => trivial
    | some e => exact fun v hv hK' => idup_counts e v hv (hK' e rfl)
  rw [← hl₁] at hK
  refine (liftFs_returns hs₁ (hdup s₁.fs hs₁.uniq (cwdHeld_of_covered p hK))).bind
    fun e s₂ ⟨⟨hs₂, hl₂⟩, hcwd₂⟩ => ?_
  refine ⟨⟨⟨hs₂.uniq, hs₂.closed⟩, hs₂.kernel⟩, ?_⟩
  show (s₂.setCwd np (some e)).ledger = _
  rw [setCwd_ledger np (o := none) (by rw [hcwd₂, hcwd₁, hnp]), hl₂, hl₁]
  refine Prod.ext ?_ ?_
  · show s.ledger.1 + oneRef e - (oneRef e - 0) = s.ledger.1 + 0
    abel
  · show s.ledger.2 + 0 - 0 = s.ledger.2 + 0
    omega

theorem putInode_keeps_cwd (ip : Option (Fin NINODE)) : Keeps Sys.cwd (putInode sb ip) := by
  unfold putInode
  refine .bind (fun s => .mono (beginOp_run sb s) fun _ s' h => ?_) fun _ => ?_
  · rw [h]
    rfl
  · refine .bind (fun s => .mono (liftFs_run _ s) fun _ s' ⟨fs, _, h⟩ => ?_)
      fun _ s => .mono (endOp_run sb s) fun _ s' ⟨lh, h, _⟩ => ?_
    · rw [h]
      rfl
    · rw [h]
      rfl

theorem exit_settles : Settles k (fun _ => 0) (exit sb p) := by
  unfold exit
  refine .bind_zero (closeAll_settles sb p _) fun _ => .of_get fun s hs => ?_
  refine .bind (wp_and (putInode_settles sb (s.cwd p) s hs)
    (putInode_keeps_cwd sb (s.cwd p) s)) fun _ s' ⟨⟨hs', hl⟩, hcwd⟩ => ?_
  refine ⟨⟨⟨hs'.uniq, hs'.closed⟩, hs'.kernel⟩, ?_⟩
  show (s'.setCwd p none).ledger = _
  rw [setCwd_ledger p (congrFun hcwd p), hl]
  refine Prod.ext ?_ ?_
  · show s.ledger.1 + -refOf (s.cwd p) - (0 - refOf (s.cwd p)) = s.ledger.1 + 0
    abel
  · show s.ledger.2 + 0 - 0 = s.ledger.2 + 0
    omega

theorem execReads_silent (e : Fin NINODE) (reads : List (UInt32 × UInt32)) :
    Silent (execReads sb e reads) := by
  induction reads with
  | nil => exact .pure rfl
  | cons r l ih =>
    unfold execReads
    refine .bind_zero (readi_silent sb e _ _ _) fun b => ?_
    match b with
    | none => exact .pure rfl
    | some b => exact .ite (fun _ => ih) fun _ => .pure rfl

theorem execFile_settles (path : List UInt8) (reads : List (UInt32 × UInt32)) :
    AddsFrom Covered (Sys.TidyWith k) Sys.ledger (fun _ => 0) (execFile sb p path reads) := by
  unfold execFile
  refine begin_walk sb p (fun cwd => namei_counts sb cwd path) fun r => ?_
  match r with
  | none => exact end_settles sb false
  | some ip =>
    have hread : Counts (fun _ => -oneRef ip) (do
        ilock sb ip
        let r ← execReads sb ip reads
        iunlockput sb ip
        pure r) := by
      refine (ilock_counts sb ip).bind fun _ => ?_
      refine .bind_zero (execReads_silent sb ip reads) fun r => ?_
      refine (iunlockput_counts sb ip).bind fun _ => .pure ?_
      show -oneRef ip - oneLock ip - (-oneRef ip - oneLock ip) = 0
      abel
    refine (liftFs_settles hread).bind fun r => ?_
    refine (end_settles sb r).congr fun _ => Prod.ext ?_ rfl
    show (-0 : Books) = -oneRef ip - -oneRef ip
    abel

end Functions

/-! ## §4. All calls. -/

inductive FileCall where
  | path (c : PathCall)
  | read (p : Slot) (fd : Int) (n : Int32) (ok : Nat → Nat → Bool) (other : Int)
  | write (p : Slot) (fd : Int) (src : Nat → Option UInt8) (n : Int32) (other : Int)
  | fstat (p : Slot) (fd : Int) (ok : Bool)
  | close (p : Slot) (fd : Int)
  | dup (p : Slot) (fd : Int)
  | fork (p np : Slot)
  | exit (p : Slot)
  | exec (p : Slot) (file : List UInt8) (reads : List (UInt32 × UInt32))

def FileCall.run (sb : Superblock) : FileCall → SysM Unit
  | .path c => c.run sb >>= fun _ => pure ()
  | .read p fd n ok other => sysRead sb p fd n ok other >>= fun _ => pure ()
  | .write p fd src n other => sysWrite sb p fd src n other >>= fun _ => pure ()
  | .fstat p fd ok => sysFstat sb p fd ok >>= fun _ => pure ()
  | .close p fd => sysClose sb p fd >>= fun _ => pure ()
  | .dup p fd => sysDup p fd >>= fun _ => pure ()
  | .fork p np => Fs.fork p np
  | .exit p => Fs.exit sb p
  | .exec p file reads => execFile sb p file reads >>= fun _ => pure ()

/-- The slot that allocproc finds for fork has never been used, or its process
has gone through exit. -/
def FileCall.Allowed (s : Sys) : FileCall → Prop
  | .fork _ np => s.cwd np = none
  | _ => True

/-- **Every call leaves the ledger and the kernel files alone.** -/
theorem FileCall.settles (sb : Superblock) (c : FileCall) {s : Sys} (hs : s.TidyWith k)
    (hK : Covered s.ledger) (hc : c.Allowed s) :
    Returns (fun _ s' => s'.TidyWith k ∧ s'.ledger = s.ledger + 0) (c.run sb) s := by
  have hdrop : ∀ {α : Type} {m : SysM α},
      AddsFrom Covered (Sys.TidyWith k) Sys.ledger (fun _ => 0) m →
      Returns (fun _ s' => s'.TidyWith k ∧ s'.ledger = s.ledger + 0) (m >>= fun _ => pure ()) s :=
    fun hm => .bind (hm s hs hK) fun _ _ h => h
  cases c with
  | path c => exact hdrop (c.balanced sb)
  | read p fd n ok other =>
    exact hdrop ((onFile_settles p fd fun f => fileread_settles sb f n ok other).from _)
  | write p fd src n other =>
    exact hdrop ((onFile_settles p fd fun f => filewrite_settles sb f src n other).from _)
  | fstat p fd ok =>
    exact hdrop ((onFile_settles p fd fun f => filestat_settles sb f ok).from _)
  | close p fd => exact hdrop ((sysClose_settles sb p fd).from _)
  | dup p fd => exact hdrop ((sysDup_settles p fd).from _)
  | fork p np => exact fork_settles p hs hK hc
  | exit p => exact exit_settles sb p s hs
  | exec p file reads => exact hdrop (execFile_settles sb p file reads)

end Xv6.Fs
