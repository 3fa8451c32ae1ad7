/-
  Xv6.Fs.Books — references and sleep locks of in-memory inodes.

  `Counts` says what a function adds to the reference counts and locks when it returns:
  `oneRef e` for a pointer to `e` that it hands out, `oneLock e` for a lock it leaves behind.
-/
import Xv6.Fs.Directory
import Xv6.Lib.Ledger

namespace Xv6.Fs

open Lib Lib.Comp State

/-! ## §1. The books. -/

abbrev Books := (Fin NINODE → Int) × (Fin NINODE → Int)

def oneRef (e : Fin NINODE) : Books := (Pi.single e 1, 0)

def oneLock (e : Fin NINODE) : Books := (0, Pi.single e 1)

def refOf : Option (Fin NINODE) → Books
  | some e => oneRef e
  | none => 0

def heldOf : Option (Fin NINODE) → Books
  | some e => oneRef e + oneLock e
  | none => 0

namespace State

def books (s : State) : Books :=
  (fun e => (s.itable e).ref, fun e => if (s.itable e).locked then 1 else 0)

/-- At most one entry in use per inode. -/
def Uniq (s : State) : Prop :=
  ∀ e f, 0 < (s.itable e).ref → 0 < (s.itable f).ref → (s.itable e).inum = (s.itable f).inum →
    e = f

/-- Number, references and lock of an entry are as before. -/
def SameEntry (ip ip' : Inode) : Prop :=
  ip'.inum = ip.inum ∧ ip'.ref = ip.ref ∧ ip'.locked = ip.locked

variable {s s' : State}

theorem books_congr (h : ∀ e, SameEntry (s.itable e) (s'.itable e)) : s'.books = s.books := by
  unfold books
  refine Prod.ext (funext fun e => (h e).2.1) (funext fun e => ?_)
  show (if (s'.itable e).locked then (1 : Int) else 0) = if (s.itable e).locked then 1 else 0
  rw [(h e).2.2]

theorem Uniq.congr (hu : s.Uniq) (h : ∀ e, SameEntry (s.itable e) (s'.itable e)) : s'.Uniq := by
  intro e f he hf hef
  rw [(h e).2.1] at he
  rw [(h f).2.1] at hf
  rw [(h e).1, (h f).1] at hef
  exact hu e f he hf hef

theorem books_setInode (e : Fin NINODE) (ip : Inode) : (s.setInode e ip).books = s.books +
      (Pi.single e (ip.ref - (s.itable e).ref),
        Pi.single e ((if ip.locked then 1 else 0) - if (s.itable e).locked then 1 else 0)) := by
  refine Prod.ext (funext fun f => ?_) (funext fun f => ?_)
  · show ((s.setInode e ip).itable f).ref = (s.itable f).ref + Pi.single (M := fun _ => Int) e _ f
    rw [setInode_itable]
    by_cases hfe : f = e
    · subst hfe
      simp
    · simp [hfe]
  · show (if ((s.setInode e ip).itable f).locked then (1 : Int) else 0) =
      (if (s.itable f).locked then 1 else 0) + Pi.single (M := fun _ => Int) e _ f
    rw [setInode_itable]
    by_cases hfe : f = e
    · subst hfe
      simp
    · simp [hfe]

theorem Uniq.setInode (hu : s.Uniq) {e : Fin NINODE} {ip : Inode}
    (h : 0 < ip.ref → ∀ f, f ≠ e → 0 < (s.itable f).ref → (s.itable f).inum ≠ ip.inum) :
    (s.setInode e ip).Uniq := by
  intro a b ha hb hab
  rw [setInode_itable] at ha hb
  rw [setInode_itable, setInode_itable] at hab
  by_cases hae : a = e
  · by_cases hbe : b = e
    · rw [hae, hbe]
    · rw [if_pos hae] at ha hab
      rw [if_neg hbe] at hb hab
      exact absurd hab.symm (h ha b hbe hb)
  · by_cases hbe : b = e
    · rw [if_neg hae] at ha hab
      rw [if_pos hbe] at hb hab
      exact absurd hab (h hb a hae ha)
    · rw [if_neg hae] at ha hab
      rw [if_neg hbe] at hb hab
      exact hu a b ha hb hab

theorem Uniq.other (hu : s.Uniq) {e f : Fin NINODE} (he : 0 < (s.itable e).ref) (hf : f ≠ e)
    (hfr : 0 < (s.itable f).ref) : (s.itable f).inum ≠ (s.itable e).inum :=
  fun heq => hf (hu f e hfr he heq)

end State

abbrev Counts {α : Type} (d : α → Books) (m : FsM α) : Prop := Adds State.Uniq State.books d m

abbrev CountsFrom {α : Type} (K : Books → Prop) (d : α → Books) (m : FsM α) : Prop :=
  AddsFrom K State.Uniq State.books d m

abbrev Silent {α : Type} (m : FsM α) : Prop := Counts (fun _ => 0) m

/-! ## §2. What the functions on blocks leave alone.

An observation of the state is inert if it sees neither the disk, nor the
log, nor which blocks an inode maps.  Everything up to the loops of readi
and writei keeps every such observation. -/

structure Inert {τ : Type} (ν : State → τ) : Prop where
  setDisk : ∀ s disk, ν (s.setDisk disk) = ν s
  lh : ∀ (s : State) l, ν { s with lh := l } = ν s
  log : ∀ s ev, ν (s.log ev) = ν s
  addrs : ∀ s e a,
    ν (s.setInode e { s.itable e with copy := { (s.itable e).copy with addrs := a } }) = ν s

theorem Inert.logWrite {τ : Type} {ν : State → τ} (hν : Inert ν) (s : State) (b : Nat) :
    ν (s.logWrite b) = ν s := by
  unfold State.logWrite
  split
  · rfl
  · exact hν.lh s _

section Inert

variable {τ : Type} {ν : State → τ} (hν : Inert ν) (sb : Superblock) (e : Fin NINODE)

include hν

theorem bzero_keeps (b : Nat) : Keeps ν (bzero b) := by
  unfold bzero
  refine .modify fun s => ?_
  rw [hν.logWrite, hν.setDisk]

theorem balloc_keeps (who : Nat) : Keeps ν (balloc sb who) := by
  unfold balloc
  refine Keeps.get.bind fun s => ?_
  split
  · exact .pure
  · refine (Keeps.modify fun s => ?_).bind fun _ => ?_
    · rw [hν.log, hν.logWrite, hν.setDisk]
    · exact (bzero_keeps hν _).bind fun _ => .pure

theorem bfree_keeps (b : Nat) : Keeps ν (bfree sb b) := by
  unfold bfree
  refine Keeps.get.bind fun s => ?_
  refine Keeps.ite Keeps.throw (Keeps.modify fun s => ?_)
  rw [hν.log, hν.logWrite, hν.setDisk]

theorem iupdate_keeps : Keeps ν (iupdate sb e) := by
  unfold iupdate
  refine .modify fun s => ?_
  rw [hν.logWrite, hν.setDisk]

theorem addrAlloc_keeps (i : Fin 13) : Keeps ν (addrAlloc sb e i) := by
  unfold addrAlloc
  refine Keeps.get.bind fun s => ?_
  refine Keeps.ite Keeps.pure ?_
  refine (balloc_keeps hν sb _).bind fun b => ?_
  refine .ite .pure ?_
  exact (Keeps.modify fun s => hν.addrs s e _).bind fun _ => Keeps.pure

theorem entryAlloc_keeps (addr : UInt32) (j : Nat) : Keeps ν (entryAlloc sb e addr j) := by
  unfold entryAlloc
  refine Keeps.get.bind fun s => ?_
  refine Keeps.ite Keeps.pure ?_
  refine (balloc_keeps hν sb _).bind fun b => ?_
  refine .ite .pure ?_
  refine (Keeps.modify fun s => ?_).bind fun _ => Keeps.pure
  rw [hν.logWrite, hν.setDisk]

theorem bmap_keeps (bn : Nat) : Keeps ν (bmap sb e bn) := by
  unfold bmap
  refine .ite (addrAlloc_keeps hν sb e _) (.ite ?_ .throw)
  refine (addrAlloc_keeps hν sb e _).bind fun addr => ?_
  exact .ite .pure (entryAlloc_keeps hν sb e _ _)

theorem itruncDirect_keeps (l : List (Fin 13)) : Keeps ν (itruncDirect sb e l) := by
  induction l with
  | nil => exact .pure
  | cons i l ih =>
    unfold itruncDirect
    refine Keeps.get.bind fun s => ?_
    refine Keeps.ite ?_ ih
    refine (bfree_keeps hν sb _).bind fun _ => ?_
    exact (Keeps.modify fun s => hν.addrs s e _).bind fun _ => ih

theorem itruncEntries_keeps (a : Bytes) (l : List Nat) : Keeps ν (itruncEntries sb a l) := by
  induction l with
  | nil => exact .pure
  | cons j l ih =>
    unfold itruncEntries
    exact .ite ((bfree_keeps hν sb _).bind fun _ => ih) ih

theorem itruncIndirect_keeps : Keeps ν (itruncIndirect sb e) := by
  unfold itruncIndirect
  refine Keeps.get.bind fun s => ?_
  refine Keeps.ite ?_ Keeps.pure
  refine (itruncEntries_keeps hν sb _ _).bind fun _ => ?_
  refine (bfree_keeps hν sb _).bind fun _ => ?_
  exact .modify fun s => hν.addrs s e _

theorem readiLoop_keeps (n : Nat) (ok : Nat → Nat → Bool) (fuel tot off : Nat)
    (acc : List UInt8) : Keeps ν (readiLoop sb e n ok fuel tot off acc) := by
  induction fuel generalizing tot off acc with
  | zero => exact .pure
  | succ fuel ih =>
    unfold readiLoop
    refine .ite ?_ .pure
    refine (bmap_keeps hν sb e _).bind fun addr => ?_
    refine .ite .pure ?_
    refine Keeps.get.bind fun s => ?_
    exact Keeps.ite (ih _ _ _) Keeps.pure

theorem readi_keeps (off n : UInt32) (ok : Nat → Nat → Bool) : Keeps ν (readi sb e off n ok) := by
  unfold readi
  refine Keeps.get.bind fun s => ?_
  exact Keeps.ite Keeps.pure (readiLoop_keeps hν sb e _ _ _ _ _ _)

theorem writeiLoop_keeps (src : Nat → Option UInt8) (n fuel tot off : Nat) :
    Keeps ν (writeiLoop sb e src n fuel tot off) := by
  induction fuel generalizing tot off with
  | zero => exact .pure
  | succ fuel ih =>
    unfold writeiLoop
    refine .ite ?_ .pure
    refine (bmap_keeps hν sb e _).bind fun addr => ?_
    refine .ite .pure ?_
    refine (Keeps.modify fun s => hν.setDisk s _).bind fun _ => ?_
    refine Keeps.ite ?_ Keeps.pure
    exact (Keeps.modify fun s => hν.logWrite s _).bind fun _ => ih _ _

end Inert

/-! ## §3. Blocks and inodes: nothing is counted. -/

def State.entries (s : State) : Fin NINODE → Nat × Int × Bool := fun e =>
  ((s.itable e).inum, (s.itable e).ref, (s.itable e).locked)

theorem State.sameEntry_of_entries {s s' : State} (h : s'.entries = s.entries) (e : Fin NINODE) :
    State.SameEntry (s.itable e) (s'.itable e) := by
  have he := congrFun h e
  exact ⟨congrArg Prod.fst he, congrArg (fun x => x.2.1) he, congrArg (fun x => x.2.2) he⟩

theorem State.entries_setInode {s : State} {e : Fin NINODE} {ip : Inode}
    (h : State.SameEntry (s.itable e) ip) : (s.setInode e ip).entries = s.entries := by
  funext f
  unfold State.entries
  rw [setInode_itable]
  split
  · next hf => rw [hf, h.1, h.2.1, h.2.2]
  · rfl

theorem entries_inert : Inert State.entries where
  setDisk _ _ := rfl
  lh _ _ := rfl
  log _ _ := rfl
  addrs _ _ _ := entries_setInode ⟨rfl, rfl, rfl⟩

theorem Silent.of_keeps {α : Type} {m : FsM α} (h : Keeps State.entries m) : Silent m := by
  intro s hs
  refine Returns.mono (h s) fun a s' hs' => ?_
  have hsame := sameEntry_of_entries hs'
  refine ⟨hs.congr hsame, ?_⟩
  rw [books_congr hsame, add_zero]

theorem silent_modifyInode {e : Fin NINODE} {g : Inode → Inode}
    (h : ∀ ip, State.SameEntry ip (g ip)) : Silent (modifyInode e g) :=
  .of_keeps (.modify fun _ => entries_setInode (h _))

section Functions

variable (sb : Superblock) (e dp ip : Fin NINODE)

theorem iupdate_silent : Silent (iupdate sb e) := Silent.of_keeps (iupdate_keeps entries_inert sb e)

theorem itrunc_silent : Silent (itrunc sb e) := by
  unfold itrunc
  refine .bind_zero (Silent.of_keeps (itruncDirect_keeps entries_inert sb e _)) fun _ => ?_
  refine .bind_zero (Silent.of_keeps (itruncIndirect_keeps entries_inert sb e)) fun _ => ?_
  refine .bind_zero (silent_modifyInode fun _ => ⟨rfl, rfl, rfl⟩) fun _ => ?_
  exact iupdate_silent sb e

theorem readi_silent (off n : UInt32) (ok : Nat → Nat → Bool) : Silent (readi sb e off n ok) :=
  .of_keeps (readi_keeps entries_inert sb e off n ok)

theorem writei_entries (src : Nat → Option UInt8) (off n : UInt32) :
    Keeps State.entries (writei sb e src off n) := by
  unfold writei
  refine Keeps.get.bind fun s => Keeps.ite Keeps.pure (Keeps.ite Keeps.pure ?_)
  refine (writeiLoop_keeps entries_inert sb e _ _ _ _ _).bind fun r => ?_
  refine .bind ?_ fun _ => .pure
  unfold writeiEnd
  refine .bind (.modify fun s => entries_setInode ?_) fun _ =>
    iupdate_keeps entries_inert sb e
  dsimp only
  split <;> exact ⟨rfl, rfl, rfl⟩

theorem writei_silent (src : Nat → Option UInt8) (off n : UInt32) :
    Silent (writei sb e src off n) := .of_keeps (writei_entries sb e src off n)

/-! ## §4. References and locks. -/

variable {itable : Fin NINODE → Inode}

theorem findInode_eq_some {inum : Nat} {e : Fin NINODE}
    (h : findInode itable inum = some e) : 0 < (itable e).ref ∧ (itable e).inum = inum := by
  have hp := List.find?_some h
  exact of_decide_eq_true hp

theorem findInode_eq_none {inum : Nat}
    (h : findInode itable inum = none) (e : Fin NINODE) (he : 0 < (itable e).ref) :
    (itable e).inum ≠ inum := by
  intro heq
  have hp := List.find?_eq_none.mp h e (List.mem_finRange e)
  exact hp (decide_eq_true ⟨he, heq⟩)

theorem emptyInode_eq_some {e : Fin NINODE}
    (h : emptyInode itable = some e) : (itable e).ref = 0 := by
  have hp := List.find?_some h
  exact of_decide_eq_true hp

theorem books_incr {s : State} (hs : s.Uniq) (he : 0 < (s.itable e).ref) :
    (s.setInode e { s.itable e with ref := (s.itable e).ref + 1 }).Uniq ∧
      (s.setInode e { s.itable e with ref := (s.itable e).ref + 1 }).books =
        s.books + oneRef e := by
  refine ⟨hs.setInode fun _ f hf hfr => hs.other he hf hfr, ?_⟩
  rw [books_setInode]
  simp [oneRef]

theorem iget_counts (inum : Nat) : Counts oneRef (iget inum) := by
  unfold iget
  refine .of_get fun s hs => ?_
  split
  · next e hfind => exact books_incr e hs (findInode_eq_some hfind).1
  · next hnone =>
    split
    · exact trivial
    · next e hempty =>
      have href := emptyInode_eq_some hempty
      refine ⟨hs.setInode fun _ f _ hfr => findInode_eq_none hnone f hfr, ?_⟩
      show (s.setInode e _).books = _
      rw [books_setInode]
      simp [href, oneRef]

theorem idup_counts : CountsFrom (fun g => 0 < g.1 e) (fun _ => oneRef e) (idup e) := by
  unfold idup
  intro s hs he
  exact books_incr e hs he

theorem acquiresleep_counts : Counts (fun _ => oneLock e) (acquiresleep e) := by
  unfold acquiresleep
  refine .of_get fun s hs => ?_
  split
  · exact trivial
  · next hl =>
    refine ⟨?_, ?_⟩
    · exact hs.setInode fun he f hf hfr => hs.other he hf hfr
    · show (s.setInode e _).books = _
      rw [books_setInode]
      simp [hl, oneLock]

theorem State.locked_of_books {s : State} (h : 0 < s.books.2 e) : (s.itable e).locked = true := by
  by_contra hl
  have hzero : s.books.2 e = 0 := if_neg hl
  omega

theorem State.books_lock_nonneg (s : State) : 0 ≤ s.books.2 e := by
  show (0 : Int) ≤ if (s.itable e).locked then 1 else 0
  split <;> omega

theorem releasesleep_counts :
    CountsFrom (fun g => 0 < g.2 e) (fun _ => -oneLock e) (releasesleep e) := by
  intro s hs hpos
  have hl := locked_of_books e hpos
  refine ⟨hs.setInode fun he f hf hfr => hs.other he hf hfr, ?_⟩
  show (s.setInode e _).books = _
  rw [books_setInode]
  simp [hl, oneLock, Pi.single_neg]

theorem loadInode_silent : Silent (loadInode sb e) := by
  unfold loadInode
  refine .bind_zero .get fun s => ?_
  refine .ite (fun _ => .pure rfl) fun _ => ?_
  refine .ite (fun _ => .throw) fun _ => ?_
  exact silent_modifyInode fun _ => ⟨rfl, rfl, rfl⟩

theorem ilock_counts : Counts (fun _ => oneLock e) (ilock sb e) := by
  unfold ilock
  refine .bind_zero .get fun s => ?_
  refine .ite (fun _ => .throw) fun _ => ?_
  refine (acquiresleep_counts e).bind fun _ => ?_
  exact (loadInode_silent sb e).congr fun _ => (sub_self _).symm

theorem iunlock_counts : Counts (fun _ => -oneLock e) (iunlock e) := by
  unfold iunlock
  refine .of_get fun s hs => ?_
  split
  · exact trivial
  · next hl =>
    have hlocked : (s.itable e).locked = true := by
      by_contra hne
      exact hl (.inl (by simpa using hne))
    have hpos : 0 < s.books.2 e := by
      show (0 : Int) < if (s.itable e).locked then 1 else 0
      rw [if_pos hlocked]
      omega
    exact releasesleep_counts e s hs hpos

theorem ifree_silent : Silent (ifree sb e) := by
  have hfrom : CountsFrom (fun g => 0 ≤ g.2 e) (fun _ => 0) (ifree sb e) := by
    unfold ifree
    refine ((acquiresleep_counts e).from _).bind fun _ => ?_
    refine .bind_zero (itrunc_silent sb e) fun _ => ?_
    refine .bind_zero (silent_modifyInode fun _ => ⟨rfl, rfl, rfl⟩) fun _ => ?_
    refine .bind_zero (iupdate_silent sb e) fun _ => ?_
    refine .bind_zero (silent_modifyInode fun _ => ⟨rfl, rfl, rfl⟩) fun _ => ?_
    refine ((releasesleep_counts e).mono fun g hg => ?_).congr fun _ => ?_
    · -- the lock was free, and one was added
      have hone : (oneLock e).2 e = 1 := Pi.single_eq_same e 1
      simp only [Prod.snd_sub, Pi.sub_apply, hone] at hg
      omega
    · exact (zero_sub _).symm
  exact fun s hs => hfrom s hs (books_lock_nonneg e s)

theorem decr_counts : Counts (fun _ => -oneRef e)
    (modifyInode e fun ip => { ip with ref := ip.ref - 1 }) := by
  refine .modify fun s hs => ⟨hs.setInode fun he f hf hfr => ?_, ?_⟩
  · exact hs.other (by simp only at he; omega) hf hfr
  · rw [books_setInode]
    simp [oneRef, Pi.single_neg]

theorem iput_counts : Counts (fun _ => -oneRef e) (iput sb e) := by
  unfold iput
  refine .bind_zero .get fun s => ?_
  refine .ite (fun _ => ?_) fun _ => decr_counts e
  exact .bind_zero (ifree_silent sb e) fun _ => decr_counts e

theorem iunlockput_counts : Counts (fun _ => -oneRef e - oneLock e) (iunlockput sb e) := by
  unfold iunlockput
  refine (iunlock_counts e).bind fun _ => (iput_counts sb e).congr fun _ => ?_
  abel

/-- A locked entry is given back, and nothing else is left to count. -/
theorem put_settled {α : Type} {d : α → Books} {r : α} (h : d r = 0) :
    Counts (fun a => d a - oneRef e - oneLock e) (iunlockput sb e >>= fun _ => pure r) := by
  refine (iunlockput_counts sb e).bind fun _ => .pure ?_
  rw [h]
  abel

theorem ialloc_counts (type : Int16) : Counts refOf (ialloc sb type) := by
  unfold ialloc
  refine .bind_zero .get fun s => ?_
  split
  · exact .pure rfl
  · refine .bind_zero (Silent.of_keeps (.modify fun s => ?_)) fun _ => ?_
    · rw [entries_inert.logWrite, entries_inert.setDisk]
    · exact (iget_counts _).bind fun e => .pure (sub_self _)

/-! ## §5. Directories and paths. -/

theorem readDirent_silent (off : Nat) (msg : String) : Silent (readDirent sb dp off msg) := by
  unfold readDirent
  refine .bind_zero (readi_silent sb dp _ _ _) fun r => ?_
  cases r with
  | none => exact .throw
  | some l => exact .ite (fun _ => .pure rfl) fun _ => .throw

def foundRef (r : Option (Fin NINODE × Nat)) : Books := refOf (r.map Prod.fst)

theorem dirlookupLoop_counts (name : Bytes) (fuel off : Nat) :
    Counts foundRef (dirlookupLoop sb dp name fuel off) := by
  induction fuel generalizing off with
  | zero => exact .pure rfl
  | succ fuel ih =>
    unfold dirlookupLoop
    refine .bind_zero .get fun s => ?_
    refine .ite (fun _ => ?_) fun _ => .pure rfl
    refine .bind_zero (readDirent_silent sb dp _ _) fun de => ?_
    refine .ite (fun _ => ih _) fun _ => ?_
    refine .ite (fun _ => ?_) fun _ => ih _
    exact (iget_counts _).bind fun e => .pure (sub_self _)

theorem dirlookup_counts (name : Bytes) : Counts foundRef (dirlookup sb dp name) := by
  unfold dirlookup
  refine .bind_zero .get fun s => ?_
  exact .ite (fun _ => .throw) fun _ => dirlookupLoop_counts sb dp name _ _

theorem emptyDirent_silent (fuel off : Nat) : Silent (emptyDirent sb dp fuel off) := by
  induction fuel generalizing off with
  | zero => exact .pure rfl
  | succ fuel ih =>
    unfold emptyDirent
    refine .bind_zero .get fun s => ?_
    refine .ite (fun _ => ?_) fun _ => .pure rfl
    refine .bind_zero (readDirent_silent sb dp _ _) fun de => ?_
    exact .ite (fun _ => .pure rfl) fun _ => ih _

theorem dirlink_silent (name : Bytes) (inum : Nat) : Silent (dirlink sb dp name inum) := by
  unfold dirlink
  refine (dirlookup_counts sb dp name).bind fun r => ?_
  match r with
  | some (ip, off) =>
    -- the entry exists: its reference is dropped again
    refine (iput_counts sb ip).bind fun _ => .pure ?_
    show 0 - oneRef ip - -oneRef ip = 0
    abel
  | none =>
    refine .congr (d := fun _ => 0) ?_ fun _ => (sub_zero _).symm
    refine .bind_zero .get fun s => ?_
    refine .bind_zero (emptyDirent_silent sb dp _ _) fun off => ?_
    refine .bind_zero (writei_silent sb dp _ _ _) fun r => ?_
    exact .ite (fun _ => .pure rfl) fun _ => .pure rfl

theorem isdirempty_silent : Silent (isdirempty sb dp) := by
  have hloop : ∀ fuel off, Silent (isdiremptyLoop sb dp fuel off) := by
    intro fuel
    induction fuel with
    | zero => exact fun _ => .pure rfl
    | succ fuel ih =>
      intro off
      unfold isdiremptyLoop
      refine .bind_zero .get fun s => ?_
      refine .ite (fun _ => ?_) fun _ => .pure rfl
      refine .bind_zero (readDirent_silent sb dp _ _) fun de => ?_
      exact .ite (fun _ => .pure rfl) fun _ => ih _
  unfold isdirempty
  exact .bind_zero .get fun s => hloop _ _

def namedRef (r : Option (Fin NINODE × Bytes)) : Books := refOf (r.map Prod.fst)

theorem namexLoop_counts (parent : Bool) (fuel : Nat) (path : List UInt8) (name : Bytes) :
    Counts (fun r => namedRef r - oneRef ip) (namexLoop sb parent fuel ip path name) := by
  induction fuel generalizing ip path name with
  | zero => exact .pure (sub_self _)
  | succ fuel ih =>
    unfold namexLoop
    split
    · refine .ite (fun _ => ?_) fun _ => .pure (sub_self _)
      refine (iput_counts sb ip).bind fun _ => .pure ?_
      show 0 - oneRef ip - -oneRef ip = 0
      abel
    · next name path _ =>
      refine (ilock_counts sb ip).bind fun _ => ?_
      refine .bind_zero .get fun s => ?_
      refine .ite (fun _ => ?_) fun _ => .ite (fun _ => ?_) fun _ => ?_
      · exact put_settled sb ip rfl
      · refine (iunlock_counts ip).bind fun _ => .pure ?_
        show oneRef ip - oneRef ip - oneLock ip - -oneLock ip = 0
        abel
      · refine (dirlookup_counts sb ip name).bind fun r => ?_
        match r with
        | none =>
          refine (iunlockput_counts sb ip).bind fun _ => .pure ?_
          show 0 - oneRef ip - oneLock ip - 0 - (-oneRef ip - oneLock ip) = 0
          abel
        | some (next, off) =>
          refine (iunlockput_counts sb ip).bind fun _ => ?_
          refine (ih next path name).congr fun r => ?_
          show namedRef r - oneRef next = namedRef r - oneRef ip - oneLock ip -
            oneRef next - (-oneRef ip - oneLock ip)
          abel

/-- A working directory owns a reference. -/
def CwdHeld (cwd : Option (Fin NINODE)) (g : Books) : Prop := ∀ e, cwd = some e → 0 < g.1 e

theorem CwdHeld.of_sub_ref {cwd : Option (Fin NINODE)} {g : Books} (h : CwdHeld cwd (g - oneRef e)) :
    CwdHeld cwd g := by
  intro f hf
  have hlt : 0 < g.1 f - (oneRef e).1 f := h f hf
  have hnn : 0 ≤ (oneRef e).1 f := by
    show (0 : Int) ≤ Pi.single (M := fun _ => Int) e 1 f
    rw [Pi.single_apply]
    split <;> omega
  omega

variable (cwd : Option (Fin NINODE)) (path : List UInt8)

theorem namexStart_counts : CountsFrom (CwdHeld cwd) oneRef (namexStart cwd path) := by
  unfold namexStart
  refine .ite (fun _ => (iget_counts _).from _) fun _ => ?_
  cases cwd with
  | none => exact fun _ _ _ => trivial
  | some e => exact fun s hs hK => idup_counts e s hs (hK e rfl)

theorem namex_counts (parent : Bool) :
    CountsFrom (CwdHeld cwd) namedRef (namex sb cwd path parent) := by
  unfold namex
  exact (namexStart_counts cwd path).bind fun ip => (namexLoop_counts sb ip _ _ _ _).from _

theorem namei_counts : CountsFrom (CwdHeld cwd) refOf (namei sb cwd path) := by
  unfold namei
  refine (namex_counts sb cwd path false).bind fun r => Adds.from ?_ _
  exact Adds.pure (sub_self _)

theorem nameiparent_counts : CountsFrom (CwdHeld cwd) namedRef (nameiparent sb cwd path) :=
  namex_counts sb cwd path true

/-! ## §6. Creating and removing names. -/

theorem setNlink_silent (f : Int16 → Int16) : Silent (setNlink sb e f) := by
  unfold setNlink
  refine .bind_zero (silent_modifyInode fun _ => ⟨rfl, rfl, rfl⟩) fun _ => ?_
  exact iupdate_silent sb e

theorem linked_silent (name : Bytes) (inum : Nat) : Silent (linked sb dp name inum) := by
  unfold linked
  exact .bind_zero (dirlink_silent sb dp name inum) fun _ => .pure rfl

theorem createLinks_silent (name : Bytes) (type : Int16) :
    Silent (createLinks sb dp ip name type) := by
  unfold createLinks
  refine .bind_zero .get fun s => ?_
  refine .bind_zero .get fun s => ?_
  refine .ite (fun _ => ?_) fun _ => linked_silent sb dp name _
  refine .bind_zero (linked_silent sb ip dot _) fun _ => ?_
  refine .ite (fun _ => ?_) fun _ => .pure rfl
  refine .bind_zero (linked_silent sb ip dotdot _) fun _ => ?_
  exact .ite (fun _ => linked_silent sb dp name _) fun _ => .pure rfl

theorem createInode_counts (name : Bytes) (type major minor : Int16) :
    Counts (fun r => heldOf r - oneRef ip - (oneRef dp + oneLock dp))
      (createInode sb dp ip name type major minor) := by
  unfold createInode
  refine (ilock_counts sb ip).bind fun _ => ?_
  refine .bind_zero (silent_modifyInode fun _ => ⟨rfl, rfl, rfl⟩) fun _ => ?_
  refine .bind_zero (iupdate_silent sb ip) fun _ => ?_
  refine .bind_zero (createLinks_silent sb dp ip name type) fun ok => ?_
  refine .ite (fun _ => ?_) fun _ => ?_
  · refine .bind_zero (.guarded (setNlink_silent sb dp _)) fun _ => ?_
    refine (iunlockput_counts sb dp).bind fun _ => .pure ?_
    show oneRef ip + oneLock ip - oneRef ip - (oneRef dp + oneLock dp) - oneLock ip -
      (-oneRef dp - oneLock dp) = 0
    abel
  · refine .bind_zero (setNlink_silent sb ip _) fun _ => ?_
    refine (iunlockput_counts sb ip).bind fun _ => ?_
    refine (iunlockput_counts sb dp).bind fun _ => .pure ?_
    show 0 - oneRef ip - (oneRef dp + oneLock dp) - oneLock ip - (-oneRef ip - oneLock ip) -
      (-oneRef dp - oneLock dp) = 0
    abel

theorem create_counts (type major minor : Int16) :
    CountsFrom (CwdHeld cwd) heldOf (create sb cwd path type major minor) := by
  unfold create
  refine (nameiparent_counts sb cwd path).bind fun r => ?_
  refine Adds.from ?_ _
  match r with
  | none => exact .pure (sub_self _)
  | some (dp, name) =>
    refine (ilock_counts sb dp).bind fun _ => ?_
    refine (dirlookup_counts sb dp name).bind fun r => ?_
    match r with
    | some (ip, off) =>
      refine (iunlockput_counts sb dp).bind fun _ => ?_
      refine (ilock_counts sb ip).bind fun _ => ?_
      refine .bind_zero .get fun s => ?_
      refine .ite (fun _ => .pure ?_) fun _ => ?_
      · show oneRef ip + oneLock ip - oneRef dp - oneLock dp - oneRef ip -
          (-oneRef dp - oneLock dp) - oneLock ip = 0
        abel
      · refine (iunlockput_counts sb ip).bind fun _ => .pure ?_
        show 0 - oneRef dp - oneLock dp - oneRef ip - (-oneRef dp - oneLock dp) - oneLock ip -
          (-oneRef ip - oneLock ip) = 0
        abel
    | none =>
      refine (ialloc_counts sb type).bind fun r => ?_
      match r with
      | none =>
        refine (iunlockput_counts sb dp).bind fun _ => .pure ?_
        show 0 - oneRef dp - oneLock dp - 0 - 0 - (-oneRef dp - oneLock dp) = 0
        abel
      | some ip =>
        refine (createInode_counts sb dp ip name type major minor).congr fun r => ?_
        show heldOf r - oneRef ip - (oneRef dp + oneLock dp) =
          heldOf r - oneRef dp - oneLock dp - 0 - oneRef ip
        abel

theorem unlinkEntry_counts (off : Nat) :
    Counts (fun _ => -(oneRef dp + oneLock dp) - (oneRef ip + oneLock ip))
      (unlinkEntry sb dp ip off) := by
  unfold unlinkEntry
  refine .bind_zero (writei_silent sb dp _ _ _) fun r => ?_
  refine .ite (fun _ => .throw) fun _ => ?_
  refine .bind_zero .get fun s => ?_
  refine .bind_zero (.guarded (setNlink_silent sb dp _)) fun _ => ?_
  refine (iunlockput_counts sb dp).bind fun _ => ?_
  refine .bind_zero (setNlink_silent sb ip _) fun _ => ?_
  refine (iunlockput_counts sb ip).congr fun _ => ?_
  abel

theorem occupied_silent : Silent (occupied sb ip) := by
  unfold occupied
  refine .bind_zero .get fun s => ?_
  refine .ite (fun _ => ?_) fun _ => .pure rfl
  exact .bind_zero (isdirempty_silent sb ip) fun _ => .pure rfl

theorem unlink_counts : CountsFrom (CwdHeld cwd) (fun _ => 0) (unlink sb cwd path) := by
  unfold unlink
  refine (nameiparent_counts sb cwd path).bind fun r => ?_
  refine Adds.from ?_ _
  match r with
  | none => exact .pure (sub_self _)
  | some (dp, name) =>
    refine (ilock_counts sb dp).bind fun _ => ?_
    refine .ite (fun _ => ?_) fun _ => ?_
    · exact put_settled sb dp rfl
    · refine (dirlookup_counts sb dp name).bind fun r => ?_
      match r with
      | none =>
        refine (iunlockput_counts sb dp).bind fun _ => .pure ?_
        show 0 - oneRef dp - oneLock dp - 0 - (-oneRef dp - oneLock dp) = 0
        abel
      | some (ip, off) =>
        refine (ilock_counts sb ip).bind fun _ => ?_
        refine .bind_zero .get fun s => ?_
        refine .ite (fun _ => .throw) fun _ => ?_
        refine .bind_zero (occupied_silent sb ip) fun full => ?_
        refine .ite (fun _ => ?_) fun _ => ?_
        · refine (iunlockput_counts sb ip).bind fun _ => ?_
          refine (iunlockput_counts sb dp).bind fun _ => .pure ?_
          show 0 - oneRef dp - oneLock dp - oneRef ip - oneLock ip -
            (-oneRef ip - oneLock ip) - (-oneRef dp - oneLock dp) = 0
          abel
        · refine (unlinkEntry_counts sb dp ip off).bind fun _ => .pure ?_
          show 0 - oneRef dp - oneLock dp - oneRef ip - oneLock ip -
            (-(oneRef dp + oneLock dp) - (oneRef ip + oneLock ip)) = 0
          abel

theorem linkNew_counts (new : List UInt8) :
    CountsFrom (CwdHeld cwd) (fun ok => if ok then -oneRef ip else 0) (linkNew sb cwd ip new) := by
  unfold linkNew
  refine (nameiparent_counts sb cwd new).bind fun r => ?_
  refine Adds.from ?_ _
  match r with
  | none => exact .pure (sub_self _)
  | some (dp, name) =>
    refine (ilock_counts sb dp).bind fun _ => ?_
    refine .bind_zero .get fun s => ?_
    refine .bind_zero (linked_silent sb dp name _) fun ok => ?_
    refine .ite (fun _ => ?_) fun _ => ?_
    · refine (iunlockput_counts sb dp).bind fun _ => ?_
      refine (iput_counts sb ip).bind fun _ => .pure ?_
      show -oneRef ip - oneRef dp - oneLock dp - (-oneRef dp - oneLock dp) - -oneRef ip = 0
      abel
    · exact put_settled sb dp rfl

theorem link_counts (new : List UInt8) :
    CountsFrom (CwdHeld cwd) (fun _ => 0) (link sb cwd path new) := by
  unfold link
  refine (namei_counts sb cwd path).bind fun r => ?_
  match r with
  | none =>
    refine Adds.from ?_ _
    exact Adds.pure (sub_self _)
  | some ip =>
    refine ((ilock_counts sb ip).from _).bind fun _ => ?_
    refine .bind_zero .get fun s => ?_
    refine .ite (fun _ => Adds.from ?_ _) fun _ => ?_
    · exact put_settled sb ip rfl
    · refine .bind_zero (setNlink_silent sb ip _) fun _ => ?_
      refine ((iunlock_counts ip).from _).bind fun _ => ?_
      refine ((linkNew_counts sb ip cwd new).mono fun g hg => ?_).bind fun ok => Adds.from ?_ _
      · -- between the two walks one reference to `ip` is held, and no lock
        apply CwdHeld.of_sub_ref ip
        have heq : g - -oneLock ip - oneLock ip - oneRef ip = g - oneRef ip := by abel
        rw [← heq]
        exact hg
      · refine .ite (fun hok => .pure ?_) fun hok => ?_
        · show 0 - oneRef ip - oneLock ip - -oneLock ip - (if ok then -oneRef ip else 0) = 0
          rw [if_pos hok]
          abel
        · refine (ilock_counts sb ip).bind fun _ => ?_
          refine .bind_zero (setNlink_silent sb ip _) fun _ => ?_
          refine (iunlockput_counts sb ip).bind fun _ => .pure ?_
          show 0 - oneRef ip - oneLock ip - -oneLock ip - (if ok then -oneRef ip else 0) -
            oneLock ip - (-oneRef ip - oneLock ip) = 0
          rw [if_neg hok]
          abel

end Functions

end Xv6.Fs
