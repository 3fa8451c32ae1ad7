/-
  Xv6.Fs.ReportRefs — inode references and locks on the crash-report path.

  kfilecreate returns a locked inode with one reference.  sysrep gives both back;
  store_trap gives back the reference only.
-/
import Xv6.Fs.FileCalls
import Xv6.Fs.Transactions

namespace Xv6.Fs

open Lib Lib.Comp

/-! ## §1. Exact counts. -/

namespace Sys

def carried (s : Sys) : Option (Fin NINODE) := s.kslot.bind fun f => (s.file .kftable f).ip

/-- Every reference has its owner: an open file, a working directory or the next kernel file. -/
structure RefsExact (sb : Superblock) (s : Sys) : Prop where
  nonneg : ∀ e, 0 ≤ (s.fs.itable e).ref
  refs : ∀ e, (s.fs.itable e).ref = s.owners e + if s.carried = some e then 1 else 0
  unlocked : ∀ e, (s.fs.itable e).ref = 0 → (s.fs.itable e).locked = false
  reports : ∀ e, s.carried = some e → ∀ r fs,
    namei sb none reportsPath s.fs = .ok (r, fs) → r = some e

/-- Between calls, as long as no report has been stored: no closed kernel file
has an inode. -/
structure Clean (s : Sys) : Prop where
  idle : s.Idle
  exact : ∀ e, (s.fs.itable e).ref = s.owners e
  null : ∀ f, (s.kfiles f).ref = 0 → (s.kfiles f).ip = none

variable {s s' : Sys}

theorem kslot_ref {f : Fin NFILE} (h : s.kslot = some f) : (s.kfiles f).ref = 0 := by
  unfold kslot at h
  have hp := List.find?_some h
  exact of_decide_eq_true hp

theorem kslot_congr (h : ∀ f, (s'.kfiles f).ref = 0 ↔ (s.kfiles f).ref = 0) :
    s'.kslot = s.kslot := by
  have hp : (fun f => decide ((s'.file .kftable f).ref = 0)) =
      fun f => decide ((s.file .kftable f).ref = 0) := funext fun f => decide_eq_decide.mpr (h f)
  unfold kslot
  rw [hp]

theorem Clean.carried_eq (h : s.Clean) : s.carried = none := by
  unfold carried
  cases hslot : s.kslot with
  | none => rfl
  | some f => exact h.null f (kslot_ref hslot)

theorem Clean.refsExact (sb : Superblock) (h : s.Clean) : s.RefsExact sb where
  nonneg e := by
    rw [h.exact e]
    unfold owners
    omega
  refs e := by
    rw [h.exact e, h.carried_eq]
    simp
  unlocked e _ := h.idle.unlocked e
  reports e he := by
    rw [h.carried_eq] at he
    cases he

theorem ledger_ref (s : Sys) (e : Fin NINODE) :
    s.ledger.1.1 e = (s.fs.itable e).ref - s.owners e := by
  show (s.fs.itable e).ref - s.held.1 e = _
  rw [held_eq_owners]

theorem Clean.of_ledger (h : s.Clean) (htidy : s'.Tidy) (hl : s'.ledger = s.ledger)
    (hnull : ∀ f, (s'.kfiles f).ref = 0 → (s'.kfiles f).ip = none) : s'.Clean := by
  obtain ⟨href, hlock, _⟩ := ledger_eq hl
  have hexact : ∀ e, (s'.fs.itable e).ref = s'.owners e := by
    intro e
    have h1 := href e
    have h2 := h.exact e
    omega
  refine ⟨⟨fun e => ?_, htidy.uniq, fun e => (hexact e).ge, htidy.closed⟩, hexact, hnull⟩
  rw [hlock e]
  exact h.idle.unlocked e

end Sys

/-! ## §2. Kernel files and the ledger. -/

section Functions

variable (sb : Superblock) {f : Fin NFILE} {s : Sys}

theorem modifyKfile_returns {g : File → File} (hs : s.Tidy) :
    Returns (fun _ s' => (s'.Tidy ∧ s'.ledger = s.ledger + 0) ∧
      s'.kfiles = put s.kfiles f (g (s.kfiles f))) (modifyFile .kftable f g) s := by
  have hfile : (s.setFile .kftable f (g (s.file .kftable f))).file .ftable = s.file .ftable :=
    s.setFile_other .kftable f _ (by decide)
  refine ⟨⟨⟨hs.uniq, ?_⟩, ?_⟩, s.setFile_self .kftable f _⟩
  · intro f'
    rw [hfile]
    exact hs.closed f'
  · exact Sys.ledger_change hfile rfl (add_zero _).symm (add_zero _).symm

theorem kfilealloc_kfiles (hs : s.Tidy) :
    Returns (fun r s' => r = s.kslot ∧ (s'.Tidy ∧ s'.ledger = s.ledger + 0) ∧
      ∀ f, r = some f → s'.kfiles = put s.kfiles f { s.kfiles f with ref := 1 }) kfilealloc s := by
  unfold kfilealloc allocIn Returns
  rw [wp_bind, wp_get]
  split
  · next hslot =>
    rw [wp_pure, add_zero]
    refine ⟨hslot.symm, ⟨hs, rfl⟩, ?_⟩
    intro f hf
    cases hf
  · next f hslot =>
    refine Returns.bind (modifyKfile_returns hs) fun _ s' hset => ?_
    refine ⟨hslot.symm, hset.1, ?_⟩
    intro f' hf'
    cases hf'
    exact hset.2

theorem kfilecreate_counts (path : List UInt8) (type major minor : Int16) :
    Counts heldOf (kfilecreate sb path type major minor) := fun v hv =>
  create_counts sb none path type major minor v hv fun _ h => by cases h

theorem createIn_returns (hs : s.Tidy) {β : Type} {rest : Option (Fin NINODE) → SysM β}
    {Q : β → Sys → Prop}
    (hrest : ∀ ip s', s'.Tidy → s'.ledger = s.ledger + (heldOf ip, 1) →
      s'.kfiles = put s.kfiles f { s.kfiles f with ip := ip } → Returns Q (rest ip) s') :
    Returns Q (do
      beginOp sb
      let ip ← liftFs (kfilecreate sb reportsPath T_FILE 0 0)
      modifyFile .kftable f fun file => { file with ip := ip }
      rest ip) s := by
  refine .bind (beginOp_settles sb s ⟨hs, rfl⟩) fun _ s₁ ⟨hs₁, hl₁⟩ => ?_
  refine .bind (liftFs_settles (kfilecreate_counts sb _ _ _ _) s₁ hs₁)
    fun ip s₂ ⟨hs₂, hl₂⟩ => ?_
  refine .bind (modifyKfile_returns hs₂.toTidy) fun _ s₃ ⟨⟨hs₃, hl₃⟩, hk₃⟩ => ?_
  refine hrest ip s₃ hs₃ ?_ ?_
  · rw [hl₃, hl₂, hl₁]
    refine Prod.ext ?_ ?_
    · show s.ledger.1 + 0 + heldOf ip + 0 = s.ledger.1 + heldOf ip
      abel
    · show s.ledger.2 + 1 + 0 + 0 = s.ledger.2 + 1
      omega
  · rw [hk₃, hs₂.kernel]

/-! ## §3. sysrep. -/

theorem sysrepCreate_returns (rt : Bytes) (hs : s.Tidy) :
    Returns (fun _ s' => (s'.Tidy ∧ s'.ledger = s.ledger) ∧
      ∃ ip, s'.kfiles = put s.kfiles f { s.kfiles f with ip := ip }) (sysrepCreate sb f rt) s := by
  unfold sysrepCreate
  refine createIn_returns sb hs fun ip s₁ hs₁ hl₁ hk₁ => ?_
  match ip with
  | none => exact trivial
  | some e =>
    refine .mono (putEnd_settles sb e rt s₁ ⟨hs₁, rfl⟩)
      fun _ s₂ ⟨hs₂, hl₂⟩ => ⟨⟨hs₂.toTidy, ?_⟩, some e, hs₂.kernel.trans hk₁⟩
    rw [hl₂, hl₁]
    refine Prod.ext ?_ ?_
    · show s.ledger.1 + (oneRef e + oneLock e) + -(oneRef e + oneLock e) = s.ledger.1
      abel
    · show s.ledger.2 + 1 + -1 = s.ledger.2
      omega

/-- **sysrep keeps the counts exact** as long as no report has been stored. -/
theorem sysrep_clean (rt : Bytes) (h : s.Clean) :
    Returns (fun _ s' => s'.Clean) (sysrep sb rt) s := by
  unfold sysrep
  refine .bind (kfilealloc_kfiles h.idle.tidy) fun r s₁ ⟨hslot, ⟨hs₁, hl₁⟩, hk₁⟩ => ?_
  match r with
  | none => exact trivial
  | some f =>
    have hnull : (s.kfiles f).ip = none := h.null f (Sys.kslot_ref hslot.symm)
    refine .bind (modifyKfile_returns hs₁) fun _ s₂ ⟨⟨hs₂, hl₂⟩, hk₂⟩ => ?_
    rw [hk₁ f rfl, put_self, put_put] at hk₂
    have hip : (s₂.file .kftable f).ip = none := by
      show (s₂.kfiles f).ip = none
      rw [hk₂, put_self]
      exact hnull
    unfold Returns
    rw [wp_bind, wp_get, if_pos hip]
    refine Returns.mono (sysrepCreate_returns sb rt hs₂) fun _ s₃ ⟨⟨hs₃, hl₃⟩, ip, hk₃⟩ => ?_
    refine h.of_ledger hs₃ ?_ ?_
    · rw [hl₃, hl₂, hl₁, add_zero, add_zero]
    · intro f'
      rw [hk₃, hk₂, put_self, put_put, put_apply]
      split
      · -- the file stays in use
        intro h1
        exact absurd h1 (show (1 : Int) ≠ 0 by decide)
      · exact h.null f'

/-! ## §4. store_trap. -/

theorem Sys.Tidy.of_observe {s' : Sys} (hs : s.Tidy)
    (h : s'.observe State.entries = s.observe State.entries) :
    s'.Tidy ∧ s'.ledger.1 = s.ledger.1 := by
  have hsame := State.sameEntry_of_entries (congrArg (fun v => v.2.2) h)
  have hfile : s'.file .ftable = s.file .ftable := congrArg (fun v => v.2.1.1) h
  have hcwd : s'.cwd = s.cwd := congrArg (fun v => v.2.1.2) h
  refine ⟨⟨hs.uniq.congr hsame, ?_⟩, ?_⟩
  · rw [hfile]
    exact hs.closed
  · show s'.fs.books - s'.held = s.fs.books - s.held
    rw [State.books_congr hsame, Sys.held_congr hfile hcwd]

theorem writeReport_observe (count : Int32) (r : Bytes) {Q : Unit → Sys → Prop}
    (hclose : ∀ s', s'.observe State.entries = s.observe State.entries →
      Returns Q (kfileclose sb f) s') : Returns Q (writeReport sb f count r) s := by
  unfold writeReport
  refine .bind (kfileseek_keeps sb f entries_inert _ _ s) fun _ s₁ h₁ => ?_
  have hwrite := fun src n s => kfilewrite_frames sb f entries_inert (writei_entries sb) src n 0 s rfl
  refine .bind (hwrite _ _ s₁) fun _ s₂ ⟨h₂, _⟩ => ?_
  refine .bind (kfileseek_keeps sb f entries_inert _ _ s₂) fun _ s₃ h₃ => ?_
  refine .bind (hwrite _ _ s₃) fun _ s₄ ⟨h₄, _⟩ => ?_
  exact hclose s₄ (h₄.trans (h₃.trans (h₂.trans h₁)))

theorem kfileclose_returns {e : Fin NINODE} (hs : s.Tidy) (hip : (s.kfiles f).ip = some e)
    (htype : (s.kfiles f).type = .FD_INODE) (href : (s.kfiles f).ref = 1) :
    Returns (fun _ s' => s'.ledger = s.ledger + (-oneRef e, 0) ∧
      s'.kfiles = put s.kfiles f { s.kfiles f with ref := 0, type := .FD_NONE })
      (kfileclose sb f) s := by
  have href' : (s.file .kftable f).ref = 1 := href
  have htype' : (s.file .kftable f).type = .FD_INODE := htype
  have hip' : (s.file .kftable f).ip = some e := hip
  unfold kfileclose closeIn Returns
  rw [wp_bind, wp_get]
  dsimp only
  rw [if_neg (by omega), if_neg (by omega), hip']
  unfold guarded
  rw [if_pos (.inl htype')]
  refine Returns.bind (modifyKfile_returns hs) fun _ s₁ ⟨⟨hs₁, hl₁⟩, hk₁⟩ => ?_
  refine Returns.mono (putInode_settles sb (some e) s₁ ⟨hs₁, rfl⟩)
    fun _ s₂ ⟨hs₂, hl₂⟩ => ⟨?_, hs₂.kernel.trans hk₁⟩
  rw [hl₂, hl₁, add_zero]
  rfl

theorem openReports_ledger (hs : s.Tidy) (hip : (s.file .kftable f).ip = none) :
    Returns (fun _ s' => s'.Tidy ∧ ∃ ip, s'.ledger = s.ledger + (heldOf ip, 0) ∧
      s'.kfiles = put s.kfiles f { s.kfiles f with ip := ip }) (openReports sb f) s := by
  unfold openReports Returns
  rw [wp_bind, wp_get, if_pos hip]
  refine createIn_returns sb hs fun ip s₁ hs₁ hl₁ hk₁ => ?_
  refine .mono (endOp_settles sb s₁ ⟨hs₁, rfl⟩)
    fun _ s₂ ⟨hs₂, hl₂⟩ => ⟨hs₂.toTidy, ip, ?_, hs₂.kernel.trans hk₁⟩
  rw [hl₂, hl₁]
  refine Prod.ext ?_ ?_
  · show s.ledger.1 + heldOf ip + 0 = s.ledger.1 + heldOf ip
    abel
  · show s.ledger.2 + 1 + -1 = s.ledger.2 + 0
    omega

theorem writeClose_returns (r : Bytes) {ip : Option (Fin NINODE)} (hs : s.Tidy)
    (hview : s.kview f = (ip, .FD_INODE, 1)) :
    Returns (fun _ s' => ∃ e, ip = some e ∧ s'.ledger.1 = s.ledger.1 + -oneRef e ∧
      (s'.kfiles f).ip = some e ∧ (s'.kfiles f).ref = 0 ∧
      ∀ f', f' ≠ f → (s'.kfiles f').ref = (s.kfiles f').ref) (do
      let count ← pushReport r
      writeReport sb f count r) s := by
  refine .bind (R := fun _ (s₁ : Sys) => s₁.observe State.entries =
    s.observe State.entries) rfl fun count s₁ h₁ => ?_
  have hview₁ : s₁.kview f = (ip, .FD_INODE, 1) := by
    rw [← hview]
    exact congrFun (congrArg Prod.fst h₁) f
  match ip with
  | none =>
    exact .mono (writeReport_null sb count r (congrArg Prod.fst hview₁)
      (congrArg (fun v => v.2.1) hview₁)) fun _ _ hfalse => hfalse.elim
  | some e =>
    refine writeReport_observe sb count r fun s₂ h₂ => ?_
    have hsame : s₂.kview = s.kview := congrArg Prod.fst (h₂.trans h₁)
    have hview₂ : s₂.kview f = (some e, .FD_INODE, 1) := by rw [hsame, hview]
    obtain ⟨hs₂, hl₂⟩ := hs.of_observe (h₂.trans h₁)
    refine .mono (kfileclose_returns sb hs₂ (congrArg Prod.fst hview₂)
      (congrArg (fun v => v.2.1) hview₂) (congrArg (fun v => v.2.2) hview₂))
      fun _ s₃ ⟨hl₃, hk₃⟩ => ⟨e, rfl, ?_, ?_, ?_, ?_⟩
    · rw [hl₃, ← hl₂]
      rfl
    · rw [hk₃, put_self]
      exact congrArg Prod.fst hview₂
    · rw [hk₃, put_self]
    · intro f' hf'
      rw [hk₃, put_of_ne hf']
      exact congrArg (fun v => v.2.2) (congrFun hsame f')

/-- If no report was stored before: a lock is still held, and the closed kernel file has a pointer
without a reference. -/
theorem storeTrap_returns (r : Bytes) (h : s.Clean) :
    Returns (fun _ s' => ∃ e, s'.ledger.1 = s.ledger.1 + oneLock e ∧ s'.carried = some e)
      (storeTrap sb r) s := by
  unfold storeTrap
  refine .bind (kfilealloc_kfiles h.idle.tidy) fun o s₁ ⟨hslot, ⟨hs₁, hl₁⟩, hk₁⟩ => ?_
  match o with
  | none => exact trivial
  | some f =>
    have href : (s.kfiles f).ref = 0 := Sys.kslot_ref hslot.symm
    refine .bind (modifyKfile_returns hs₁) fun _ s₂ ⟨⟨hs₂, hl₂⟩, hk₂⟩ => ?_
    rw [hk₁ f rfl, put_self, put_put] at hk₂
    have hip₂ : (s₂.kfiles f).ip = none := by
      rw [hk₂, put_self]
      exact h.null f href
    refine .bind (openReports_ledger sb hs₂ hip₂) fun _ s₃ ⟨hs₃, ip, hl₃, hk₃⟩ => ?_
    rw [hk₂, put_self, put_put] at hk₃
    refine .bind (modifyKfile_returns hs₃) fun _ s₄ ⟨⟨hs₄, hl₄⟩, hk₄⟩ => ?_
    rw [hk₃, put_self, put_put] at hk₄
    have hview : s₄.kview f = (ip, .FD_INODE, 1) := by
      show ((s₄.kfiles f).ip, (s₄.kfiles f).type, (s₄.kfiles f).ref) = _
      rw [hk₄, put_self]
    refine .mono (writeClose_returns sb r hs₄ hview)
      fun _ s₅ ⟨e, hip, hl₅, hip₅, href₅, hother⟩ => ⟨e, ?_, ?_⟩
    · subst hip
      rw [hl₅, hl₄, hl₃, hl₂, hl₁]
      show s.ledger.1 + 0 + 0 + (oneRef e + oneLock e) + 0 + -oneRef e = s.ledger.1 + oneLock e
      abel
    · -- the same file is the first one free
      have hfree : s₅.kslot = s.kslot := by
        refine Sys.kslot_congr fun f' => ?_
        by_cases hf' : f' = f
        · rw [hf', href₅, href]
        · rw [hother f' hf', hk₄, put_of_ne hf']
      unfold Sys.carried
      rw [hfree, ← hslot]
      exact hip₅

end Functions

/-! ## §5. Runs. -/

/-- A system call's file operations, or a sysrep. -/
def FileStep (sb : Superblock) (s s' : Sys) : Prop :=
  (∃ c : FileCall, c.Allowed s ∧ c.run sb s = .ok ((), s')) ∨
    ∃ rt rt', sysrep sb rt s = .ok (rt', s')

theorem fileStep_clean {sb : Superblock} {s s' : Sys} (hs : s.Clean) (hstep : FileStep sb s s') :
    s'.Clean := by
  rcases hstep with ⟨c, hc, hrun⟩ | ⟨rt, rt', hrun⟩
  · obtain ⟨htidy, hl⟩ := wp_ok (c.settles sb ⟨hs.idle.tidy, rfl⟩ hs.idle.covered hc) hrun
    rw [add_zero] at hl
    refine hs.of_ledger htidy.toTidy hl ?_
    rw [htidy.kernel]
    exact hs.null
  · exact wp_ok (sysrep_clean sb rt hs) hrun

theorem reachable_clean {sb : Superblock} {s : Sys} (h : Reachable Sys.Clean (FileStep sb) s) :
    s.Clean :=
  Reachable.invariant Sys.Clean (fun _ h => h) (fun _ _ hs hstep => fileStep_clean hs hstep) h

theorem smallBoot_clean : smallBoot.Clean := ⟨smallBoot_idle, by decide +kernel, by decide +kernel⟩

end Xv6.Fs
