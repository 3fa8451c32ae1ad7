/-
  Xv6.Fs.Transactions — begin_op and end_op on the crash-report path.

  Every function of kfile.c closes the transactions it opens, except kfileseek on its
  failing exits.
-/
import Xv6.Fs.Balance
import Xv6.Fs.Reports

namespace Xv6.Fs

open Lib Lib.Comp

/-! ## §1. What the report path leaves alone. -/

def Sys.kview (s : Sys) : Fin NFILE → Option (Fin NINODE) × FdType × Int := fun f =>
  ((s.file .kftable f).ip, (s.file .kftable f).type, (s.file .kftable f).ref)

def Sys.tables (s : Sys) : (Fin NFILE → File) × (Slot → Option (Fin NINODE)) :=
  (s.file .ftable, s.cwd)

def Sys.observe {τ : Type} (φ : State → τ) (s : Sys) := (s.kview, s.tables, φ s.fs)

def State.sizes (s : State) : Fin NINODE → UInt32 := fun e => (s.itable e).copy.size

def State.huge (s : State) : Fin NINODE → Bool := fun e =>
  decide (2 ^ 31 ≤ (s.itable e).copy.size.toNat)

theorem sizes_inert {τ : Type} (g : UInt32 → τ) :
    Inert fun s : State => fun e => g (s.itable e).copy.size where
  setDisk _ _ := rfl
  lh _ _ := rfl
  log _ _ := rfl
  addrs s e a := by
    funext f
    rw [State.setInode_itable]
    split
    · next hf => rw [hf]
    · rfl

section Keeps

variable {τ : Type} {φ : State → τ} (sb : Superblock) (f : Fin NFILE)

theorem deref_keeps {α : Type} (o : Option α) : Keeps φ (deref o) := by
  cases o with
  | none => exact .throw
  | some a => exact .pure

theorem liftFs_keeps {α : Type} {m : FsM α} (hm : Keeps φ m) :
    Keeps (Sys.observe φ) (liftFs m) := by
  intro s
  unfold Returns liftFs
  rw [wp_zoom]
  refine wp_mono (hm s.fs) fun a v hv => ?_
  show (s.kview, s.tables, φ v) = (s.kview, s.tables, φ s.fs)
  rw [hv]

theorem modifyFile_keeps {g : File → File} (hip : ∀ file, (g file).ip = file.ip)
    (htype : ∀ file, (g file).type = file.type) (href : ∀ file, (g file).ref = file.ref) :
    Keeps (Sys.observe φ) (modifyFile .kftable f g) := by
  refine .modify fun s => ?_
  have hview : (s.setFile .kftable f (g (s.file .kftable f))).kview = s.kview := by
    funext f'
    unfold Sys.kview
    rw [Sys.setFile_self, put_apply]
    split
    · next hf => rw [hf, hip, htype, href]
    · rfl
  exact Prod.ext hview rfl

theorem beginOp_keeps : Keeps (Sys.observe φ) (beginOp sb) := fun s =>
  .mono (beginOp_run sb s) fun _ _ hs' => by
    subst hs'
    rfl

theorem ksize_keeps : Keeps (Sys.observe φ) (ksize f) := by
  unfold ksize
  refine Keeps.get.bind fun s => liftFs_keeps ?_
  exact (deref_keeps _).bind fun e => Keeps.bind Keeps.get fun _ => Keeps.pure

variable (hφ : Inert φ)

include hφ

theorem endOp_keeps : Keeps (Sys.observe φ) (endOp sb) := fun s =>
  .mono (endOp_run sb s) fun _ _ ⟨lh, hs', _⟩ => by
    subst hs'
    exact Prod.ext rfl (Prod.ext rfl (hφ.lh s.fs lh))

theorem kfileseek_keeps (offset whence : Int32) :
    Keeps (Sys.observe φ) (kfileseek sb f offset whence) := by
  unfold kfileseek
  refine Keeps.get.bind fun s => Keeps.ite Keeps.pure ?_
  refine (beginOp_keeps sb).bind fun _ => Keeps.ite Keeps.pure ?_
  refine (ksize_keeps f).bind fun size => Keeps.get.bind fun s => ?_
  split
  · exact .pure
  · refine .ite .pure ?_
    refine .bind (modifyFile_keeps f (fun _ => rfl) (fun _ => rfl) fun _ => rfl) fun _ => ?_
    exact (endOp_keeps sb hφ).bind fun _ => .pure

end Keeps

/-! ## §2. Writing does not make a file huge. -/

section Writing

variable (sb : Superblock) (f : Fin NFILE)

theorem writeiLoop_end (e : Fin NINODE) (src : Nat → Option UInt8) (n fuel : Nat) :
    ∀ tot off s, tot ≤ n → Returns (fun r _ => r.1 ≤ n ∧ r.2 + tot = off + r.1)
      (writeiLoop sb e src n fuel tot off) s := by
  induction fuel with
  | zero => exact fun tot off s htot => ⟨htot, rfl⟩
  | succ fuel ih =>
    intro tot off s htot
    unfold writeiLoop
    split
    · next hlt =>
      refine .bind (R := fun _ _ => True) ?_ fun addr s' _ => ?_
      · exact .mono (bmap_keeps entries_inert sb e _ s) fun _ _ _ => trivial
      · split
        · exact ⟨htot, rfl⟩
        · refine .bind (R := fun _ _ => True) trivial fun _ s' _ => ?_
          split
          · refine .bind (R := fun _ _ => True) trivial fun _ s' _ => ?_
            have hm : min (n - tot) (BSIZE - off % BSIZE) ≤ n - tot := Nat.min_le_left _ _
            refine .mono (ih _ _ s' (by omega)) fun r _ hr => ⟨hr.1, ?_⟩
            have heq := hr.2
            omega
          · exact ⟨htot, rfl⟩
    · exact ⟨htot, rfl⟩

theorem huge_inert : Inert State.huge := sizes_inert fun z => decide (2 ^ 31 ≤ z.toNat)

theorem writeiEnd_keeps_huge (e : Fin NINODE) {off : Nat} (h : off < 2 ^ 31) :
    Keeps State.huge (writeiEnd sb e off) := by
  unfold writeiEnd
  refine .bind (.modify fun s => ?_) fun _ => iupdate_keeps huge_inert sb e
  funext e'
  unfold State.huge
  rw [State.setInode_itable]
  split
  · next he =>
    subst he
    dsimp only
    split
    · next hlt =>
      have hnew : (UInt32.ofNat off).toNat = off := by
        rw [UInt32.toNat_ofNat']
        omega
      show decide (2 ^ 31 ≤ (UInt32.ofNat off).toNat) = _
      rw [hnew]
      exact decide_eq_decide.mpr ⟨fun h1 => by omega, fun h1 => by omega⟩
    · rfl
  · rfl

theorem writei_keeps_huge (e : Fin NINODE) (src : Nat → Option UInt8) (off n : UInt32) :
    Keeps State.huge (writei sb e src off n) := by
  unfold writei
  refine Keeps.get.bind fun s => ?_
  dsimp only
  split
  · exact .pure
  · next hwrap =>
    split
    · exact .pure
    · next hmax =>
      have hsum : off.toNat + n.toNat ≤ MAXFILE * BSIZE := by
        have h1 : ¬ (off + n < off) := fun h => hwrap (.inr h)
        rw [UInt32.lt_iff_toNat_lt, UInt32.toNat_add] at h1
        have h2 : ¬ ((UInt32.ofNat (MAXFILE * BSIZE)).toNat < (off + n).toNat) :=
          fun h => hmax (UInt32.lt_iff_toNat_lt.mpr h)
        rw [UInt32.toNat_add, UInt32.toNat_ofNat'] at h2
        have h3 := off.toNat_lt
        have h4 := n.toNat_lt
        unfold MAXFILE NDIRECT NINDIRECT BSIZE at *
        omega
      intro s'
      refine .bind (wp_and (writeiLoop_keeps huge_inert sb e src _ _ _ _ s')
        (writeiLoop_end sb e src _ _ 0 off.toNat s' (Nat.zero_le _)))
        fun r s'' ⟨hs'', hle, heq⟩ => ?_
      have hend : r.2 < 2 ^ 31 := by
        unfold MAXFILE NDIRECT NINDIRECT BSIZE at hsum
        omega
      refine .bind (writeiEnd_keeps_huge sb e hend s'') fun _ s₃ hs₃ => ?_
      show s₃.huge = s'.huge
      rw [hs₃, hs'']

end Writing

/-! ## §3. Transactions. -/

/-- What `m` adds to `log.outstanding` when it returns. -/
abbrev Opens {α : Type} (d : α → Int) (m : SysM α) : Prop :=
  Adds (fun _ => True) Sys.outstanding d m

abbrev Closed {α : Type} (m : SysM α) : Prop := Opens (fun _ => 0) m

/-- What `m` adds to `log.outstanding` besides leaving an observation alone. -/
abbrev Frames {α τ : Type} (φ : State → τ) (v : Sys) (d : α → Int) (m : SysM α) : Prop :=
  Adds (fun s => s.observe φ = v.observe φ) Sys.outstanding d m

theorem Opens.frames {α τ : Type} {φ : State → τ} {v : Sys} {d : α → Int} {m : SysM α}
    (hm : Opens d m) (hk : Keeps (Sys.observe φ) m) : Frames φ v d m := fun s hs =>
  wp_mono (wp_and (hm s trivial) (hk s)) fun _ _ ⟨⟨_, hout⟩, hobs⟩ => ⟨hobs.trans hs, hout⟩

section Transactions

variable (sb : Superblock) (f : Fin NFILE)

theorem closed_modify {g : Sys → Sys} (h : ∀ s, (g s).outstanding = s.outstanding) :
    Closed (modify g : SysM Unit) :=
  .modify fun s _ => ⟨trivial, by rw [h s, add_zero]⟩

theorem modifyFile_closed (t : Table) (g : File → File) : Closed (modifyFile t f g) :=
  closed_modify fun _ => rfl

theorem liftFs_closed {α : Type} (m : FsM α) : Closed (liftFs m) := by
  intro s _
  unfold liftFs
  rw [wp_zoom]
  unfold wp
  split
  · exact ⟨trivial, (add_zero _).symm⟩
  · exact trivial

theorem beginOp_opens : Opens (fun _ => 1) (beginOp sb) := fun s _ =>
  Returns.mono (beginOp_run sb s) fun _ _ hs' => by
    subst hs'
    exact ⟨trivial, rfl⟩

theorem endOp_opens : Opens (fun _ => -1) (endOp sb) := fun s _ =>
  Returns.mono (endOp_run sb s) fun _ _ ⟨_, hs', _⟩ => by
    subst hs'
    exact ⟨trivial, rfl⟩

theorem transaction_closed {α β : Type} {m : SysM α} {g : α → SysM β} (hm : Closed m)
    (hg : ∀ a, Opens (fun _ => -1) (g a)) : Closed (beginOp sb >>= fun _ => m >>= g) := by
  refine (beginOp_opens sb).bind fun _ => .bind_zero hm fun a => ?_
  exact (hg a).congr fun _ => by omega

theorem putInode_closed (ip : Option (Fin NINODE)) : Closed (putInode sb ip) := by
  unfold putInode
  exact transaction_closed sb (liftFs_closed _) fun _ => endOp_opens sb

theorem closeIn_closed (t : Table) : Closed (closeIn sb t f) := by
  unfold closeIn
  refine .bind_zero .get fun s => ?_
  refine .ite (fun _ => .throw) fun _ => ?_
  refine .ite (fun _ => modifyFile_closed f t _) fun _ => ?_
  exact .bind_zero (modifyFile_closed f t _) fun _ => .guarded (putInode_closed sb _)

section Frames

variable {τ : Type} {φ : State → τ} {v : Sys} (hφ : Inert φ)

theorem modifyFile_frames {g : File → File} (hip : ∀ file, (g file).ip = file.ip)
    (htype : ∀ file, (g file).type = file.type) (href : ∀ file, (g file).ref = file.ref) :
    Frames φ v (fun _ => 0) (modifyFile .kftable f g) :=
  (modifyFile_closed f _ g).frames (modifyFile_keeps f hip htype href)

include hφ

theorem kfileread_frames (n : UInt32) : Frames φ v (fun _ => 0) (kfileread sb f n) := by
  unfold kfileread
  refine .bind_zero .get fun s => .ite (fun _ => .pure rfl) fun _ => ?_
  split
  · exact .throw
  · exact .pure rfl
  · exact .pure rfl
  · refine .bind_zero ((liftFs_closed _).frames (liftFs_keeps
      ((deref_keeps _).bind fun e => readi_keeps hφ sb e _ _ _))) fun r => ?_
    cases r with
    | none => exact .pure rfl
    | some l =>
      refine .bind_zero (modifyFile_frames f (fun _ => rfl) (fun _ => rfl) fun _ => rfl)
        fun _ => .pure rfl

theorem readInto_frames (rt : Bytes) (o n : Nat) :
    Frames φ v (fun _ => 0) (readInto sb f rt o n) := by
  unfold readInto
  refine .bind_zero (kfileread_frames sb f hφ _) fun r => ?_
  cases r with
  | none | some l => exact .pure rfl

theorem readRecords_frames (fuel i : Nat) (rt : Bytes) :
    Frames φ v (fun _ => 0) (readRecords sb f fuel i rt) := by
  induction fuel generalizing i rt with
  | zero => exact .pure rfl
  | succ fuel ih =>
    unfold readRecords
    refine .ite (fun _ => ?_) fun _ => .pure rfl
    exact .bind_zero (readInto_frames sb f hφ _ _ _) fun rt => ih _ rt

variable (hw : ∀ e src off n, Keeps φ (writei sb e src off n))

include hw

theorem kwriteLoop_frames (src : Bytes) (n fuel i : Nat) :
    Frames φ v (fun _ => 0) (kwriteLoop sb f src n fuel i) := by
  induction fuel generalizing i with
  | zero => exact .pure rfl
  | succ fuel ih =>
    unfold kwriteLoop
    refine .ite (fun _ => ?_) fun _ => .pure rfl
    refine .bind_zero ?_ fun r => .ite (fun _ => .pure rfl) fun _ => ih _
    unfold kwriteChunk
    refine ((beginOp_opens sb).frames (beginOp_keeps sb)).bind fun _ => ?_
    refine .bind_zero .get fun s => ?_
    refine .bind_zero ((liftFs_closed _).frames (liftFs_keeps
      ((deref_keeps _).bind fun e => hw e _ _ _))) fun r => ?_
    refine .bind_zero (.guarded
      (modifyFile_frames f (fun _ => rfl) (fun _ => rfl) fun _ => rfl)) fun _ => ?_
    exact ((endOp_opens sb).frames (endOp_keeps sb hφ)).bind fun _ => .pure rfl

theorem kfilewrite_frames (src : Bytes) (n : Int32) (other : Int) :
    Frames φ v (fun _ => 0) (kfilewrite sb f src n other) := by
  unfold kfilewrite
  refine .bind_zero .get fun s => .ite (fun _ => .pure rfl) fun _ => ?_
  split
  · exact .throw
  · exact .pure rfl
  · exact .pure rfl
  · exact .bind_zero (kwriteLoop_frames sb f hφ hw src _ _ _) fun _ => .pure rfl

end Frames

end Transactions

/-! ## §4. Seeking. -/

/-- kfileseek finds a position inside the file, or does nothing. -/
def Sys.SeekOk (s : Sys) (f : Fin NFILE) (offset whence : Int32) : Prop :=
  (s.file .kftable f).type ≠ .FD_INODE ∨
    ∃ e n, (s.file .kftable f).ip = some e ∧
      seekTarget (s.file .kftable f).off (s.fs.itable e).copy.size offset whence = some n ∧
      0 ≤ n ∧ n.toUInt32 ≤ (s.fs.itable e).copy.size

structure Sys.Shows (s : Sys) (f : Fin NFILE) (e : Fin NINODE) : Prop where
  ip : (s.file .kftable f).ip = some e
  type : (s.file .kftable f).type = .FD_INODE

theorem Sys.Shows.seekOk_iff {s : Sys} {f : Fin NFILE} {e : Fin NINODE} (h : s.Shows f e)
    (offset whence : Int32) : s.SeekOk f offset whence ↔
      ∃ n, seekTarget (s.file .kftable f).off (s.fs.itable e).copy.size offset whence = some n ∧
        0 ≤ n ∧ n.toUInt32 ≤ (s.fs.itable e).copy.size := by
  constructor
  · rintro (htype | ⟨e', n, hip, htarget⟩)
    · exact absurd h.type htype
    · have he : e' = e := Option.some.inj (hip.symm.trans h.ip)
      subst he
      exact ⟨n, htarget⟩
  · rintro ⟨n, htarget⟩
    exact .inr ⟨e, n, h.ip, htarget⟩

/-- One transaction more is left open unless `ok`. -/
def Sys.LeaksUnless (ok : Prop) (s s' : Sys) : Prop :=
  (ok → s'.outstanding = s.outstanding) ∧ (¬ ok → s'.outstanding = s.outstanding + 1)

theorem Sys.LeaksUnless.around {ok : Prop} {s s₁ s₂ s' : Sys} (h : s₁.LeaksUnless ok s₂)
    (hstart : s₁.outstanding = s.outstanding) (hend : s'.outstanding = s₂.outstanding) :
    s.LeaksUnless ok s' := by
  unfold LeaksUnless
  rw [hend, ← hstart]
  exact h

section Seeking

variable (sb : Superblock) (f : Fin NFILE)

theorem ksize_returns (s : Sys) :
    Returns (fun z s' => s' = s ∧ ∃ e, (s.file .kftable f).ip = some e ∧
      z = (s.fs.itable e).copy.size) (ksize f) s := by
  unfold ksize Returns
  rw [wp_bind, wp_get]
  unfold liftFs
  rw [wp_zoom]
  cases (s.file .kftable f).ip with
  | none => exact trivial
  | some e => exact ⟨rfl, e, rfl, rfl⟩

theorem seekTarget_eq_none {off size : UInt32} {offset whence : Int32}
    (h : whence ≠ SEEK_SET ∧ whence ≠ SEEK_CUR ∧ whence ≠ SEEK_END) :
    seekTarget off size offset whence = none := by
  unfold seekTarget
  rw [if_neg h.1, if_neg h.2.1, if_neg h.2.2]

/-- **A failed seek leaks one transaction.** -/
theorem kfileseek_outstanding (offset whence : Int32) (s : Sys) :
    Returns (fun _ s' => s.LeaksUnless (s.SeekOk f offset whence) s')
      (kfileseek sb f offset whence) s := by
  unfold kfileseek Returns
  rw [wp_bind, wp_get]
  split
  · next htype => exact ⟨fun _ => rfl, fun h => absurd (.inl htype) h⟩
  · next htype =>
    refine (beginOp_run sb s).bind fun _ s₁ hs₁ => ?_
    subst hs₁
    split
    · next hwhence =>
      refine ⟨fun h => ?_, fun _ => rfl⟩
      rcases h with h | ⟨e, n, _, htarget, _⟩
      · exact absurd h htype
      · rw [seekTarget_eq_none hwhence] at htarget
        cases htarget
    · refine (ksize_returns f _).bind fun size s₂ ⟨hs₂, e, hip, hsize⟩ => ?_
      subst hs₂
      unfold Returns
      rw [wp_bind, wp_get]
      have hshows : s.Shows f e := ⟨hip, not_not.mp htype⟩
      rw [hshows.seekOk_iff, ← show size = (s.fs.itable e).copy.size from hsize]
      split
      · next hnone =>
        refine ⟨?_, fun _ => rfl⟩
        rintro ⟨n, htarget, _⟩
        have hnone' : seekTarget (s.file .kftable f).off size offset whence = none := hnone
        rw [hnone'] at htarget
        cases htarget
      · next n hsome =>
        have hsome' : seekTarget (s.file .kftable f).off size offset whence = some n := hsome
        split
        · next hout =>
          refine ⟨?_, fun _ => rfl⟩
          rintro ⟨n', htarget, h0, hle⟩
          have hn : n' = n := Option.some.inj (htarget.symm.trans hsome')
          subst hn
          rcases hout with hneg | hbig
          · exact absurd h0 (Int32.not_le.mpr hneg)
          · exact absurd hle (UInt32.not_le.mpr hbig)
        · next hin =>
          have hok : ∃ n, seekTarget (s.file .kftable f).off size offset whence = some n ∧
              0 ≤ n ∧ n.toUInt32 ≤ size := by
            refine ⟨n, hsome', ?_, ?_⟩
            · exact Int32.not_lt.mp fun h => hin (.inl h)
            · exact UInt32.not_lt.mp fun h => hin (.inr h)
          refine Returns.bind (modifyFile_closed f .kftable _ _ trivial)
            fun _ s₃ ⟨_, hs₃⟩ => ?_
          refine Returns.bind (endOp_opens sb s₃ trivial) fun _ s₄ ⟨_, hs₄⟩ => ?_
          refine ⟨fun _ => ?_, fun h => absurd hok h⟩
          rw [hs₄, hs₃]
          show s.outstanding + 1 + 0 + -1 = s.outstanding
          omega

end Seeking

/-! ## §5. store_trap and sysrep. -/

/-- The kernel file that kfilealloc hands out. -/
def Sys.kslot (s : Sys) : Option (Fin NFILE) :=
  (List.finRange NFILE).find? fun f => (s.file .kftable f).ref = 0

/-- The size is at least that of ten records, and the difference is not
negative as an `int`. -/
def State.TenRecords (s : State) (e : Fin NINODE) : Prop :=
  REPORT_BUFFER_SIZE * REPORT ≤ (s.itable e).copy.size.toNat ∧
    (s.itable e).copy.size.toNat < 2 ^ 31 + REPORT_BUFFER_SIZE * REPORT

def Sys.ReadOk (s : Sys) : Prop :=
  ∀ f e, s.kslot = some f → (s.file .kftable f).ip = some e → s.fs.TenRecords e

/-- The file that store_trap writes to is not huge. -/
def Sys.StoreOk (sb : Superblock) (s : Sys) : Prop :=
  ∀ f, s.kslot = some f →
    (∀ e, (s.file .kftable f).ip = some e → (s.fs.itable e).copy.size.toNat < 2 ^ 31) ∧
    ((s.file .kftable f).ip = none → ∀ e fs,
      kfilecreate sb reportsPath T_FILE 0 0 s.fs = .ok (some e, fs) →
        (fs.itable e).copy.size.toNat < 2 ^ 31)

section Reports

variable (sb : Superblock) {f : Fin NFILE} {e : Fin NINODE} {s s' : Sys}

theorem Sys.Shows.of_observe {τ : Type} {φ : State → τ} (h : s.Shows f e)
    (hobs : s'.observe φ = s.observe φ) : s'.Shows f e := by
  have hview : s'.kview f = s.kview f := congrFun (congrArg Prod.fst hobs) f
  refine ⟨?_, ?_⟩
  · rw [← h.ip]
    exact congrArg Prod.fst hview
  · rw [← h.type]
    exact congrArg (fun v => v.2.1) hview

theorem Sys.Shows.seek_start (h : s.Shows f e) : s.SeekOk f 0 SEEK_SET :=
  Or.inr ⟨e, 0, h.ip, rfl, Int32.le_refl 0, UInt32.zero_le⟩

theorem zero_le_toInt32 (u : UInt32) : 0 ≤ u.toInt32 ↔ u.toNat < 2 ^ 31 := by
  rw [Int32.le_iff_toInt_le]
  show (0 : Int) ≤ u.toBitVec.toInt ↔ u.toBitVec.toNat < 2 ^ 31
  rw [BitVec.toInt_eq_toNat_cond]
  have hlt := u.toBitVec.isLt
  split <;> omega

theorem Sys.Shows.seek_end_iff (h : s.Shows f e) {offset : Int32} {back : Nat}
    (hoffset : offset.toUInt32.toNat = (2 ^ 32 - back) % 2 ^ 32) (hback : back < 2 ^ 31) :
    s.SeekOk f offset SEEK_END ↔ back ≤ (s.fs.itable e).copy.size.toNat ∧
        (s.fs.itable e).copy.size.toNat < 2 ^ 31 + back := by
  rw [h.seekOk_iff]
  have htarget : ∀ off size : UInt32, seekTarget off size offset SEEK_END =
      some (size + offset.toUInt32).toInt32 := fun _ _ => rfl
  have hz := (s.fs.itable e).copy.size.toNat_lt
  have hsum : ((s.fs.itable e).copy.size + offset.toUInt32).toNat =
      ((s.fs.itable e).copy.size.toNat + (2 ^ 32 - back) % 2 ^ 32) % 2 ^ 32 := by
    rw [UInt32.toNat_add, hoffset]
  simp only [htarget, Option.some.injEq, exists_eq_left']
  rw [zero_le_toInt32, UInt32.le_iff_toNat_le]
  show _ ∧ ((s.fs.itable e).copy.size + offset.toUInt32).toNat ≤ _ ↔ _
  rw [hsum]
  omega

structure Sys.SameIps (s s' : Sys) : Prop where
  fs : s'.fs = s.fs
  outstanding : s'.outstanding = s.outstanding
  ips : ∀ f, (s'.file .kftable f).ip = (s.file .kftable f).ip

theorem Sys.SameIps.trans {s'' : Sys} (h : s.SameIps s') (h' : s'.SameIps s'') : s.SameIps s'' :=
  ⟨h'.fs.trans h.fs, h'.outstanding.trans h.outstanding, fun f => (h'.ips f).trans (h.ips f)⟩

theorem modifyFile_returns_ips {g : File → File} (hg : ∀ file, (g file).ip = file.ip) :
    Returns (fun _ s' => s.SameIps s' ∧ s'.file .kftable f = g (s.file .kftable f))
      (modifyFile .kftable f g) s := by
  refine ⟨⟨rfl, rfl, fun f' => ?_⟩, ?_⟩
  · show ((s.setFile .kftable f _).file .kftable f').ip = _
    rw [Sys.setFile_self, put_apply]
    split
    · next hf => rw [hf, hg]
    · rfl
  · show (s.setFile .kftable f _).file .kftable f = _
    rw [Sys.setFile_self, put_self]

theorem kfilealloc_returns : Returns (fun r s' => r = s.kslot ∧ s.SameIps s') kfilealloc s := by
  unfold kfilealloc allocIn Returns
  rw [wp_bind, wp_get]
  split
  · next hslot => exact ⟨hslot.symm, rfl, rfl, fun _ => rfl⟩
  · next f hslot =>
    refine Returns.bind (modifyFile_returns_ips fun _ => rfl) fun _ s' ⟨hs', _⟩ => ?_
    exact ⟨hslot.symm, hs'⟩

theorem Sys.Shows.seek_records_iff (h : s.Shows f e) :
    s.SeekOk f (-10 * .ofNat REPORT) SEEK_END ↔ s.fs.TenRecords e :=
  h.seek_end_iff (by decide) (by decide)

theorem Sys.Shows.seek_last_iff (h : s.Shows f e) :
    s.SeekOk f 0 SEEK_END ↔ (s.fs.itable e).copy.size.toNat < 2 ^ 31 := by
  rw [h.seek_end_iff (show (0 : Int32).toUInt32.toNat = (2 ^ 32 - 0) % 2 ^ 32 by decide) (by decide)]
  omega

theorem small_of_observe (h : s'.observe State.huge = s.observe State.huge) :
    (s'.fs.itable e).copy.size.toNat < 2 ^ 31 ↔ (s.fs.itable e).copy.size.toNat < 2 ^ 31 := by
  have hhuge : decide (2 ^ 31 ≤ (s'.fs.itable e).copy.size.toNat) =
      decide (2 ^ 31 ≤ (s.fs.itable e).copy.size.toNat) := congrFun (congrArg (fun v => v.2.2) h) e
  rw [← not_le, ← not_le, decide_eq_decide.mp hhuge]

theorem tenRecords_of_observe (h : s'.observe State.sizes = s.observe State.sizes) :
    s'.fs.TenRecords e ↔ s.fs.TenRecords e := by
  have hsize : (s'.fs.itable e).copy.size = (s.fs.itable e).copy.size :=
    congrFun (congrArg (fun v => v.2.2) h) e
  unfold State.TenRecords
  rw [hsize]

theorem sysrepRead_outstanding (rt : Bytes) (h : s.Shows f e) :
    Returns (fun _ s' => s.LeaksUnless (s.fs.TenRecords e) s') (sysrepRead sb f rt) s := by
  have hinert : Inert State.sizes := sizes_inert id
  unfold sysrepRead
  refine .bind (modifyFile_returns_ips fun _ => rfl) fun _ s₁ ⟨hs₁, hfile₁⟩ => ?_
  have h₁ : s₁.Shows f e := ⟨by rw [hfile₁]; exact h.ip, by rw [hfile₁]; exact h.type⟩
  refine .bind (wp_and (kfileseek_keeps sb f hinert 0 SEEK_SET s₁)
    (kfileseek_outstanding sb f 0 SEEK_SET s₁)) fun _ s₂ ⟨hobs₂, hseek₂, _⟩ => ?_
  have hout₂ := hseek₂ h₁.seek_start
  have h₂ := h₁.of_observe hobs₂
  refine .bind (readInto_frames sb f hinert rt _ _ s₂ rfl) fun rt' s₃ ⟨hobs₃, hout₃⟩ => ?_
  have h₃ := h₂.of_observe hobs₃
  refine .bind (kfileseek_outstanding sb f _ SEEK_END s₃) fun _ s₄ hseek₄ => ?_
  refine .bind (readRecords_frames sb f hinert _ 0 rt' s₄ rfl) fun rt'' s₅ ⟨_, hout₅⟩ => ?_
  refine .bind (closeIn_closed sb f .kftable s₅ trivial) fun _ s₆ ⟨_, hout₆⟩ => ?_
  -- the size that the second seek sees is the one at the start
  rw [h₃.seek_records_iff, tenRecords_of_observe hobs₃, tenRecords_of_observe hobs₂,
    hs₁.fs] at hseek₄
  refine hseek₄.around ?_ ?_
  · rw [hout₃, add_zero, hout₂, hs₁.outstanding]
  · show s₆.outstanding = _
    rw [hout₆, add_zero, hout₅, add_zero]

theorem sysrep_outstanding (rt : Bytes) (s : Sys) :
    Returns (fun _ s' => s.LeaksUnless s.ReadOk s') (sysrep sb rt) s := by
  unfold sysrep
  refine kfilealloc_returns.bind fun r s₁ ⟨hslot, hs₁⟩ => ?_
  match r with
  | none => exact trivial
  | some f =>
    refine .bind (modifyFile_returns_ips fun _ => rfl) fun _ s₂ ⟨hs₂', hfile⟩ => ?_
    have hs₂ := hs₁.trans hs₂'
    unfold Returns
    rw [wp_bind, wp_get]
    split
    · next hnone =>
      -- no inode: the file is made in a transaction of its own
      have hok : s.ReadOk := by
        intro f' e hf' he
        have hff : f' = f := Option.some.inj (hf'.symm.trans hslot.symm)
        subst hff
        rw [hs₂.ips, he] at hnone
        cases hnone
      refine Returns.mono (R := fun _ s' => True ∧ s'.outstanding = s₂.outstanding + 0) ?_
        fun _ s' ⟨_, hout⟩ => ⟨fun _ => ?_, fun h => absurd hok h⟩
      · unfold sysrepCreate
        refine transaction_closed sb (liftFs_closed _) (fun ip => ?_) s₂ trivial
        refine .bind_zero (modifyFile_closed f .kftable _) fun _ => ?_
        cases ip with
        | none => exact .throw
        | some e =>
          refine .bind_zero (liftFs_closed _) fun _ => ?_
          exact (endOp_opens sb).bind fun _ => .pure rfl
      · rw [hout, add_zero, hs₂.outstanding]
    · next hsome =>
      obtain ⟨e, he⟩ := Option.ne_none_iff_exists'.mp hsome
      have hshow : s₂.Shows f e := ⟨he, by rw [hfile]⟩
      have hiff : s.ReadOk ↔ s₂.fs.TenRecords e := by
        rw [hs₂.fs]
        rw [hs₂.ips] at he
        constructor
        · exact fun h => h f e hslot.symm he
        · intro h f' e' hf' he'
          have hff : f' = f := Option.some.inj (hf'.symm.trans hslot.symm)
          subst hff
          have hee : e' = e := Option.some.inj (he'.symm.trans he)
          subst hee
          exact h
      rw [hiff]
      exact (sysrepRead_outstanding sb rt hshow).mono fun _ _ h => h.around hs₂.outstanding rfl

theorem writeReport_outstanding (count : Int32) (r : Bytes) (h : s.Shows f e) :
    Returns (fun _ s' => s.LeaksUnless ((s.fs.itable e).copy.size.toNat < 2 ^ 31) s')
      (writeReport sb f count r) s := by
  unfold writeReport
  refine .bind (wp_and (kfileseek_keeps sb f huge_inert 0 SEEK_SET s)
    (kfileseek_outstanding sb f 0 SEEK_SET s)) fun _ s₁ ⟨hobs₁, hseek₁, _⟩ => ?_
  have hout₁ := hseek₁ h.seek_start
  have h₁ := h.of_observe hobs₁
  have hwrite := fun src n s => kfilewrite_frames sb f huge_inert (writei_keeps_huge sb) src n 0 s rfl
  refine .bind (hwrite _ _ s₁) fun _ s₂ ⟨hobs₂, hout₂⟩ => ?_
  have h₂ := h₁.of_observe hobs₂
  refine .bind (kfileseek_outstanding sb f 0 SEEK_END s₂) fun _ s₃ hseek₃ => ?_
  refine .bind (hwrite _ _ s₃) fun _ s₄ ⟨_, hout₄⟩ => ?_
  refine .mono (closeIn_closed sb f .kftable s₄ trivial) fun _ s₅ ⟨_, hout₅⟩ => ?_
  rw [h₂.seek_last_iff, small_of_observe hobs₂, small_of_observe hobs₁] at hseek₃
  refine hseek₃.around ?_ ?_
  · rw [hout₂, add_zero, hout₁]
  · rw [hout₅, add_zero, hout₄, add_zero]

theorem writeReport_null (count : Int32) (r : Bytes) (hip : (s.file .kftable f).ip = none)
    (htype : (s.file .kftable f).type = .FD_INODE) :
    Returns (fun _ _ => False) (writeReport sb f count r) s := by
  unfold writeReport
  refine .bind (R := fun _ _ => False) ?_ fun _ _ h => h.elim
  unfold kfileseek Returns
  rw [wp_bind, wp_get, if_neg (not_not_intro htype)]
  refine (beginOp_run sb s).bind fun _ s₁ hs₁ => ?_
  subst hs₁
  rw [if_neg (fun h => h.1 rfl)]
  refine (ksize_returns f _).bind fun size s₂ ⟨_, e, he, _⟩ => ?_
  have he' : (s.file .kftable f).ip = some e := he
  rw [hip] at he'
  cases he'

theorem openReports_returns : Returns (fun _ s' => s'.outstanding = s.outstanding ∧
      (s'.file .kftable f).type = (s.file .kftable f).type ∧
      ((s.file .kftable f).ip ≠ none ∧ s' = s ∨ (s.file .kftable f).ip = none ∧ ∃ ip fs,
          kfilecreate sb reportsPath T_FILE 0 0 s.fs = .ok (ip, fs) ∧
          (s'.file .kftable f).ip = ip ∧ s'.fs.itable = fs.itable)) (openReports sb f) s := by
  unfold openReports Returns
  rw [wp_bind, wp_get]
  split
  · next hnone =>
    refine (beginOp_run sb s).bind fun _ s₁ hs₁ => ?_
    subst hs₁
    refine (liftFs_run _ _).bind fun ip s₂ ⟨fs, hcreate, hs₂⟩ => ?_
    subst hs₂
    refine .bind (R := fun _ s₃ =>
      s₃ = ((s.setOutstanding (s.outstanding + 1)).setFs fs).setFile .kftable f
        { s.file .kftable f with ip := ip }) rfl fun _ s₃ hs₃ => ?_
    subst hs₃
    refine .mono (endOp_run sb _) fun _ s₄ ⟨lh, hs₄, _⟩ => ?_
    subst hs₄
    refine ⟨?_, ?_, .inr ⟨hnone, ip, fs, hcreate, ?_, rfl⟩⟩
    · show s.outstanding + 1 - 1 = s.outstanding
      omega
    · show ((Sys.setFile _ .kftable f _).file .kftable f).type = _
      rw [Sys.setFile_self, put_self]
    · show ((Sys.setFile _ .kftable f _).file .kftable f).ip = _
      rw [Sys.setFile_self, put_self]
  · next hsome => exact ⟨rfl, rfl, .inl ⟨hsome, rfl⟩⟩

theorem storeTail_outstanding (r : Bytes) (h : s.Shows f e) :
    Returns (fun _ s' => s.LeaksUnless ((s.fs.itable e).copy.size.toNat < 2 ^ 31) s') (do
        modifyFile .kftable f fun file => { file with off := 0, writable := true, ref := 1 }
        let count ← pushReport r
        writeReport sb f count r) s := by
  refine .bind (modifyFile_returns_ips fun _ => rfl) fun _ s₁ ⟨hs₁, hfile₁⟩ => ?_
  have h₁ : s₁.Shows f e := ⟨by rw [hfile₁]; exact h.ip, by rw [hfile₁]; exact h.type⟩
  refine .bind (R := fun _ s₂ => s₂.file = s₁.file ∧ s₂.fs = s₁.fs ∧
    s₂.outstanding = s₁.outstanding) ⟨rfl, rfl, rfl⟩ fun count s₂ ⟨hfile₂, hfs₂, hout₂⟩ => ?_
  have h₂ : s₂.Shows f e := ⟨by rw [hfile₂]; exact h₁.ip, by rw [hfile₂]; exact h₁.type⟩
  rw [← hs₁.fs, ← hfs₂]
  exact (writeReport_outstanding sb count r h₂).mono fun _ _ h =>
    h.around (hout₂.trans hs₁.outstanding) rfl

theorem storeTrap_outstanding (r : Bytes) (s : Sys) :
    Returns (fun _ s' => s.LeaksUnless (s.StoreOk sb) s') (storeTrap sb r) s := by
  unfold storeTrap
  refine kfilealloc_returns.bind fun o s₁ ⟨hslot, hs₁⟩ => ?_
  match o with
  | none => exact trivial
  | some f =>
    refine .bind (modifyFile_returns_ips fun _ => rfl) fun _ s₂ ⟨hs₂', hfile⟩ => ?_
    have hs₂ := hs₁.trans hs₂'
    refine (openReports_returns sb).bind fun _ s₃ ⟨hout₃, htype₃, hcases⟩ => ?_
    rw [hfile] at htype₃
    rw [hs₂.ips, hs₂.fs] at hcases
    -- what the condition says about the inode that is in the file now
    have hiff : ∀ e, (s₃.file .kftable f).ip = some e →
        (s.StoreOk sb ↔ (s₃.fs.itable e).copy.size.toNat < 2 ^ 31) := by
      intro e he
      unfold Sys.StoreOk
      rw [← hslot]
      rcases hcases with ⟨hsome, rfl⟩ | ⟨hnone, ip, fs, hcreate, hip, htable⟩
      · rw [hs₂.fs]
        rw [hs₂.ips] at he
        simp [he]
      · rw [hip] at he
        subst he
        rw [htable]
        simp [hnone, hcreate]
    match hip : (s₃.file .kftable f).ip with
    | none =>
      refine .bind (modifyFile_returns_ips fun _ => rfl) fun _ s₄ ⟨hs₄, hfile₄⟩ => ?_
      refine .bind (R := fun _ (s₅ : Sys) => s₅.file = s₄.file) rfl fun count s₅ hfile₅ => ?_
      refine .mono (writeReport_null sb count r ?_ ?_) fun _ _ h => h.elim
      · rw [hfile₅, hs₄.ips, hip]
      · rw [hfile₅, hfile₄, htype₃]
    | some e =>
      rw [hiff e hip]
      exact (storeTail_outstanding sb r ⟨hip, htype₃⟩).mono fun _ _ h =>
        h.around (hout₃.trans hs₂.outstanding) rfl

end Reports

/-! ## §6. Runs. -/

inductive ReportCall where
  | seek (f : Fin NFILE) (offset whence : Int32)
  | write (f : Fin NFILE) (src : Bytes) (n : Int32) (other : Int)
  | close (f : Fin NFILE)
  | store (r : Bytes)
  | rep (rt : Bytes)

def ReportCall.run (sb : Superblock) : ReportCall → SysM Unit
  | .seek f offset whence => kfileseek sb f offset whence >>= fun _ => pure ()
  | .write f src n other => kfilewrite sb f src n other >>= fun _ => pure ()
  | .close f => kfileclose sb f
  | .store r => storeTrap sb r
  | .rep rt => sysrep sb rt >>= fun _ => pure ()

/-- Every seek of the call ends inside the file. -/
def ReportCall.Inside (sb : Superblock) (s : Sys) : ReportCall → Prop
  | .seek f offset whence => s.SeekOk f offset whence
  | .write _ _ _ _ => True
  | .close _ => True
  | .store _ => s.StoreOk sb
  | .rep _ => s.ReadOk

def ReportStep (sb : Superblock) (s s' : Sys) : Prop := ∃ c : ReportCall,
  c.Inside sb s ∧ c.run sb s = .ok ((), s')

theorem ReportCall.outstanding (sb : Superblock) (c : ReportCall) (s : Sys) :
    Returns (fun _ s' => s.LeaksUnless (c.Inside sb s) s') (c.run sb) s := by
  have hclosed : ∀ {s' : Sys}, s'.outstanding = s.outstanding + 0 → s.LeaksUnless True s' :=
    fun h => ⟨fun _ => by rw [h, add_zero], fun hn => absurd trivial hn⟩
  cases c with
  | seek f offset whence =>
    exact (kfileseek_outstanding sb f offset whence s).bind fun _ _ h => h
  | write f src n other =>
    exact .bind (kfilewrite_frames sb f huge_inert (writei_keeps_huge sb) src n other s rfl)
      fun _ _ h => hclosed h.2
  | close f => exact .mono (closeIn_closed sb f .kftable s trivial) fun _ _ h => hclosed h.2
  | store r => exact storeTrap_outstanding sb r s
  | rep rt => exact (sysrep_outstanding sb rt s).bind fun _ _ h => h

theorem smallBoot_storeOk : smallBoot.StoreOk smallSb := by
  have hsmall : ((kfilecreate smallSb reportsPath T_FILE 0 0 smallBoot.fs).toOption.all fun r =>
      r.1.all fun e => (r.2.itable e).copy.size.toNat < 2 ^ 31) = true := by
    decide +kernel
  intro f _
  refine ⟨fun e he => ?_, fun _ e fs hcreate => ?_⟩
  · cases he
  · rw [hcreate] at hsmall
    exact of_decide_eq_true hsmall

end Xv6.Fs
