/-
  Xv6.Fs.Seek — fileseek (file.c) and sys_seek (sysfile.c).

  sys_seek takes its descriptor as it comes, and fileseek returns from its failing
  exits with the inode still locked; the position is computed in 32 bits.
-/
import Xv6.Fs.Balance
import Xv6.Fs.Lookup
import Xv6.Fs.Reports

namespace Xv6.Fs

open Lib Comp

/-! ## §1. The functions. -/

section Functions

variable (sb : Superblock)

/-- fileseek.  The two failing exits behind ilock do not unlock. -/
def fileseek (f : Fin NFILE) (offset whence : Int32) : SysM Int32 := do
  let file := (← get).file .ftable f
  if file.type ≠ .FD_INODE then pure (-1)
  else do
    beginOp sb
    let size ← liftFs (do
      let e ← deref file.ip
      ilock sb e
      pure ((← get).itable e).copy.size)
    match seekTarget file.off size offset whence with
    | none => do
      endOp sb
      pure (-1)
    | some newOffset =>
      if newOffset < 0 ∨ newOffset.toUInt32 > size then do
        endOp sb
        pure (-1)
      else do
        modifyFile .ftable f fun file => { file with off := newOffset.toUInt32 }
        liftFs (deref file.ip >>= iunlock)
        endOp sb
        pure newOffset

def InOfile (fd : Int32) : Prop := 0 ≤ fd.toInt ∧ fd.toInt < NOFILE

instance (fd : Int32) : Decidable (InOfile fd) := inferInstanceAs (Decidable (_ ∧ _))

def InOfile.index {fd : Int32} (h : InOfile fd) : Fin NOFILE :=
  ⟨fd.toInt.toNat, by unfold InOfile at h; omega⟩

/-- sys_seek. `fd` is not checked; the model stops if `myproc()->ofile[fd]` is outside of the array.
-/
def sysSeek (p : Slot) (fd offset whence : Int32) : SysM Int32 := do
  let s ← get
  if h : InOfile fd then
    match s.ofile p h.index with
    | none => pure (-1)
    | some f => fileseek sb f offset whence
  else throw (.panic "ofile[fd]")

end Functions

/-! ## §2. What is asked of it. -/

/-- The position that is asked for, without wrap-around. -/
def position (off size : UInt32) (offset whence : Int32) : Option Int :=
  if whence = SEEK_SET then some offset.toInt
  else if whence = SEEK_CUR then some (off.toNat + offset.toInt)
  else if whence = SEEK_END then some (size.toNat + offset.toInt)
  else none

def Inside (off size : UInt32) (offset whence : Int32) (n : Int) : Prop :=
  position off size offset whence = some n ∧ 0 ≤ n ∧ n ≤ size.toNat

structure Seekable (sb : Superblock) (s : Sys) (f : Fin NFILE) (e : Fin NINODE) : Prop where
  ip : (s.file .ftable f).ip = some e
  settled : Settled sb s.fs
  ref : 1 ≤ (s.fs.itable e).ref
  unlocked : (s.fs.itable e).locked = false
  allocated : (dinodeAt sb s.fs.disk (s.fs.itable e).inum).type ≠ 0
  space : (s.fs.lh.length : Int) + (s.outstanding + 1) * LogLayer.MAXOPBLOCKS ≤ LogLayer.LOGSIZE

def fileSize (sb : Superblock) (s : Sys) (e : Fin NINODE) : UInt32 :=
  (dinodeAt sb s.fs.disk (s.fs.itable e).inum).size

structure Sought (sb : Superblock) (s : Sys) (f : Fin NFILE) (e : Fin NINODE)
    (offset whence : Int32) (r : Int32) (s' : Sys) : Prop where
  moved : ∀ n, Inside (s.file .ftable f).off (fileSize sb s e) offset whence n →
    r.toInt = n ∧ (s'.file .ftable f).off.toNat = n
  refused : (¬ ∃ n, Inside (s.file .ftable f).off (fileSize sb s e) offset whence n) →
    r = -1 ∧ (s'.file .ftable f).off = (s.file .ftable f).off
  unlocked : (s'.fs.itable e).locked = false
  closed : s'.outstanding = s.outstanding

/-- **What sys_seek should do**: stay inside `ofile`, and return with the lock released and the
transaction closed. -/
def SeekSafe (sb : Superblock) (s : Sys) (p : Slot) (fd offset whence : Int32) : Prop :=
  ∃ h : InOfile fd, ∃ r s', sysSeek sb p fd offset whence s = .ok (r, s') ∧
    match s.ofile p h.index with
    | none => r = -1 ∧ s' = s
    | some f =>
      ((s.file .ftable f).type ≠ .FD_INODE → r = -1 ∧ s' = s) ∧
      ∀ e, (s.file .ftable f).type = .FD_INODE → (s.file .ftable f).ip = some e →
        Sought sb s f e offset whence r s'

/-- The descriptor is one, and a seek in an FD_INODE file asks for a position
inside it that an `int` can hold. -/
def SeekGood (sb : Superblock) (s : Sys) (p : Slot) (fd offset whence : Int32) : Prop :=
  ∃ h : InOfile fd, ∀ f e, s.ofile p h.index = some f → (s.file .ftable f).type = .FD_INODE →
    (s.file .ftable f).ip = some e →
      ∃ n, Inside (s.file .ftable f).off (fileSize sb s e) offset whence n ∧ n < 2 ^ 31

/-! ## §3. Running it. -/

section Run

variable {sb : Superblock} {s : Sys} {f : Fin NFILE} {e : Fin NINODE}

theorem liftFs_ok {α : Type} {m : FsM α} {a : α} {fs : State} (h : m s.fs = .ok (a, fs)) :
    liftFs m s = .ok (a, s.setFs fs) := by
  show Comp.zoom _ _ m s = _
  unfold Comp.zoom
  rw [h]

theorem beginOp_ok (h : (s.fs.lh.length : Int) + (s.outstanding + 1) * LogLayer.MAXOPBLOCKS ≤
    LogLayer.LOGSIZE) : beginOp sb s = .ok ((), s.setOutstanding (s.outstanding + 1)) := by
  have hlog : LogLayer.beginOp (s.log sb) =
      some { s.log sb with outstanding := s.outstanding + 1 } := by
    unfold LogLayer.beginOp
    rw [if_neg (by exact Bool.false_ne_true)]
    exact if_neg (not_lt.mpr h)
  unfold beginOp
  rw [get_bind, hlog]
  rfl

theorem endOp_ok (sb : Superblock) (s : Sys) : ∃ lh, endOp sb s =
    .ok ((), (s.setOutstanding (s.outstanding - 1)).setFs { s.fs with lh := lh }) := by
  unfold endOp
  rw [get_bind]
  cases hlog : LogLayer.endOp (s.log sb) with
  | error err =>
    unfold LogLayer.endOp at hlog
    dsimp only at hlog
    rw [if_neg (by exact Bool.false_ne_true)] at hlog
    split at hlog <;> cases hlog
  | ok r =>
    obtain ⟨_, ⟨hone, hr, hr'⟩ | ⟨_, hr, hr'⟩⟩ := LogLayer.endOp_eq_ok hlog
    · have hout : s.outstanding - 1 = 0 := by
        rw [show s.outstanding = 1 from hone]
        rfl
      exact ⟨[], by rw [hout, ← Prod.mk.eta (p := r), hr, hr']; rfl⟩
    · exact ⟨s.fs.lh, by rw [← Prod.mk.eta (p := r), hr, hr']; rfl⟩

def accepted (off size : UInt32) (offset whence : Int32) : Option Int32 :=
  (seekTarget off size offset whence).filter fun n => 0 ≤ n ∧ n.toUInt32 ≤ size

theorem fileseek_run (h : Seekable sb s f e) (htype : (s.file .ftable f).type = .FD_INODE)
    (offset whence : Int32) :
    ∃ s', s'.outstanding = s.outstanding ∧
      match accepted (s.file .ftable f).off (fileSize sb s e) offset whence with
      | none => fileseek sb f offset whence s = .ok (-1, s') ∧ (s'.fs.itable e).locked = true ∧
        s'.file = s.file
      | some n => fileseek sb f offset whence s = .ok (n, s') ∧ (s'.fs.itable e).locked = false ∧
        (s'.file .ftable f).off = n.toUInt32 := by
  obtain ⟨s₁, hs₁⟩ : ∃ s₁, s₁ = s.setOutstanding (s.outstanding + 1) := ⟨_, rfl⟩
  obtain ⟨fs, hlock, _, _, hat⟩ := ilock_run h.settled h.ref h.unlocked h.allocated
  obtain ⟨s₂, hs₂⟩ : ∃ s₂, s₂ = s₁.setFs fs := ⟨_, rfl⟩
  have hrun : ∀ g : UInt32 → SysM Int32, (liftFs (do
      let e ← deref (s.file .ftable f).ip
      ilock sb e
      pure ((← get).itable e).copy.size) >>= g) s₁ = g (fileSize sb s e) s₂ := by
    intro g
    refine bind_ok ?_
    rw [hs₂]
    refine liftFs_ok ?_
    rw [h.ip, hs₁]
    show (ilock sb e >>= fun _ => _) s.fs = _
    rw [bind_ok hlock, get_bind]
    show Except.ok ((fs.itable e).copy.size, fs) = _
    rw [hat]
    rfl
  obtain ⟨lh, hend⟩ := endOp_ok sb s₂
  have hfail : (endOp sb >>= fun _ => pure (-1) : SysM Int32) s₂ =
      .ok (-1, (s₂.setOutstanding (s₂.outstanding - 1)).setFs { s₂.fs with lh := lh }) := by
    rw [bind_ok hend]
    rfl
  have hout : s₂.outstanding - 1 = s.outstanding := by
    rw [hs₂, hs₁]
    show s.outstanding + 1 - 1 = _
    omega
  have hlocked : (s₂.fs.itable e).locked = true := by rw [hs₂]; exact congrArg Inode.locked hat
  unfold fileseek accepted
  rw [get_bind, if_neg (not_not_intro htype), bind_ok (beginOp_ok h.space), ← hs₁, hrun]
  cases htarget : seekTarget (s.file .ftable f).off (fileSize sb s e) offset whence with
  | none => exact ⟨_, hout, hfail, hlocked, by rw [hs₂, hs₁]; rfl⟩
  | some n =>
    by_cases hin : 0 ≤ n ∧ n.toUInt32 ≤ fileSize sb s e
    · have hgo : ¬ (n < 0 ∨ n.toUInt32 > fileSize sb s e) := by
        rw [not_or, Int32.not_lt, UInt32.not_lt]
        exact hin
      obtain ⟨s₃, hs₃⟩ : ∃ s₃, s₃ = s₂.setFile .ftable f
          { s₂.file .ftable f with off := n.toUInt32 } := ⟨_, rfl⟩
      have hunlock : (deref (s.file .ftable f).ip >>= iunlock) s₃.fs =
          .ok ((), s₃.fs.setInode e { s₃.fs.itable e with locked := false }) := by
        rw [h.ip]
        show iunlock e s₃.fs = _
        have hat₃ : s₃.fs.itable e = fs.itable e := by rw [hs₃, hs₂]; rfl
        unfold iunlock
        rw [get_bind, if_neg (by rw [hat₃, hat, not_or]; exact ⟨by simp, by simpa using h.ref⟩)]
        rfl
      obtain ⟨s₄, hs₄⟩ : ∃ s₄, s₄ = s₃.setFs
          (s₃.fs.setInode e { s₃.fs.itable e with locked := false }) := ⟨_, rfl⟩
      obtain ⟨lh', hend'⟩ := endOp_ok sb s₄
      refine ⟨(s₄.setOutstanding (s₄.outstanding - 1)).setFs { s₄.fs with lh := lh' }, ?_, ?_⟩
      · show s₄.outstanding - 1 = _
        rw [hs₄, hs₃]
        exact hout
      · rw [Option.filter_some, if_pos (by simpa using hin)]
        refine ⟨?_, ?_, ?_⟩
        · dsimp only
          rw [if_neg hgo]
          show (liftFs _ >>= fun _ => _) (s₂.setFile .ftable f _) = _
          rw [← hs₃, bind_ok (liftFs_ok hunlock), ← hs₄, bind_ok hend']
          rfl
        · show (s₄.fs.itable e).locked = false
          rw [hs₄]
          show ((State.setInode _ e _).itable e).locked = false
          rw [State.setInode_itable, if_pos rfl]
        · show (s₄.file .ftable f).off = _
          rw [hs₄, hs₃]
          show ((s₂.setFile .ftable f _).file .ftable f).off = _
          rw [Sys.setFile_self, put_self]
    · have hstop : n < 0 ∨ n.toUInt32 > fileSize sb s e := by
        by_contra hno
        rw [not_or, Int32.not_lt, UInt32.not_lt] at hno
        exact hin hno
      rw [Option.filter_some, if_neg (by simpa using hin)]
      refine ⟨(s₂.setOutstanding (s₂.outstanding - 1)).setFs { s₂.fs with lh := lh },
        hout, ?_, hlocked, by rw [hs₂, hs₁]; rfl⟩
      dsimp only
      rw [if_pos hstop, hfail]

theorem toInt_add (u : UInt32) (offset : Int32) (h0 : 0 ≤ u.toNat + offset.toInt)
    (h : u.toNat + offset.toInt < 2 ^ 31) :
    (u + offset.toUInt32).toInt32.toInt = u.toNat + offset.toInt := by
  show (u.toBitVec + offset.toBitVec).toInt = u.toBitVec.toNat + offset.toBitVec.toInt
  change 0 ≤ (u.toBitVec.toNat : Int) + offset.toBitVec.toInt at h0
  change (u.toBitVec.toNat : Int) + offset.toBitVec.toInt < 2 ^ 31 at h
  have hu := u.toBitVec.isLt
  rw [BitVec.toInt_add, BitVec.toInt_eq_toNat_bmod u.toBitVec, Int.bmod_add_bmod]
  exact Int.bmod_eq_of_le (by omega) (by omega)

theorem toNat_of_nonneg {n : Int32} (h : 0 ≤ n.toInt) : n.toUInt32.toNat = n.toInt := by
  have hlt := n.toBitVec.isLt
  change 0 ≤ n.toBitVec.toInt at h
  show (n.toBitVec.toNat : Int) = n.toBitVec.toInt
  rw [BitVec.toInt_eq_toNat_cond] at h ⊢
  split at h <;> omega

theorem accepted_of_inside {off size : UInt32} {offset whence : Int32} {n : Int}
    (h : Inside off size offset whence n) (hn : n < 2 ^ 31) :
    ∃ m, accepted off size offset whence = some m ∧ m.toInt = n := by
  obtain ⟨hpos, h0, hsize⟩ := h
  obtain ⟨m, htarget, hm⟩ : ∃ m, seekTarget off size offset whence = some m ∧ m.toInt = n := by
    unfold position at hpos
    unfold seekTarget
    split_ifs at hpos ⊢
    · exact ⟨offset, rfl, Option.some.inj hpos⟩
    · obtain rfl := Option.some.inj hpos
      exact ⟨_, rfl, toInt_add off offset h0 hn⟩
    · obtain rfl := Option.some.inj hpos
      exact ⟨_, rfl, toInt_add size offset h0 hn⟩
  refine ⟨m, ?_, hm⟩
  have hle : 0 ≤ m ∧ m.toUInt32 ≤ size := by
    have hnat := toNat_of_nonneg (n := m) (by omega)
    rw [Int32.le_iff_toInt_le, UInt32.le_iff_toNat_le]
    exact ⟨by rw [hm]; exact h0, by omega⟩
  rw [accepted, htarget, Option.filter_some, if_pos (by simpa using hle)]

theorem accepted_nonneg {off size : UInt32} {offset whence n : Int32}
    (h : accepted off size offset whence = some n) : n ≠ -1 := by
  have hn := (Option.filter_eq_some_iff.mp h).2
  rintro rfl
  exact absurd (of_decide_eq_true hn).1 (by decide)

/-- **When sys_seek is safe.**  For every descriptor table whose open inodes can
be locked, and all arguments. -/
theorem sysSeek_iff (sb : Superblock) (s : Sys) (p : Slot) (fd offset whence : Int32)
    (hready : ∀ i f, s.ofile p i = some f → (s.file .ftable f).type = .FD_INODE →
      ∃ e, Seekable sb s f e) :
    SeekSafe sb s p fd offset whence ↔ SeekGood sb s p fd offset whence := by
  by_cases hfd : InOfile fd
  case neg =>
    exact ⟨fun h => absurd h.1 hfd, fun h => absurd h.1 hfd⟩
  case pos =>
    unfold SeekSafe SeekGood
    have hstart : ∀ o, s.ofile p hfd.index = o → sysSeek sb p fd offset whence s =
        (match o with
          | none => pure (-1)
          | some f => fileseek sb f offset whence : SysM Int32) s := by
      rintro o rfl
      unfold sysSeek
      rw [Comp.get_bind, dif_pos hfd]
    cases hf : s.ofile p hfd.index with
    | none =>
      refine iff_of_true ⟨hfd, -1, s, hstart none hf, ?_⟩ ⟨hfd, fun f e hf' => ?_⟩
      · rw [hf]
        exact ⟨rfl, rfl⟩
      · rw [hf] at hf'
        cases hf'
    | some f =>
      have hrun := hstart (some f) hf
      by_cases htype : (s.file .ftable f).type = .FD_INODE
      case neg =>
        refine iff_of_true ⟨hfd, -1, s, ?_, ?_⟩ ⟨hfd, fun f' e hf' ht => ?_⟩
        · rw [hrun]
          show fileseek sb f offset whence s = _
          unfold fileseek
          rw [Comp.get_bind, if_pos htype]
          rfl
        · rw [hf]
          exact ⟨fun _ => ⟨rfl, rfl⟩, fun e ht => absurd ht htype⟩
        · obtain rfl := Option.some.inj (hf.symm.trans hf')
          exact absurd ht htype
      case pos =>
        obtain ⟨e, he⟩ := hready _ f hf htype
        obtain ⟨s', hout, hends⟩ := fileseek_run he htype offset whence
        have honly : ∀ e', (s.file .ftable f).ip = some e' → e' = e := fun e' h =>
          Option.some.inj (h.symm.trans he.ip)
        constructor
        · rintro ⟨_, r, s'', hseek, hsafe⟩
          rw [hf] at hsafe
          have hsought := hsafe.2 e htype he.ip
          replace hseek : fileseek sb f offset whence s = .ok (r, s'') := hrun.symm.trans hseek
          refine ⟨hfd, fun f' e' hf' _ hip => ?_⟩
          obtain rfl := Option.some.inj (hf.symm.trans hf')
          obtain rfl := honly e' hip
          cases hacc : accepted (s.file .ftable f).off (fileSize sb s e') offset whence with
          | none =>
            rw [hacc] at hends
            -- the inode is left locked
            rw [hends.1] at hseek
            cases hseek
            exact absurd hsought.unlocked (by rw [hends.2.1]; decide)
          | some n =>
            rw [hacc] at hends
            have hlt := n.toInt_lt
            rw [hends.1] at hseek
            cases hseek
            by_cases hin : ∃ k, Inside (s.file .ftable f).off (fileSize sb s e') offset whence k
            · obtain ⟨k, hk⟩ := hin
              refine ⟨k, hk, ?_⟩
              rw [← (hsought.moved k hk).1]
              exact hlt
            · exact absurd (hsought.refused hin).1 (accepted_nonneg hacc)
        · rintro ⟨_, hgood⟩
          obtain ⟨n, hin, hn⟩ := hgood f e hf htype he.ip
          obtain ⟨m, hacc, hm⟩ := accepted_of_inside hin hn
          rw [hacc] at hends
          refine ⟨hfd, m, s', hrun.trans hends.1, ?_⟩
          rw [hf]
          refine ⟨fun h => absurd htype h, fun e' _ hip => ?_⟩
          obtain rfl := honly e' hip
          refine ⟨fun k hk => ?_, fun hno => absurd ⟨n, hin⟩ hno, hends.2.1, hout⟩
          obtain rfl : n = k := Option.some.inj (hin.1.symm.trans hk.1)
          refine ⟨hm, ?_⟩
          rw [hends.2.2, toNat_of_nonneg (by rw [hm]; exact hin.2.1), hm]

end Run

def rootOpen : Sys :=
  { smallBoot with
    fs := { smallBoot.fs with
      itable := fun e => if e = 0 then { Inode.zero with inum := ROOTINO, ref := 2 } else Inode.zero }
    file := fun t f => if t = .ftable ∧ f = 0 then
        { File.zero with type := .FD_INODE, ref := 1, readable := true, ip := some 0 }
      else File.zero
    ofile := fun p fd => if p = 0 ∧ fd = 0 then some 0 else none }

/-- A seek to the end. -/
theorem sysSeek_iff_end : SeekSafe smallSb rootOpen 0 0 0 SEEK_END := by
  refine (sysSeek_iff smallSb rootOpen 0 0 0 SEEK_END ?_).mpr ?_
  · intro i f hf _
    obtain rfl : f = 0 := by
      change (if (0 : Slot) = 0 ∧ i = 0 then some (0 : Fin NFILE) else none) = some f at hf
      split at hf
      · exact (Option.some.inj hf).symm
      · cases hf
    have hrefs : ∀ e, 0 ≤ (rootOpen.fs.itable e).ref ∧ (rootOpen.fs.itable e).valid = false := by
      decide +kernel
    refine ⟨0, rfl, ⟨fun e => (hrefs e).1, fun e _ hv => ?_⟩, ?_, rfl, ?_, ?_⟩
    · rw [(hrefs e).2] at hv
      cases hv
    · decide +kernel
    · decide +kernel
    · decide +kernel
  · refine ⟨by decide, fun f e hf _ hip => ⟨32, ?_, by decide⟩⟩
    obtain rfl := Option.some.inj (show some (0 : Fin NFILE) = some f from hf)
    obtain rfl := Option.some.inj (show some (0 : Fin NINODE) = some e from hip)
    exact ⟨by decide +kernel, by decide, by decide +kernel⟩

/-- seek(0, 33, SEEK_SET) in a directory of 32 bytes leaves it locked; seek(16, …)
reads behind `ofile`. -/
theorem sysSeek_leaks :
    returned (sysSeek smallSb 0 0 33 SEEK_SET) rootOpen
      (fun r s => r == -1 && (s.fs.itable 0).locked && s.outstanding == 0) = true ∧
    returned (sysSeek smallSb 0 16 0 SEEK_SET) rootOpen (fun _ _ => true) = false ∧
    ¬ SeekSafe smallSb rootOpen 0 0 33 SEEK_SET := by
  have hlocked : returned (sysSeek smallSb 0 0 33 SEEK_SET) rootOpen
      (fun r s => r == -1 && (s.fs.itable 0).locked && s.outstanding == 0) = true := by
    decide +kernel
  refine ⟨hlocked, by decide +kernel, ?_⟩
  rintro ⟨_, r, s', hseek, hsafe⟩
  obtain ⟨r', s'', hseek', htest⟩ := exists_of_returned hlocked
  cases hseek.symm.trans hseek'
  have hfree : (s'.fs.itable 0).locked = false := (hsafe.2 0 rfl rfl).unlocked
  rw [hfree] at htest
  simp at htest

end Xv6.Fs
