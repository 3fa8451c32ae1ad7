/-
  Xv6.Fs.Lookup — finding a file by its name.

  `Settled` says that the inodes in memory are copies of those on the disk.
-/
import Xv6.Fs.Mapping

namespace Xv6.Fs

open Lib State Comp List

/-! ## §1. Names. -/

/-- From the first NUL on there are only zeros. -/
def Padded (p : Bytes) : Prop := ∀ i, p i = 0 → ∀ j, i ≤ j → p j = 0

theorem strncmp_congr {p q q' : Bytes} (n i : Nat) (h : ∀ k < n, q (i + k) = q' (i + k)) :
    strncmp p q n i = strncmp p q' n i := by
  induction n generalizing i with
  | zero => rfl
  | succ n ih =>
    have hhead : q i = q' i := h 0 (Nat.succ_pos n)
    have htail := ih (i + 1) fun k hk => by
      rw [Nat.add_assoc, Nat.add_comm 1 k]
      exact h (k + 1) (Nat.succ_lt_succ hk)
    unfold strncmp
    rw [hhead, htail]

theorem strncmp_eq_zero {p q : Bytes} (hp : Padded p) (hq : Padded q) (n i : Nat) :
    strncmp p q n i = 0 ↔ ∀ k < n, p (i + k) = q (i + k) := by
  induction n generalizing i with
  | zero => exact ⟨fun _ k hk => absurd hk (Nat.not_lt_zero k), fun _ => rfl⟩
  | succ n ih =>
    unfold strncmp
    split
    case isTrue hsame =>
      rw [ih (i + 1)]
      constructor
      · intro hrest k hk
        cases k with
        | zero => exact hsame.2
        | succ k =>
          have hbyte := hrest k (Nat.lt_of_succ_lt_succ hk)
          rw [Nat.add_assoc, Nat.add_comm 1 k] at hbyte
          exact hbyte
      · intro hall k hk
        rw [Nat.add_assoc, Nat.add_comm 1 k]
        exact hall (k + 1) (Nat.succ_lt_succ hk)
    case isFalse hstop =>
      constructor
      · intro hdiff
        have heq : p i = q i := UInt8.toNat_inj.mp (by omega)
        have hzero : p i = 0 := by
          by_contra hne
          exact hstop ⟨hne, heq⟩
        intro k _
        rw [hp i hzero _ (Nat.le_add_right i k), hq i (heq ▸ hzero) _ (Nat.le_add_right i k)]
      · intro hall
        have heq : p i = q i := hall 0 (Nat.succ_pos n)
        rw [heq]
        omega

section Cstr

variable {l k : List UInt8}

theorem cstr_of_le {i : Nat} (h : l.length ≤ i) : cstr l i = 0 := getD_eq_default _ _ h

theorem cstr_ne_zero (h0 : 0 ∉ l) {i : Nat} (h : i < l.length) : cstr l i ≠ 0 := by
  unfold cstr
  rw [getD_eq_getElem _ _ h]
  exact fun he => h0 (he ▸ getElem_mem h)

theorem padded_cstr (h0 : 0 ∉ l) : Padded (cstr l) := by
  intro i hi j hij
  have hle : l.length ≤ i := by
    by_contra hlt
    exact cstr_ne_zero h0 (Nat.lt_of_not_le hlt) hi
  exact cstr_of_le (hle.trans hij)

theorem strncpy_cstr (h0 : 0 ∉ l) : strncpy (cstr l) = cstr l := by
  funext i
  unfold strncpy
  split
  case isTrue hnul =>
    obtain ⟨j, hj, hzero⟩ := hnul
    exact (padded_cstr h0 j hzero i (Nat.le_of_lt hj)).symm
  case isFalse => rfl

theorem namecmp_cstr (hl : 0 ∉ l) (hk : 0 ∉ k) (hllen : l.length ≤ DIRSIZ)
    (hklen : k.length ≤ DIRSIZ) : namecmp (cstr l) (cstr k) = 0 ↔ l = k := by
  unfold namecmp
  rw [strncmp_eq_zero (padded_cstr hl) (padded_cstr hk)]
  constructor
  · intro hall
    have hbyte : ∀ i, cstr l i = cstr k i := by
      intro i
      by_cases hi : i < DIRSIZ
      · have h := hall i hi
        rw [Nat.zero_add] at h
        exact h
      · rw [cstr_of_le (by omega), cstr_of_le (by omega)]
    have hlen : ∀ {a b : List UInt8}, 0 ∉ a → (∀ i, cstr a i = cstr b i) → a.length ≤ b.length := by
      intro a b ha hab
      by_contra hlt
      have hne := cstr_ne_zero ha (Nat.lt_of_not_le hlt)
      rw [hab, cstr_of_le le_rfl] at hne
      exact hne rfl
    apply ext_getElem (Nat.le_antisymm (hlen hl hbyte) (hlen hk fun i => (hbyte i).symm))
    intro i hil hik
    have h := hbyte i
    unfold cstr at h
    rw [getD_eq_getElem _ _ hil, getD_eq_getElem _ _ hik] at h
    exact h
  · rintro rfl i _
    rfl

structure IsName (l : List UInt8) : Prop where
  nonempty : l ≠ []
  slash : SLASH ∉ l
  nul : 0 ∉ l
  length : l.length ≤ DIRSIZ

theorem skipelem_name (h : IsName l) : skipelem (SLASH :: l) = some (cstr l, []) := by
  have hdrop : (SLASH :: l).dropWhile (· = SLASH) = l := by
    rw [dropWhile_cons_of_pos (by simp)]
    cases l with
    | nil => rfl
    | cons c l =>
      have hc : c ≠ SLASH := fun he => h.slash (he ▸ mem_cons_self)
      rw [dropWhile_cons_of_neg (by simpa using hc)]
  have htake : l.takeWhile (fun c => c ≠ SLASH ∧ c ≠ 0) = l := by
    rw [takeWhile_eq_self_iff]
    intro c hc
    have h1 : c ≠ SLASH := fun he => h.slash (he ▸ hc)
    have h2 : c ≠ 0 := fun he => h.nul (he ▸ hc)
    simp [h1, h2]
  unfold skipelem
  dsimp only
  rw [hdrop, htake, if_neg h.nonempty, take_of_length_le h.length, drop_length]
  rfl

end Cstr

/-! ## §2. The inode table. -/

section Table

variable (sb : Superblock)

structure Settled (s : State) : Prop where
  refs : ∀ e, 0 ≤ (s.itable e).ref
  copies : ∀ e, 0 < (s.itable e).ref → (s.itable e).valid = true →
    (s.itable e).copy = dinodeAt sb s.disk (s.itable e).inum

variable {sb} {s : State} {e : Fin NINODE}

theorem Settled.setInode (h : Settled sb s) {ip : Inode} (href : 0 ≤ ip.ref)
    (hcopy : 0 < ip.ref → ip.valid = true → ip.copy = dinodeAt sb s.disk ip.inum) :
    Settled sb (s.setInode e ip) := by
  constructor
  · intro f
    rw [setInode_itable]
    split
    case isTrue => exact href
    case isFalse => exact h.refs f
  · intro f
    rw [setInode_itable]
    split
    case isTrue => exact hcopy
    case isFalse => exact h.copies f

structure OnlyAt (s s' : State) (e : Fin NINODE) : Prop where
  disk : s'.disk = s.disk
  others : ∀ f, f ≠ e → s'.itable f = s.itable f

theorem onlyAt_setInode (s : State) (e : Fin NINODE) (ip : Inode) : OnlyAt s (s.setInode e ip) e := by
  refine ⟨rfl, fun f hf => ?_⟩
  rw [setInode_itable, if_neg hf]

structure Got (sb : Superblock) (s s' : State) (inum : Nat) (e : Fin NINODE) : Prop where
  settled : Settled sb s'
  only : OnlyAt s s' e
  number : (s'.itable e).inum = inum
  ref : 1 ≤ (s'.itable e).ref
  locked : (s'.itable e).locked = (s.itable e).locked
  same : 0 < (s.itable e).ref → (s.itable e).inum = inum

theorem iget_run (h : Settled sb s) (hfree : ∃ e, (s.itable e).ref = 0) (inum : Nat) :
    ∃ e s', iget inum s = .ok (e, s') ∧ Got sb s s' inum e := by
  unfold iget
  rw [get_bind]
  cases hfind : findInode s.itable inum with
  | some e =>
    have hprop := List.find?_some hfind
    simp only [decide_eq_true_eq] at hprop
    refine ⟨e, _, rfl, ?_, onlyAt_setInode s e _, ?_, ?_, ?_, fun _ => hprop.2⟩
    · refine h.setInode ?_ fun _ => h.copies e hprop.1
      show 0 ≤ (s.itable e).ref + 1
      omega
    · rw [setInode_itable, if_pos rfl]
      exact hprop.2
    · rw [setInode_itable, if_pos rfl]
      show 1 ≤ (s.itable e).ref + 1
      omega
    · rw [setInode_itable, if_pos rfl]
  | none =>
    cases hempty : emptyInode s.itable with
    | none =>
      obtain ⟨e, he⟩ := hfree
      have hno := List.find?_eq_none.mp hempty e (mem_finRange e)
      exact absurd (decide_eq_true he) hno
    | some e =>
      have hprop := List.find?_some hempty
      simp only [decide_eq_true_eq] at hprop
      refine ⟨e, _, rfl, ?_, onlyAt_setInode s e _, ?_, ?_, ?_, fun hpos => ?_⟩
      · refine h.setInode Int.one_nonneg fun _ hvalid => ?_
        cases hvalid
      · rw [setInode_itable, if_pos rfl]
      · rw [setInode_itable, if_pos rfl]
      · rw [setInode_itable, if_pos rfl]
      · omega

theorem ilock_run (h : Settled sb s) (href : 1 ≤ (s.itable e).ref)
    (hfree : (s.itable e).locked = false)
    (htype : (dinodeAt sb s.disk (s.itable e).inum).type ≠ 0) :
    ∃ s', ilock sb e s = .ok ((), s') ∧ Settled sb s' ∧ OnlyAt s s' e ∧
      s'.itable e = { s.itable e with
        locked := true, valid := true, copy := dinodeAt sb s.disk (s.itable e).inum } := by
  obtain ⟨s₁, hs₁⟩ : ∃ s₁, s₁ = s.setInode e { s.itable e with locked := true } := ⟨_, rfl⟩
  have hlock : acquiresleep e s = .ok ((), s₁) := by
    unfold acquiresleep
    rw [get_bind, if_neg (by rw [hfree]; decide), hs₁]
    rfl
  have hat : s₁.itable e = { s.itable e with locked := true } := by
    rw [hs₁, setInode_itable, if_pos rfl]
  have hdisk : s₁.disk = s.disk := by rw [hs₁]; rfl
  have honly : OnlyAt s s₁ e := by rw [hs₁]; exact onlyAt_setInode s e _
  have hsettled : Settled sb s₁ := by
    rw [hs₁]
    exact h.setInode (h.refs e) (h.copies e)
  have hrun : ilock sb e s = loadInode sb e s₁ := by
    unfold ilock
    rw [get_bind, if_neg (by omega), bind_ok hlock]
  rw [hrun]
  unfold loadInode
  rw [get_bind]
  by_cases hvalid : (s.itable e).valid = true
  · refine ⟨s₁, ?_, hsettled, honly, ?_⟩
    · rw [hat, if_pos hvalid]
      rfl
    · rw [hat, ← h.copies e (by omega) hvalid, ← hvalid]
  · refine ⟨s₁.setInode e { s₁.itable e with
      copy := dinodeAt sb s₁.disk (s₁.itable e).inum, valid := true }, ?_, ?_, ⟨?_, ?_⟩, ?_⟩
    · rw [if_neg (by rw [hat]; exact hvalid), if_neg (by rw [hat, hdisk]; exact htype)]
      rfl
    · exact hsettled.setInode (hsettled.refs e) fun _ _ => rfl
    · exact hdisk
    · intro f hf
      rw [setInode_itable, if_neg hf]
      exact honly.others f hf
    · rw [setInode_itable, if_pos rfl, hat, hdisk]

theorem iunlockput_run (h : Settled sb s) (href : 1 ≤ (s.itable e).ref)
    (hlocked : (s.itable e).locked = true) (hlink : (s.itable e).copy.nlink ≠ 0) :
    ∃ s', iunlockput sb e s = .ok ((), s') ∧ Settled sb s' ∧ OnlyAt s s' e := by
  obtain ⟨s₁, hs₁⟩ : ∃ s₁, s₁ = s.setInode e { s.itable e with locked := false } := ⟨_, rfl⟩
  have hunlock : iunlock e s = .ok ((), s₁) := by
    unfold iunlock
    rw [get_bind, if_neg (by rw [hlocked, not_or]; exact ⟨by decide, by omega⟩), hs₁]
    rfl
  have hat : s₁.itable e = { s.itable e with locked := false } := by
    rw [hs₁, setInode_itable, if_pos rfl]
  have hsettled : Settled sb s₁ := by
    rw [hs₁]
    exact h.setInode (h.refs e) (h.copies e)
  refine ⟨s₁.setInode e { s₁.itable e with ref := (s₁.itable e).ref - 1 }, ?_, ?_, ⟨?_, ?_⟩⟩
  · unfold iunlockput
    rw [bind_ok hunlock]
    unfold iput
    rw [get_bind]
    dsimp only
    rw [if_neg (by rw [hat]; exact fun hfree => hlink hfree.2.2)]
    rfl
  · apply hsettled.setInode
    · rw [hat]
      show 0 ≤ (s.itable e).ref - 1
      omega
    · intro hpos hvalid
      have hpos' : 0 < (s₁.itable e).ref - 1 := hpos
      exact hsettled.copies e (by omega) hvalid
  · rw [hs₁]
    rfl
  · intro f hf
    rw [setInode_itable, if_neg hf, hs₁, setInode_itable, if_neg hf]

end Table

/-! ## §3. dirlookup. -/

section Dirlookup

variable (sb : Superblock) {s : State} {dp : Fin NINODE} {name : Bytes} {k : Nat}

def direntAt (disk : Disk) (d : Dinode) (e : Nat) : Bytes :=
  cstr (bytesFrom disk d (DIRENT * e) DIRENT)

/-- The first entry with a name is entry `k`, and all entries up to it are in
blocks that are mapped. -/
structure FirstEntry (disk : Disk) (d : Dinode) (name : Bytes) (k : Nat) : Prop where
  size : DIRENT * (k + 1) ≤ d.size.toNat
  mapped : ∀ x < DIRENT * (k + 1), blockAddr disk d (x / BSIZE) ≠ 0
  skip : ∀ e < k, direntInum (direntAt disk d e) = 0 ∨
    namecmp name (direntName (direntAt disk d e)) ≠ 0
  inum : direntInum (direntAt disk d k) ≠ 0
  name : namecmp name (direntName (direntAt disk d k)) = 0

section

variable (h : FirstEntry s.disk (s.itable dp).copy name k)

include h

theorem readDirent_run {e : Nat} (he : e ≤ k) (msg : String) :
    readDirent sb dp (DIRENT * e) msg s = .ok (direntAt s.disk (s.itable dp).copy e, s) := by
  have hD : DIRENT = 16 := rfl
  have hsize := h.size
  have hlt := (s.itable dp).copy.size.toNat_lt
  have hend : DIRENT * e + DIRENT ≤ DIRENT * (k + 1) := by
    rw [hD]
    omega
  have hoff : (UInt32.ofNat (DIRENT * e)).toNat = DIRENT * e :=
    UInt32.toNat_ofNat_of_lt' (by rw [UInt32.size]; omega)
  have hlen : (UInt32.ofNat DIRENT).toNat = DIRENT := rfl
  obtain ⟨r, hread, hr⟩ := readi_of_mapped sb (s := s) (e := dp) (.ofNat (DIRENT * e)) (.ofNat DIRENT)
    (fun _ _ => true) fun x _ _ hx => h.mapped x (by omega)
  have hbytes : readBytes s.disk (s.itable dp).copy (.ofNat (DIRENT * e)) (.ofNat DIRENT) =
      bytesFrom s.disk (s.itable dp).copy (DIRENT * e) DIRENT := by
    have hin : ¬ (UInt32.ofNat (DIRENT * e) > (s.itable dp).copy.size ∨
        UInt32.ofNat (DIRENT * e) + UInt32.ofNat DIRENT < UInt32.ofNat (DIRENT * e)) := by
      rw [not_or]
      constructor
      · intro hgt
        have h' := UInt32.lt_iff_toNat_lt.mp hgt
        omega
      · intro hwrap
        have h' := UInt32.lt_iff_toNat_lt.mp hwrap
        rw [UInt32.toNat_add] at h'
        omega
    unfold readBytes
    rw [if_neg hin, hoff, hlen, Nat.min_eq_left (by omega)]
  unfold readDirent
  rw [bind_ok hread, hr fun _ _ => rfl, hbytes]
  dsimp only
  rw [if_pos (length_bytesFrom ..)]
  rfl

theorem dirlookupLoop_found (fuel e : Nat) (he : e ≤ k) (hfuel : k < e + fuel) :
    dirlookupLoop sb dp name fuel (DIRENT * e) s =
      (do let ip ← iget (direntInum (direntAt s.disk (s.itable dp).copy k)).toNat
          pure (some (ip, DIRENT * k))) s := by
  have hD : DIRENT = 16 := rfl
  have hsize := h.size
  induction fuel generalizing e with
  | zero => omega
  | succ fuel ih =>
    have hin : DIRENT * e < (s.itable dp).copy.size.toNat := by
      rw [hD] at hsize ⊢
      omega
    unfold dirlookupLoop
    rw [get_bind, if_pos hin, bind_ok (readDirent_run sb h he _)]
    by_cases hlast : e = k
    · rw [hlast, if_neg h.inum, if_pos h.name]
    · have hnext := ih (e + 1) (by omega) (by omega)
      rw [Nat.mul_add, Nat.mul_one] at hnext
      by_cases hzero : direntInum (direntAt s.disk (s.itable dp).copy e) = 0
      · rw [if_pos hzero]
        exact hnext
      · have hne := (h.skip e (by omega)).resolve_left hzero
        rw [if_neg hzero, if_neg hne]
        exact hnext

end

/-- **dirlookup finds the first entry with the name.** -/
theorem dirlookup_found (htype : (s.itable dp).copy.type = T_DIR)
    (h : FirstEntry s.disk (s.itable dp).copy name k) :
    dirlookup sb dp name s =
      (do let ip ← iget (direntInum (direntAt s.disk (s.itable dp).copy k)).toNat
          pure (some (ip, DIRENT * k))) s := by
  have hD : DIRENT = 16 := rfl
  have hsize := h.size
  unfold dirlookup
  rw [get_bind, if_neg (not_not.mpr htype)]
  refine dirlookupLoop_found sb h _ 0 (Nat.zero_le k) ?_
  rw [hD] at hsize ⊢
  omega

end Dirlookup

/-! ## §4. namei. -/

section Namei

variable (sb : Superblock) {s : State} {name : List UInt8} {k : Nat}

structure Idle (s : State) : Prop where
  settled : Settled sb s
  unlocked : ∀ e, (s.itable e).locked = false
  room : ∃ e f, e ≠ f ∧ (s.itable e).ref = 0 ∧ (s.itable f).ref = 0

/-- **namei finds a file in the root directory.**  The result is not locked,
and the disk is as before. -/
theorem namei_root (h : Idle sb s) (cwd : Option (Fin NINODE)) (hname : IsName name)
    (htype : (dinodeAt sb s.disk ROOTINO).type = T_DIR)
    (hlink : (dinodeAt sb s.disk ROOTINO).nlink ≠ 0)
    (hentry : FirstEntry s.disk (dinodeAt sb s.disk ROOTINO) (cstr name) k)
    (hnot : (direntInum (direntAt s.disk (dinodeAt sb s.disk ROOTINO) k)).toNat ≠ ROOTINO) :
    ∃ ip s', namei sb cwd (SLASH :: name) s = .ok (some ip, s') ∧ Settled sb s' ∧
      s'.disk = s.disk ∧ 1 ≤ (s'.itable ip).ref ∧ (s'.itable ip).locked = false ∧
      (s'.itable ip).inum =
        (direntInum (direntAt s.disk (dinodeAt sb s.disk ROOTINO) k)).toNat := by
  obtain ⟨inum, hinum⟩ : ∃ inum, inum =
    (direntInum (direntAt s.disk (dinodeAt sb s.disk ROOTINO) k)).toNat := ⟨_, rfl⟩
  rw [← hinum] at hnot ⊢
  obtain ⟨a, b, hab, ha, hb⟩ := h.room
  -- the root directory
  obtain ⟨dp, s₁, hget₁, hgot₁⟩ := iget_run h.settled ⟨a, ha⟩ ROOTINO
  have hunlocked₁ : ∀ e, (s₁.itable e).locked = false := by
    intro e
    by_cases he : e = dp
    · rw [he, hgot₁.locked]
      exact h.unlocked dp
    · rw [hgot₁.only.others e he]
      exact h.unlocked e
  have hroot₁ : dinodeAt sb s₁.disk (s₁.itable dp).inum = dinodeAt sb s.disk ROOTINO := by
    rw [hgot₁.only.disk, hgot₁.number]
  obtain ⟨s₂, hlock₂, hsettled₂, honly₂, hat₂⟩ := ilock_run hgot₁.settled hgot₁.ref (hunlocked₁ dp)
    (by rw [hroot₁, htype]; decide)
  have hcopy₂ : (s₂.itable dp).copy = dinodeAt sb s.disk ROOTINO := by
    rw [hat₂]
    exact hroot₁
  have hdisk₂ : s₂.disk = s.disk := honly₂.disk.trans hgot₁.only.disk
  have href₂ : 1 ≤ (s₂.itable dp).ref := by
    rw [hat₂]
    exact hgot₁.ref
  have hinum₂ : (s₂.itable dp).inum = ROOTINO := by
    rw [hat₂]
    exact hgot₁.number
  -- the entry
  have hfree₂ : ∃ e, (s₂.itable e).ref = 0 := by
    by_cases he : a = dp
    · have hbdp : b ≠ dp := fun hb' => hab (he.trans hb'.symm)
      exact ⟨b, by rw [honly₂.others b hbdp, hgot₁.only.others b hbdp]; exact hb⟩
    · exact ⟨a, by rw [honly₂.others a he, hgot₁.only.others a he]; exact ha⟩
  obtain ⟨ip, s₃, hget₃, hgot₃⟩ := iget_run hsettled₂ hfree₂ inum
  have hne : ip ≠ dp := by
    rintro rfl
    have hsame := hgot₃.same (by omega)
    exact hnot (hsame.symm.trans hinum₂)
  have hlook : dirlookup sb dp (cstr name) s₂ = .ok (some (ip, DIRENT * k), s₃) := by
    rw [dirlookup_found sb (by rw [hcopy₂]; exact htype) (by rw [hcopy₂, hdisk₂]; exact hentry), hcopy₂,
      hdisk₂, ← hinum, bind_ok hget₃]
    rfl
  have hdp₃ : s₃.itable dp = s₂.itable dp := hgot₃.only.others dp hne.symm
  obtain ⟨s₄, hput₄, hsettled₄, honly₄⟩ := iunlockput_run (e := dp) hgot₃.settled
    (by rw [hdp₃]; exact href₂) (by rw [hdp₃, hat₂]) (by rw [hdp₃, hcopy₂]; exact hlink)
  have hip₄ : s₄.itable ip = s₃.itable ip := honly₄.others ip hne
  refine ⟨ip, s₄, ?_, hsettled₄, ?_, ?_, ?_, ?_⟩
  · have hstart : namexStart cwd (SLASH :: name) s = .ok (dp, s₁) := hget₁
    have hnamex : namex sb cwd (SLASH :: name) false s = .ok (some (ip, cstr name), s₄) := by
      unfold namex
      rw [bind_ok hstart]
      unfold namexLoop
      rw [skipelem_name hname]
      dsimp only
      rw [bind_ok hlock₂, get_bind, if_neg (by rw [hcopy₂, htype]; decide),
        if_neg (by simp), bind_ok hlook]
      dsimp only
      rw [bind_ok hput₄, length_cons]
      rfl
    unfold namei
    rw [bind_ok hnamex]
    rfl
  · rw [honly₄.disk, hgot₃.only.disk, hdisk₂]
  · rw [hip₄]
    exact hgot₃.ref
  · rw [hip₄, hgot₃.locked, honly₂.others ip hne]
    exact hunlocked₁ ip
  · rw [hip₄]
    exact hgot₃.number

end Namei

end Xv6.Fs
