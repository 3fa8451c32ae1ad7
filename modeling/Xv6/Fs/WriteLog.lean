/-
  Xv6.Fs.WriteLog — the blocks that one chunk of filewrite logs.

  A turn of the loop of writei logs the free map, the indirect block and one data block, and a
  chunk has at most four turns.
-/
import Xv6.Fs.Bitmap
import Xv6.Fs.Transactions

namespace Xv6.Fs

open Lib Lib.Comp Finset

/-! ## §1. What may be logged. -/

def State.logged (s : State) : Finset Nat := s.lh.toFinset

theorem logged_logWrite (s : State) (b : Nat) : (s.logWrite b).logged = insert b s.logged := by
  unfold State.logWrite State.logged
  split
  · next h => exact (insert_eq_of_mem (List.mem_toFinset.mpr h)).symm
  · ext x
    simp

theorem itable_logWrite (s : State) (b : Nat) : (s.logWrite b).itable = s.itable := by
  unfold State.logWrite
  split <;> rfl

/-- The indirect block of the inode, if it has one. -/
def indirects (s : State) (e : Fin NINODE) : Finset Nat :=
  if (s.itable e).copy.addrs 12 = 0 then ∅ else {((s.itable e).copy.addrs 12).toNat}

/-- From `s` to `s'` the free map, the indirect block and blocks of `D` are logged. -/
structure Logs (sb : Superblock) (e : Fin NINODE) (D : Finset Nat) (s s' : State) : Prop where
  logged : s'.logged ⊆ insert sb.bmapstart (indirects s' e ∪ D) ∪ s.logged
  keeps : indirects s e ⊆ indirects s' e

section

variable {sb : Superblock} {e : Fin NINODE} {s s' s'' : State} {D D' : Finset Nat}

theorem Logs.refl (s : State) : Logs sb e D s s := ⟨subset_union_right, le_rfl⟩

theorem Logs.trans (h : Logs sb e D s s') (h' : Logs sb e D' s' s'') :
    Logs sb e (D ∪ D') s s'' := by
  refine ⟨fun b hb => ?_, h.keeps.trans h'.keeps⟩
  have hfirst := @h.logged b
  have hsecond := h'.logged hb
  have hind := @h'.keeps b
  simp only [mem_union, mem_insert] at hfirst hsecond ⊢
  tauto

theorem Logs.write (h : Logs sb e D s s') {b : Nat} (hb : b ∈ indirects s' e ∪ D) :
    Logs sb e D s (s'.logWrite b) := by
  have hind : indirects (s'.logWrite b) e = indirects s' e := by
    unfold indirects
    rw [itable_logWrite]
  refine ⟨?_, hind ▸ h.keeps⟩
  rw [logged_logWrite, hind]
  refine insert_subset ?_ h.logged
  exact mem_union_left _ (mem_insert_of_mem hb)

theorem Logs.of_balloc {b : Nat} (hlog : s'.logged ⊆ insert b (insert sb.bmapstart s.logged))
    (hb : b ∈ indirects s' e ∪ D) (hkeeps : indirects s e ⊆ indirects s' e) : Logs sb e D s s' := by
  refine ⟨hlog.trans (insert_subset ?_ (insert_subset ?_ ?_)), hkeeps⟩
  · exact mem_union_left _ (mem_insert_of_mem hb)
  · exact mem_union_left _ (mem_insert_self _ _)
  · exact subset_union_right

theorem writeiEnd_logs (sb : Superblock) (e : Fin NINODE) (off : Nat) (s : State) :
    Returns (fun _ s' => ∃ b, s'.logged = insert b s.logged) (writeiEnd sb e off) s :=
  ⟨_, logged_logWrite _ _⟩

/-- At most MAXOPBLOCKS distinct blocks are logged. -/
def Fits {σ α : Type} (ν : σ → List Nat) (m : Comp σ Stop α) : Prop :=
  ∀ s, Returns (fun _ s' => ∃ S : Finset Nat, S.card ≤ LogLayer.MAXOPBLOCKS ∧
    ∀ b ∈ ν s', b ∈ S ∨ b ∈ ν s) m s

/-! ## §2. bmap. -/

theorem indirects_setAddr (s : State) (e : Fin NINODE) (i : Fin 13) (v : UInt32) :
    indirects (s.setInode e { s.itable e with
      copy := { (s.itable e).copy with addrs := put (s.itable e).copy.addrs i v } }) e =
    if i = 12 then if v = 0 then ∅ else {v.toNat} else indirects s e := by
  unfold indirects
  by_cases hi : i = 12
  · subst hi
    simp [put_self]
  · simp [put_of_ne (Ne.symm hi), hi]

variable (hsb : sb.size ≤ BPB)
include hsb

theorem balloc_logs (who : Nat) (s : State) :
    Returns (fun b s' => b < 2 ^ 32 ∧ s'.itable = s.itable ∧
      s'.logged ⊆ insert b (insert sb.bmapstart s.logged)) (balloc sb who) s := by
  unfold balloc Returns
  rw [wp_bind, wp_get]
  split
  · refine ⟨Nat.two_pow_pos 32, rfl, ?_⟩
    exact (subset_insert _ _).trans (subset_insert _ _)
  · next b hb =>
    have hlt := (scanMap_mem (dvd_zero BPB) hb).1
    have hB : BPB = 8192 := rfl
    have hblock : sb.BBLOCK b = sb.bmapstart := by
      unfold Superblock.BBLOCK
      rw [Nat.div_eq_of_lt (by omega), Nat.zero_add]
    refine ⟨show b < 2 ^ 32 by omega, ?_, ?_⟩
    · exact (itable_logWrite _ b).trans (itable_logWrite _ _)
    · refine (logged_logWrite _ b).trans_subset (insert_subset_insert b ?_)
      refine (logged_logWrite _ _).trans_subset ?_
      rw [hblock]
      exact le_rfl

theorem addrAlloc_logs (i : Fin 13) (s : State) : Returns (fun a s' => Logs sb e {a.toNat} s s' ∧
      (i = 12 → a ≠ 0 → Logs sb e ∅ s s' ∧ indirects s' e = {a.toNat})) (addrAlloc sb e i) s := by
  unfold addrAlloc Returns
  rw [wp_bind, wp_get]
  dsimp only
  split
  · next hne =>
    refine ⟨Logs.refl s, fun hi _ => ⟨Logs.refl s, ?_⟩⟩
    subst hi
    exact if_neg hne
  · next hz =>
    rw [wp_bind]
    refine wp_mono (balloc_logs hsb _ s) fun b s₁ hballoc => ?_
    obtain ⟨hb, hit, hlog⟩ := hballoc
    split
    · next h0 =>
      refine ⟨Logs.of_balloc hlog (by simp [h0]) ?_, fun _ ha => absurd rfl ha⟩
      unfold indirects
      rw [hit]
    · next h0 =>
      have hnat : (UInt32.ofNat b).toNat = b := UInt32.toNat_ofNat_of_lt' hb
      have ha : UInt32.ofNat b ≠ 0 := fun he => h0 (by rw [← hnat, he]; rfl)
      have hset := indirects_setAddr s₁ e i (UInt32.ofNat b)
      rw [if_neg ha, hnat] at hset
      have hold : indirects s₁ e = indirects s e := by
        unfold indirects
        rw [hit]
      have hkeeps : indirects s e ⊆ if i = 12 then {b} else indirects s₁ e := by
        split
        · next hi =>
          subst hi
          rw [show indirects s e = ∅ from if_pos (not_not.mp hz)]
          exact empty_subset _
        · exact hold.ge
      refine ⟨Logs.of_balloc hlog ?_ (hset ▸ hkeeps), fun hi _ => ?_⟩
      · exact mem_union_right _ (mem_singleton.mpr hnat.symm)
      · rw [if_pos hi] at hset
        refine ⟨Logs.of_balloc hlog ?_ ?_, hset.trans (by rw [hnat])⟩
        · exact mem_union_left _ (hset ▸ mem_singleton_self b)
        · rw [if_pos hi] at hkeeps
          exact hset ▸ hkeeps

theorem entryAlloc_logs (addr : UInt32) (j : Nat) {s : State} (hs : indirects s e = {addr.toNat}) :
    Returns (fun a s' => Logs sb e {a.toNat} s s') (entryAlloc sb e addr j) s := by
  unfold entryAlloc Returns
  rw [wp_bind, wp_get]
  dsimp only
  split
  · exact Logs.refl s
  · rw [wp_bind]
    refine wp_mono (balloc_logs hsb _ s) fun b s₁ hballoc => ?_
    obtain ⟨hb, hit, hlog⟩ := hballoc
    have hind : indirects s₁ e = indirects s e := by
      unfold indirects
      rw [hit]
    split
    · next h0 => exact Logs.of_balloc hlog (by simp [h0]) hind.ge
    · have hnat : (UInt32.ofNat b).toNat = b := UInt32.toNat_ofNat_of_lt' hb
      have hlogs : Logs sb e {(UInt32.ofNat b).toNat} s s₁ :=
        .of_balloc hlog (by simp [hnat]) hind.ge
      have hdisk : ∀ disk, Logs sb e {(UInt32.ofNat b).toNat} s (s₁.setDisk disk) :=
        fun _ => ⟨hlogs.logged, hlogs.keeps⟩
      refine (hdisk _).write (mem_union_left _ ?_)
      show _ ∈ indirects s₁ e
      rw [hind, hs]
      exact mem_singleton_self _

theorem bmap_logs (bn : Nat) (s : State) :
    Returns (fun a s' => Logs sb e {a.toNat} s s') (bmap sb e bn) s := by
  unfold bmap
  split
  · exact (addrAlloc_logs hsb _ s).mono fun _ _ h => h.1
  · split
    · refine (addrAlloc_logs hsb 12 s).bind fun a s₁ ⟨hlogs, hind⟩ => ?_
      split
      · next h0 => exact h0 ▸ hlogs
      · next h0 =>
        obtain ⟨hlogs, hind⟩ := hind rfl h0
        refine (entryAlloc_logs hsb a _ hind).mono fun a' s₂ hlogs' => ?_
        simpa using hlogs.trans hlogs'
    · trivial

/-! ## §3. writei. -/

/-- The turns that the loop of writei still takes. -/
def turns (n tot off : Nat) : Nat :=
  if tot < n then (off % BSIZE + (n - tot) + (BSIZE - 1)) / BSIZE else 0

theorem writeiLoop_logs (src : Nat → Option UInt8) (n fuel tot off : Nat) (s : State) :
    Returns (fun _ s' => ∃ D, D.card ≤ turns n tot off ∧ Logs sb e D s s')
      (writeiLoop sb e src n fuel tot off) s := by
  induction fuel generalizing tot off s with
  | zero => exact ⟨∅, Nat.zero_le _, Logs.refl s⟩
  | succ fuel ih =>
    have hB : BSIZE = 1024 := rfl
    unfold writeiLoop
    split
    · next hlt =>
      have hone : 1 ≤ turns n tot off := by
        unfold turns
        rw [if_pos hlt, hB]
        omega
      refine (bmap_logs hsb _ s).bind fun a s₁ hlogs => ?_
      have hlast : ∃ D : Finset Nat, D.card ≤ turns n tot off ∧ Logs sb e D s s₁ :=
        ⟨{a.toNat}, hone, hlogs⟩
      split
      · exact hlast
      · dsimp only
        refine Returns.bind (R := fun _ s₂ => ∃ disk, s₂ = s₁.setDisk disk) ⟨_, rfl⟩ ?_
        rintro _ _ ⟨disk, rfl⟩
        have hdisk : Logs sb e {a.toNat} s (s₁.setDisk disk) := ⟨hlogs.logged, hlogs.keeps⟩
        split
        · refine Returns.bind (R := fun _ s₂ => Logs sb e {a.toNat} s s₂) ?_ ?_
          · exact hdisk.write (mem_union_right _ (mem_singleton_self _))
          · intro _ s₂ hlogs₂
            refine (ih _ _ s₂).mono fun _ s₃ hrest => ?_
            obtain ⟨D, hcard, hD⟩ := hrest
            refine ⟨_, ?_, hlogs₂.trans hD⟩
            refine (card_union_le _ _).trans ?_
            have hturn : 1 + turns n (tot + min (n - tot) (BSIZE - off % BSIZE))
                (off + min (n - tot) (BSIZE - off % BSIZE)) ≤ turns n tot off := by
              unfold turns
              rw [if_pos hlt, hB]
              split <;> omega
            rw [card_singleton]
            omega
        · exact ⟨{a.toNat}, hone, hdisk⟩
    · exact ⟨∅, Nat.zero_le _, Logs.refl s⟩

theorem writei_logs (src : Nat → Option UInt8) (off n : UInt32) (hn : n.toNat ≤ writeMax) :
    Fits State.lh (writei sb e src off n) := by
  intro s
  have hnone : ∃ S : Finset Nat, S.card ≤ LogLayer.MAXOPBLOCKS ∧ ∀ b ∈ s.lh, b ∈ S ∨ b ∈ s.lh :=
    ⟨∅, Nat.zero_le _, fun b hb => Or.inr hb⟩
  unfold writei Returns
  rw [wp_bind, wp_get]
  dsimp only
  split
  · exact hnone
  · split
    · exact hnone
    · refine Returns.bind (writeiLoop_logs hsb src _ _ 0 off.toNat s) fun r s₁ hloop => ?_
      obtain ⟨D, hcard, hD⟩ := hloop
      refine Returns.bind (writeiEnd_logs sb e r.2 s₁) fun _ s₂ ⟨x, hx⟩ => ?_
      refine ⟨insert x (insert sb.bmapstart (indirects s₁ e ∪ D)), ?_, fun b hb => ?_⟩
      · have hB : BSIZE = 1024 := rfl
        have hmax : writeMax = 3072 := rfl
        have hfour : turns n.toNat 0 off.toNat ≤ 4 := by
          unfold turns
          rw [hB]
          split <;> omega
        have hind : (indirects s₁ e).card ≤ 1 := by
          unfold indirects
          split <;> simp
        have hunion := card_union_le (indirects s₁ e) D
        have hmap := card_insert_le sb.bmapstart (indirects s₁ e ∪ D)
        have hall := card_insert_le x (insert sb.bmapstart (indirects s₁ e ∪ D))
        have hM : LogLayer.MAXOPBLOCKS = 10 := rfl
        omega
      · have hb' : b ∈ s₂.logged := List.mem_toFinset.mpr hb
        rw [hx] at hb'
        have hlogged := insert_subset_insert x hD.logged hb'
        simpa [State.logged, or_assoc] using hlogged

end

/-! ## §4. The transactions of filewrite and kfilewrite. -/

section

variable {σ α β : Type} {ν : σ → List Nat}

theorem Fits.after {m : Comp σ Stop α} {f : α → Comp σ Stop β} (hm : Keeps ν m)
    (hf : ∀ a, Fits ν (f a)) : Fits ν (m >>= f) := by
  intro s
  refine (hm s).bind fun a s' hs' => ?_
  rw [← hs']
  exact hf a s'

theorem Fits.before {m : Comp σ Stop α} {f : α → Comp σ Stop β} (hm : Fits ν m)
    (hf : ∀ a, Keeps ν (f a)) : Fits ν (m >>= f) := by
  intro s
  refine (hm s).bind fun a s' hs' => (hf a s').mono fun b s'' hs'' => ?_
  rw [hs'']
  exact hs'

theorem Fits.liftFs {m : FsM α} (hm : Fits State.lh m) :
    Fits (fun s : Sys => s.fs.lh) (Fs.liftFs m) := by
  intro s
  unfold Fs.liftFs Returns
  rw [wp_zoom]
  exact hm s.fs

theorem Keeps.lh {m : SysM α} (hm : Keeps (Sys.observe State.lh) m) :
    Keeps (fun s : Sys => s.fs.lh) m := fun s =>
  (hm s).mono fun _ _ hs' => congrArg (·.2.2) hs'

end

section

variable (sb : Superblock) (e : Fin NINODE) (f : Fin NFILE)

theorem ilock_lh : Keeps State.lh (ilock sb e) := by
  refine Keeps.get.bind fun s => Keeps.ite .throw (Keeps.bind ?_ fun _ => ?_)
  · exact Keeps.get.bind fun s => Keeps.ite .throw (.modify fun _ => rfl)
  · exact Keeps.get.bind fun s => Keeps.ite .pure (Keeps.ite .throw (.modify fun _ => rfl))

theorem iunlock_lh : Keeps State.lh (iunlock e) :=
  Keeps.get.bind fun _ => Keeps.ite .throw (.modify fun _ => rfl)

/-- writeChunk up to its end_op. -/
def writeSection (src : Nat → Option UInt8) (i n1 : Nat) : SysM Int := do
  beginOp sb
  let file := (← get).file .ftable f
  let r ← liftFs (do
    let e ← deref file.ip
    ilock sb e
    writei sb e (fun k => src (i + k)) file.off (.ofNat n1))
  Comp.guarded (0 < r) (modifyFile .ftable f fun file =>
    { file with off := file.off + .ofNat r.toNat })
  liftFs (deref file.ip >>= iunlock)
  pure r

/-- kwriteChunk up to its end_op. -/
def kwriteSection (src : Bytes) (i n1 : Nat) : SysM Int := do
  beginOp sb
  let file := (← get).file .kftable f
  let r ← liftFs (do
    let e ← deref file.ip
    writei sb e (fun k => some (src (i + k))) file.off (.ofNat n1))
  Comp.guarded (0 < r) (modifyFile .kftable f fun file =>
    { file with off := file.off + .ofNat r.toNat })
  pure r

variable {sb} (hsb : sb.size ≤ BPB) {i n1 : Nat} (hn1 : n1 ≤ writeMax)
include hsb hn1

theorem writeSection_fits (src : Nat → Option UInt8) :
    Fits (fun s => s.fs.lh) (writeSection sb f src i n1) := by
  have hn : (UInt32.ofNat n1).toNat ≤ writeMax := (Nat.mod_le _ _).trans hn1
  refine .after (Keeps.lh (beginOp_keeps sb)) fun _ => .after .get fun s => ?_
  refine .before (.liftFs ?_) fun r => ?_
  · exact .after (deref_keeps _) fun e => .after (ilock_lh sb e) fun _ => writei_logs hsb _ _ _ hn
  · refine Keeps.bind (.guarded (.modify fun _ => rfl)) fun _ => Keeps.bind ?_ fun _ => .pure
    exact Keeps.lh (liftFs_keeps ((deref_keeps _).bind iunlock_lh))

theorem kwriteSection_fits (src : Bytes) :
    Fits (fun s => s.fs.lh) (kwriteSection sb f src i n1) := by
  have hn : (UInt32.ofNat n1).toNat ≤ writeMax := (Nat.mod_le _ _).trans hn1
  refine .after (Keeps.lh (beginOp_keeps sb)) fun _ => .after .get fun s => ?_
  refine .before (.liftFs ?_) fun r => ?_
  · exact .after (deref_keeps _) fun e => writei_logs hsb _ _ _ hn
  · exact Keeps.bind (.guarded (.modify fun _ => rfl)) fun _ => .pure

end

/-- More turns than there are bytes change nothing: the loop has come to its end. -/
theorem loop_ends {chunk : Nat → Nat → SysM Int} {loop : Nat → Nat → SysM Nat} {n : Nat}
    (hzero : ∀ i, loop 0 i = pure i)
    (hsucc : ∀ fuel i, loop (fuel + 1) i = if i < n then do
        let n1 := min (n - i) writeMax
        let r ← chunk i n1
        if r ≠ n1 then pure i else loop fuel (i + n1)
      else pure i) {fuel fuel' i : Nat} (h : n - i ≤ fuel) (h' : n - i ≤ fuel') :
    loop fuel i = loop fuel' i := by
  have hdone : ∀ fuel i, n - i ≤ 0 → loop fuel i = pure i := by
    intro fuel i hn
    cases fuel with
    | zero => exact hzero i
    | succ fuel => rw [hsucc, if_neg (by omega)]
  induction fuel generalizing fuel' i with
  | zero => rw [hdone 0 i h, hdone fuel' i h]
  | succ fuel ih =>
    cases fuel' with
    | zero => rw [hdone 0 i h', hdone _ i h']
    | succ fuel' =>
      have hmax : writeMax = 3072 := rfl
      rw [hsucc, hsucc]
      split
      · refine bind_congr fun r => ?_
        split
        · rfl
        · exact ih (by omega) (by omega)
      · rfl

/-- What a write is cut into: `body` is a chunk up to its end_op. -/
def Chunks (sb : Superblock) (n : Nat) (chunk body : Nat → Nat → SysM Int)
    (loop : Nat → Nat → SysM Nat) : Prop :=
  (∀ i n1, chunk i n1 = do
    let r ← body i n1
    endOp sb
    pure r) ∧
  (∀ i, Fits (fun s => s.fs.lh) (body i (min (n - i) writeMax))) ∧
  ∀ fuel, n ≤ fuel → loop fuel 0 = loop n 0

/-- **Each write chunk fits its reservation**, in filewrite and in kfilewrite, and the loops end. -/
theorem write_chunks_fit (sb : Superblock) (hsb : sb.size ≤ BPB) (f : Fin NFILE)
    (src : Nat → Option UInt8) (ksrc : Bytes) (n : Int32) :
    Chunks sb n.toInt.toNat (writeChunk sb f src) (writeSection sb f src)
        (writeLoop sb f src n.toInt.toNat) ∧
      Chunks sb n.toInt.toNat (kwriteChunk sb f ksrc) (kwriteSection sb f ksrc)
        (kwriteLoop sb f ksrc n.toInt.toNat) := by
  refine ⟨⟨fun i n1 => ?_, fun i => writeSection_fits f hsb (Nat.min_le_right ..) src, ?_⟩,
    fun i n1 => ?_, fun i => kwriteSection_fits f hsb (Nat.min_le_right ..) ksrc, ?_⟩
  · simp only [writeChunk, writeSection, bind_assoc, pure_bind]
  · exact fun fuel h => loop_ends (fun _ => rfl) (fun _ _ => rfl) h le_rfl
  · simp only [kwriteChunk, kwriteSection, bind_assoc, pure_bind]
  · exact fun fuel h => loop_ends (fun _ => rfl) (fun _ _ => rfl) h le_rfl

theorem write_chunks_fit_smallSb :
    Chunks smallSb 5000 (writeChunk smallSb 0 fun _ => some 7)
      (writeSection smallSb 0 fun _ => some 7) (writeLoop smallSb 0 (fun _ => some 7) 5000) :=
  (write_chunks_fit smallSb (by decide) 0 (fun _ => some 7) (fun _ => 0) 5000).1

end Xv6.Fs
