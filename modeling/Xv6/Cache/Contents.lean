/-
  Xv6.Cache.Contents — the buffer cache refines a plain disk.

  A valid, unmodified buffer holds its block, and so does the disk for a block that is not
  logged; a logged block is in a pinned buffer.
-/
import Xv6.Cache.References

namespace Xv6.Cache

open Lib Function

variable {n : Nat} {D : Type}

/-! ## §1. Where the contents are. -/

structure Contents (disk : Nat → D) (s : State n D) : Prop where
  pinned : Pinned s
  fresh : ∀ b, s.valid b = true → s.dev b = ROOTDEV → s.modified b = false →
    s.data b = contents disk s.history (s.blockno b)
  unlogged : ∀ k, k ∉ s.logged → s.disk k = contents disk s.history k
  logged : ∀ k ∈ s.logged, ∃ b, Caches s b k ∧ s.valid b = true
  filled : ∀ p b k, s.pc p = .filled b k → s.data b = contents disk s.history k
  plain : PlainDisk disk s.history

section Contents

variable {disk : Nat → D} {s s' : State n D} {a : Act n D} {p q : Fin n} {b c : Fin NBUF} {k : Nat}

theorem fresh_stored (hr : Refs s) (h : Contents disk s) (hb : s.dev b = ROOTDEV)
    (hvalid : s.valid c = true) (hc : s.dev c = ROOTDEV)
    (hmod : update s.modified b false c = false) :
    s.data c = update (contents disk s.history) (s.blockno b) (s.data b) (s.blockno c) := by
  by_cases hno : s.blockno c = s.blockno b
  · rw [hr.caches_unique ⟨hc, hno⟩ ⟨hb, rfl⟩, update_self]
  · have hcb : c ≠ b := fun he => hno (congrArg s.blockno he)
    rw [update_of_ne hcb] at hmod
    rw [update_of_ne hno]
    exact h.fresh c hvalid hc hmod

section

variable (hm : Move s a s')

include hm

theorem fresh_move (hr : Refs s) (h : Contents disk s)
    (hvalid : s'.valid c = true) (hc : s'.dev c = ROOTDEV) (hmod : s'.modified c = false) :
    s'.data c = contents disk s'.history (s'.blockno c) := by
  have hbound := hr.bound
  cases hm with
  | @recycled p k b hpc hnew href =>
    change update s.valid b false c = true at hvalid
    change update s.dev b ROOTDEV c = ROOTDEV at hc
    have hcb : c ≠ b := by
      rintro rfl
      rw [update_self] at hvalid
      cases hvalid
    rw [update_of_ne hcb] at hvalid hc
    refine (h.fresh c hvalid hc hmod).trans (congrArg _ ?_)
    exact (update_of_ne hcb _ _).symm
  | @read p b k hpc =>
    have hb := hbound p
    rw [hpc] at hb
    have hcb : c ≠ b := fun he => nomatch (he ▸ hvalid).symm.trans hb.2.2.2
    exact (update_of_ne hcb _ _).trans (h.fresh c hvalid hc hmod)
  | @filled p b k hpc =>
    have hb := hbound p
    rw [hpc] at hb
    by_cases hcb : c = b
    · rw [hcb]
      refine (h.filled p b k hpc).trans (congrArg _ ?_)
      exact hb.1.2.symm
    · exact h.fresh c ((update_of_ne hcb _ _).symm.trans hvalid) hc hmod
  | @modify p b d hpc hlock =>
    change update s.modified b true c = false at hmod
    have hcb : c ≠ b := by
      rintro rfl
      rw [update_self] at hmod
      cases hmod
    rw [update_of_ne hcb] at hmod
    exact (update_of_ne hcb _ _).trans (h.fresh c hvalid hc hmod)
  | @written p b hpc =>
    have hb := hbound p
    rw [hpc] at hb
    exact fresh_stored hr h (hr.held p b hb).1 hvalid hc hmod
  | absorbed log hpc hlock | logged log hpc hlock =>
    exact fresh_stored hr h (hr.held _ _ hlock).1 hvalid hc hmod
  | _ => exact h.fresh c hvalid hc hmod

theorem unlogged_move (h : Contents disk s) (hk : k ∉ s'.logged) :
    s'.disk k = contents disk s'.history k := by
  cases hm with
  | @written p b hpc =>
    show update s.disk (s.blockno b) (s.data b) k =
      update (contents disk s.history) (s.blockno b) (s.data b) k
    by_cases hkb : k = s.blockno b
    · rw [hkb, update_self, update_self]
    · rw [update_of_ne hkb, update_of_ne hkb]
      apply h.unlogged k
      intro hmem
      exact hk (List.mem_filter.mpr ⟨hmem, by simpa using hkb⟩)
  | @absorbed p b | @logged p b =>
    change k ∉ s.blockno b :: s.logged at hk
    rw [List.mem_cons, not_or] at hk
    refine (h.unlogged k hk.2).trans ?_
    exact (update_of_ne hk.1 _ _).symm
  | _ => exact h.unlogged k hk

theorem logged_move (hr : Refs s) (h : Contents disk s) (hk : k ∈ s'.logged) :
    ∃ b, Caches s' b k ∧ s'.valid b = true := by
  have hbound := hr.bound
  cases hm with
  | @recycled p j b hpc hnew href =>
    obtain ⟨c, hc, hvalid⟩ := h.logged k hk
    -- the buffer of k is pinned, so it is not the one that is recycled
    obtain ⟨c', hdev, hno, hpins⟩ := h.pinned k hk
    have hcb : c ≠ b := by
      rintro rfl
      rw [hr.caches_unique ⟨hdev, hno⟩ hc] at hpins
      exact Nat.ne_of_gt (hr.pos_of_pins hpins) href
    refine ⟨c, ⟨?_, ?_⟩, ?_⟩
    · exact (update_of_ne hcb _ _).trans hc.1
    · exact (update_of_ne hcb _ _).trans hc.2
    · exact (update_of_ne hcb _ _).trans hvalid
  | @filled p b j hpc =>
    obtain ⟨c, hc, hvalid⟩ := h.logged k hk
    refine ⟨c, hc, ?_⟩
    show update s.valid b true c = true
    rw [update_apply]
    split
    · rfl
    · exact hvalid
  | written hpc => exact h.logged k (List.mem_of_mem_filter hk)
  | @absorbed p b log hpc hlock | @logged p b log hpc hlock =>
    rcases List.mem_cons.mp hk with rfl | hk
    · exact ⟨b, ⟨(hr.held p b hlock).1, rfl⟩, hr.valid_of_lock hlock (by rw [hpc]; rfl)⟩
    · exact h.logged k hk
  | _ => exact h.logged k hk

theorem contents_frame (hr : Refs s) (hq : a.actor ≠ some q)
    (hlock : s.lock c = some q) (hc : Caches s c k) :
    contents disk s'.history k = contents disk s.history k := by
  have hne : ∀ {p b}, a.actor = some p → s.lock b = some p → k ≠ s.blockno b := by
    intro p b hp hb he
    have hcb := hr.caches_unique hc ⟨(hr.held p b hb).1, he.symm⟩
    rw [← hcb, hlock] at hb
    exact hq (hp.trans hb.symm)
  cases hm with
  | @written p b hpc =>
    have hb := hr.bound p
    rw [hpc] at hb
    exact update_of_ne (hne rfl hb) _ _
  | absorbed log hpc hb | logged log hpc hb => exact update_of_ne (hne rfl hb) _ _
  | _ => rfl

section

variable (hr : Refs s) (h : Contents disk s)

include hr h

theorem filled_move (hq : s'.pc q = .filled c k) : s'.data c = contents disk s'.history k := by
  by_cases hact : a.actor = some q
  · have hbound := hr.bound q
    cases hm with
    | log => cases hact
    | modify d hpc | absorbed log hpc | logged log hpc | bpin hpc | bunpin hpc =>
      cases hact
      exact nomatch hq.symm.trans hpc
    | @read p b j hpc =>
      cases hact
      change update s.pc q _ q = _ at hq
      rw [update_self] at hq
      cases hq
      rw [hpc] at hbound
      obtain ⟨hcaches, -, -, hvalid⟩ := hbound
      have hno : k ∉ s.logged := by
        intro hk
        obtain ⟨d, hd, hv⟩ := h.logged k hk
        rw [hr.caches_unique hd hcaches, hvalid] at hv
        cases hv
      refine (update_self _ _ _).trans ?_
      rw [hcaches.2]
      exact h.unlogged k hno
    | _ =>
      cases hact
      change update s.pc q _ q = _ at hq
      rw [update_self] at hq
      cases hq
  · have hframe := hm.frame hr hact
    rw [hframe.pc] at hq
    have hbound := hr.bound q
    rw [hq] at hbound
    obtain ⟨hcaches, hlock, -⟩ := hbound
    rw [(hframe.lock c hlock).2.2.2, contents_frame hm hr hact hlock hcaches]
    exact h.filled q c k hq

theorem plain_move : PlainDisk disk s'.history := by
  cases hm with
  | @cached p b k hpc hvalid =>
    have hb := hr.bound p
    rw [hpc] at hb
    obtain ⟨⟨hdev, hno⟩, -, hmod⟩ := hb
    refine ⟨?_, h.plain⟩
    rw [← hno]
    exact h.fresh b hvalid hdev hmod
  | @filled p b k hpc => exact ⟨h.filled p b k hpc, h.plain⟩
  | _ => exact h.plain

theorem contents_move (hpin : Pinned s') : Contents disk s' where
  pinned := hpin
  fresh _ hvalid hdev hmod := fresh_move hm hr h hvalid hdev hmod
  unlogged _ hk := unlogged_move hm h hk
  logged _ hk := logged_move hm hr h hk
  filled _ _ _ hq := filled_move hm hr h hq
  plain := plain_move hm hr h

end

end

theorem run_contents (h : CacheRun disk s) : Refs s ∧ Contents disk s := by
  apply Reachable.invariant (fun s => Refs s ∧ Contents disk s) _ _ h
  · rintro s ⟨data, log, rfl⟩
    refine ⟨refs_start disk data log, ?_⟩
    exact ⟨nofun, fun _ hv => (nomatch hv), fun _ _ => rfl, nofun, nofun, trivial⟩
  · rintro s s' ⟨hr, hc⟩ ⟨a, ha, hs, hpin⟩
    have hm := move_of_step hr.ring hs
    exact ⟨refs_move hm hr ha, contents_move hm hr hc hpin⟩

end Contents

/-! ## §2. The refinement. -/

/-- The cache works as a plain disk with contents `disk`. -/
structure RefinesDisk (disk : Nat → D) (s : State n D) : Prop where
  /-- The list through bcache.head is a ring with each buffer once. -/
  ring : ∃ l, s.links.IsRing l ∧ ∀ b, b ∈ l
  ends : ∀ k, s.bget ROOTDEV k ≠ .error .endless
  unique : ∀ b c, s.dev b ≠ 0 → s.dev b = s.dev c → s.blockno b = s.blockno c → b = c
  used : ∀ b, (0 < s.pins b ∨ (∃ p, s.lock b = some p) ∨ ∃ p k, s.pc p = .locking b k) →
    0 < s.refcnt b
  kept : ∀ a s', s.step a = some s' → ∀ b, 0 < s.refcnt b →
    s'.dev b = s.dev b ∧ s'.blockno b = s.blockno b
  /-- bread of block `k` comes to an end with the locked buffer of this block. -/
  locked : ∀ p b k, s.pc p = .check b k ∨ s.pc p = .filled b k →
    s.lock b = some p ∧ s.dev b = ROOTDEV ∧ s.blockno b = k
  /-- Every bread has returned what was stored last. -/
  reads : PlainDisk disk s.history
  current : ∀ p b, s.lock b = some p → s.pc p = .idle → s.modified b = false →
    s.data b = contents disk s.history (s.blockno b)

/-- **The buffer cache refines a plain disk**, as long as modified buffers are written or logged
before their release and logged blocks stay pinned. -/
theorem cache_refines_disk {disk : Nat → D} {s : State n D} (h : CacheRun disk s) :
    RefinesDisk disk s := by
  obtain ⟨hr, hc⟩ := run_contents h
  refine ⟨hr.ring, bget_ne_endless hr.ring ROOTDEV, hr.unique, ?_, ?_, ?_, hc.plain, ?_⟩
  · rintro b (hpins | ⟨p, hp⟩ | ⟨p, k, hp⟩)
    · exact hr.pos_of_pins hpins
    · exact hr.pos_of_lock hp
    · exact hr.pos_of_names (p := p) (by rw [hp]; rfl)
  · intro a s' hs b hb
    exact (move_of_step hr.ring hs).keeps hb
  · intro p b k hp
    have hb := hr.bound p
    rcases hp with hp | hp
    · rw [hp] at hb
      exact ⟨hb.2.1, hb.1.1, hb.1.2⟩
    · rw [hp] at hb
      exact ⟨hb.2.1, hb.1.1, hb.1.2⟩
  · intro p b hlock hpc hmod
    exact hc.fresh b (hr.valid_of_lock hlock (by rw [hpc]; rfl)) (hr.held p b hlock).1 hmod

/-! ## §3. A run. -/

instance (s : State n D) (a : Act n D) : Decidable (Allowed s a) :=
  match a with
  | .brelse _ b => inferInstanceAs (Decidable (s.modified b = false))
  | .bunpin _ b => inferInstanceAs (Decidable (0 < s.pins b))
  | .bread _ _ | .modify _ _ _ | .bwrite _ _ | .bpin _ _ | .logWrite _ _ | .go _ | .log _ =>
    isTrue trivial

instance (s : State n D) : Decidable (Pinned s) :=
  inferInstanceAs (Decidable (∀ k ∈ s.logged, ∃ b, s.dev b = ROOTDEV ∧ s.blockno b = k ∧ 0 < s.pins b))

def State.run (s : State n D) : List (Act n D) → Option (State n D)
  | [] => some s
  | a :: as =>
    if Allowed s a then
      (s.step a).bind fun s' => if Pinned s' then s'.run as else none
    else none

theorem CacheRun.run {disk : Nat → D} {s s' : State n D} {as : List (Act n D)}
    (h : CacheRun disk s) (hs : s.run as = some s') : CacheRun disk s' := by
  induction as generalizing s with
  | nil =>
    cases hs
    exact h
  | cons a as ih =>
    simp only [State.run] at hs
    split at hs
    · next ha =>
      obtain ⟨t, ht, hs⟩ := Option.bind_eq_some_iff.mp hs
      split at hs
      · next hpin => exact ih (h.next ⟨a, ha, ht, hpin⟩) hs
      · cases hs
    · cases hs

def logAndRead : List (Act 1 Nat) :=
  [.bread 0 5, .go 0, .go 0, .go 0, .go 0, .modify 0 0 7, .logWrite 0 0, .brelse 0 0, .go 0,
    .bread 0 5, .go 0, .go 0]

theorem cache_refines_disk_logAndRead : ∃ s : State 1 Nat, CacheRun (fun k => k) s ∧
    s.history = [.returned 5 7, .stored 5 7, .returned 5 5] ∧ s.disk 5 = 5 ∧
    s.data 0 = contents (fun k => k) s.history (s.blockno 0) := by
  let log : LogLayer.Log := { LogLayer.initlog 2 30 with outstanding := 1 }
  let s₀ : State 1 Nat := .start (fun k => k) (fun _ => 0) log
  have hacts : (s₀.run logAndRead).any (fun s =>
      s.history = [.returned 5 7, .stored 5 7, .returned 5 5] ∧ s.disk 5 = 5 ∧
        s.lock 0 = some 0 ∧ s.pc 0 = .idle ∧ s.modified 0 = false) = true := by
    decide +kernel
  obtain ⟨s, hs, htest⟩ := (Option.any_eq_true _ _).mp hacts
  obtain ⟨hhist, hdisk, hlock, hpc, hmod⟩ := of_decide_eq_true htest
  have hrun : CacheRun (fun k => k) s := CacheRun.run (.start ⟨_, _, rfl⟩) hs
  exact ⟨s, hrun, hhist, hdisk, (cache_refines_disk hrun).current 0 0 hlock hpc hmod⟩

end Xv6.Cache
