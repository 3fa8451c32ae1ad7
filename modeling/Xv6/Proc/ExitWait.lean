/-
  Xv6.Proc.ExitWait — `wait_lock` and the wakeups it protects.

  A sleeper in `wait` with a ZOMBIE child is about to be woken: `exit` wakes the parent
  before it becomes a ZOMBIE, under one holding of the lock.
-/
import Xv6.Proc.ProcessTree

namespace Xv6.Lifecycle

open Lib State

/-! ## §1. Who holds `wait_lock`. -/

/-- How many slots the scan of `wait` has passed. -/
def Path.scannedTo : Path → Nat
  | .waitScan _ i _ => i
  | .waitSleep _ => NPROC
  | _ => 0

def Dozing (s : State) (p : Slot) : Prop :=
  ∃ addr, s.path p = .waitSched addr ∨ (s.path p = .asleep addr ∧ s.state p = .SLEEPING)

def LockHeld (s : State) : Prop := ∀ p, s.waitLock = some p ↔ (s.path p).holdsWait = true

structure WaitInv (s : State) : Prop where
  held : LockHeld s
  schedLock : ∀ p addr, s.path p = .waitSched addr → s.lock p = some p
  sleepChan : ∀ p addr, s.path p = .asleep addr → s.state p = .SLEEPING →
    (s.proc p).chan = some (.proc p)
  scanned : ∀ p (i : Slot), i < (s.path p).scannedTo → s.parent i = some p → s.state i ≠ .ZOMBIE
  -- wakeup(p->parent) has passed the parent
  awake : ∀ e status k (q : Slot), s.path e = .exitWake status k → s.parent e = some q → q < k →
    ¬ Dozing s q
  -- the one exception: initproc, while reparent() is on its way to wake it
  noLost : ∀ (p c : Slot), Dozing s p → s.parent c = some p → s.state c = .ZOMBIE →
    s.initproc = some p ∧ ∃ e status i k, s.path e = .reparentWake status i k ∧ k ≤ p

section Held

variable {s s' : State}

theorem held_of_same (h : LockHeld s) (hw : s'.waitLock = s.waitLock)
    (hp : ∀ p, (s'.path p).holdsWait = (s.path p).holdsWait) : LockHeld s' := by
  intro p
  rw [hw, hp]
  exact h p

variable {p : Slot}

theorem holdsWait_goto {t : State} {b : Path} (ht : t.path = s.path)
    (hb : b.holdsWait = (s.path p).holdsWait) (q : Slot) :
    ((t.goto p b).path q).holdsWait = (s.path q).holdsWait := by
  rw [goto_path, ht]
  split
  · next hq => rw [hb, hq]
  · rfl

theorem held_of_enter (h : LockHeld s) (hw : s.waitLock = none) (hw' : s'.waitLock = some p)
    (hp : (s'.path p).holdsWait = true) (hothers : ∀ q, q ≠ p → s'.path q = s.path q) :
    LockHeld s' := by
  intro q
  by_cases hq : q = p
  · rw [hq, hw', hp]
    simp
  · rw [hw', hothers q hq, ← h q, hw]
    simp [Ne.symm hq]

theorem held_of_leave (h : LockHeld s) (hp : (s.path p).holdsWait = true) (hw' : s'.waitLock = none)
    (hp' : (s'.path p).holdsWait = false)
    (hothers : ∀ q, q ≠ p → (s'.path q).holdsWait = true → (s.path q).holdsWait = true) :
    LockHeld s' := by
  intro q
  rw [hw']
  refine ⟨fun hn => absurd hn (by simp), fun hq' => ?_⟩
  by_cases hq : q = p
  · rw [hq, hp'] at hq'
    exact absurd hq' (by simp)
  · have h1 := (h q).mpr (hothers q hq hq')
    have h2 := (h p).mpr hp
    exact absurd (Option.some.inj (h1.symm.trans h2)) hq

theorem holdsWait_unused (ht : TreeInv s) (hp : ¬ Live (s.state p)) :
    (s.path p).holdsWait = false := by
  have hfit := ht.fits p
  cases hpath : s.path p with
  | user | dead | exitSched => rfl
  | forkScan | forkCopy | forkLink | forkRun | exit | wait | waitSched | asleep => rfl
  | reparent | reparentWake | exitWake | waitScan | waitSleep =>
    rw [hpath] at hfit
    exact absurd (live_of_path hfit (by simp) (by simp) (by simp)) hp

theorem held_step (ht : TreeInv s) (h : LockHeld s) (hs : Step s s') : LockHeld s' := by
  cases hs with
  | @userinit p hi hu hfirst =>
    refine held_of_same h rfl (fun r => ?_)
    rw [userinit_path]
    split
    · next hr => rw [hr, holdsWait_unused ht (by rw [hu]; simp [Live])]; rfl
    · rfl
  | @dispatch p hr hl =>
    refine held_of_same h rfl (fun r => ?_)
    rw [dispatch_path]
    split
    · next hrp => rw [hrp]; cases s.path p <;> rfl
    · rfl
  | yield | kill => exact held_of_same h rfl (fun _ => rfl)
  | move hr hp hm =>
    refine held_of_same h rfl (holdsWait_goto rfl ?_)
    rw [hp]
    cases hm <;> rfl
  | @forkAlloc p np hr hp hl hu =>
    refine held_of_same h rfl (fun r => ?_)
    rw [goto_path, setLock_path, allocproc_path]
    split
    · next hrp => rw [hrp, hp]; rfl
    · split
      · next hrn => rw [hrn, holdsWait_unused ht (by rw [hu]; simp [Live])]; rfl
      · rfl
  | @forkFail p np hr hp =>
    have hused := (ht.forked p np (by rw [hp]; rfl)).1
    refine held_of_same h rfl (fun r => ?_)
    rw [goto_path, setLock_path, freeproc_path]
    split
    · next hrp => rw [hrp, hp]; rfl
    · split
      · next hrn => rw [hrn, holdsWait_unused ht (by rw [hused]; simp [Live])]; rfl
      · rfl
  | forkCopied hr hp | forkLink hr hp | forkRun hr hp | reparent hr hp | @exitSched p hp
  | @waitSched p addr hr hp => exact held_of_same h rfl (holdsWait_goto rfl (by rw [hp]; rfl))
  | @wakeup p k chan a b hr hp hw hk hl =>
    refine held_of_same h ?_ (holdsWait_goto (wakeupSlot_path s k chan) ?_)
    · show (s.wakeupSlot k chan).waitLock = s.waitLock
      unfold wakeupSlot
      split <;> rfl
    · rw [hp]
      cases hw <;> rfl
  | wakeupSelf hr hp hw =>
    refine held_of_same h rfl (holdsWait_goto rfl ?_)
    rw [hp]
    cases hw <;> rfl
  | @enter p a b hr hp he hw =>
    refine held_of_enter h hw rfl ?_ (fun r hr => by simp [hr])
    rw [goto_path, if_pos rfl]
    cases he <;> rfl
  | @zombie p status hr hp hl | @waitSleep p addr hr hp hl =>
    exact held_of_leave h (by rw [hp]; rfl) rfl (by simp [Path.holdsWait])
      (fun r hr => by simp [hr])
  | @waitFails p a hr hp hf =>
    have hold : (s.path p).holdsWait = true := by
      rw [hp]
      cases hf <;> rfl
    exact held_of_leave h hold rfl (by simp [Path.holdsWait]) (fun r hr => by simp [hr])
  | @waitReap p c addr havekids hr hp hc hl hz =>
    refine held_of_leave h (by rw [hp]; rfl) rfl (by simp [Path.holdsWait]) (fun r hrp => ?_)
    rw [reap_path, if_neg hrp]
    split
    · exact fun hx => absurd hx (by simp [Path.holdsWait])
    · exact id

theorem holder_unique (h : WaitInv s) {p q : Slot} (hp : (s.path p).holdsWait = true)
    (hq : (s.path q).holdsWait = true) : p = q :=
  Option.some.inj (((h.held p).mpr hp).symm.trans ((h.held q).mpr hq))

section

variable (h : WaitInv s) (hs : Step s s') (hp : (s.path p).holdsWait = true)

include h hs hp

theorem parent_of_held (hnr : ∀ status i, s.path p ≠ .reparent status i)
    {i q : Slot} (hpar : s'.parent i = some q) : s.parent i = some q := by
  rcases hs.parent_cases i with he | ⟨r, _, _, hw, _⟩ | ⟨r, status, hr, _⟩ | ⟨hn, _⟩
  · exact he.symm.trans hpar
  · rw [(h.held p).mpr hp] at hw
    exact absurd hw (by simp)
  · obtain rfl := holder_unique h hp (by rw [hr]; rfl)
    exact absurd hr (hnr _ _)
  · rw [hn] at hpar
    exact absurd hpar (by simp)

theorem zombie_of_held (hnw : ∀ status, s.path p ≠ .exitWake status NPROC)
    {i : Slot} (hz : s'.state i = .ZOMBIE) : s.state i = .ZOMBIE := by
  rcases hs.state_cases i with he | hc
  · exact he.symm.trans hz
  · rw [hz] at hc
    generalize s.state i = st at hc
    cases hc with
    | zombie hf =>
      obtain rfl := holder_unique h hp (by rw [hf]; rfl)
      exact absurd hf (hnw _)

end

end Held

/-! ## §2. No lost wakeup. -/

section Wakeup

variable {s s' : State}

variable {p : Slot} {addr : Bool}

theorem not_forked (ht : TreeInv s) (hp : s.path p ≠ .user) (q : Slot) :
    (s.path q).forking ≠ some p := by
  intro hf
  have hfit := ht.fits p
  rw [(ht.forked q p hf).1] at hfit
  exact hp hfit

theorem Step.to_waitSched (hs : Step s s') (hp' : s'.path p = .waitSched addr) :
    s.path p = .waitSched addr ∨ s.path p = .waitSleep addr ∧ s'.lock p = some p := by
  rcases hs.path_cases p with he | ⟨_, hf⟩ | hpas
  · exact .inl (he.symm.trans hp')
  · rw [hp'] at hf
    generalize s.path p = a at hf
    cases hf with
    | sleep hl => exact .inr ⟨rfl, hl⟩
    | move hm => cases hm
    | enter he => cases he
    | wakeup hw => cases hw
  · rcases hpas.target with hb | hb | ⟨_, hb⟩ <;> rw [hp'] at hb <;> exact absurd hb (by simp)

theorem Step.to_asleep (hs : Step s s') (hp' : s'.path p = .asleep addr) :
    s.path p = .asleep addr ∨ s.path p = .waitSched addr ∧ (s'.proc p).chan = some (.proc p) := by
  rcases hs.path_cases p with he | ⟨_, hf⟩ | hpas
  · exact .inl (he.symm.trans hp')
  · rw [hp'] at hf
    generalize s.path p = a at hf
    cases hf with
    | sched _ hc => exact .inr ⟨rfl, hc⟩
    | move hm => cases hm
    | enter he => cases he
    | wakeup hw => cases hw
  · rcases hpas.target with hb | hb | ⟨_, hb⟩ <;> rw [hp'] at hb <;> exact absurd hb (by simp)

theorem sleeping_of_asleep (hs : Step s s') (hp : s.path p = .asleep addr)
    (hst' : s'.state p = .SLEEPING) : s.state p = .SLEEPING := by
  rcases hs.state_cases p with hk | hc
  · exact hk.symm.trans hst'
  · rw [hst'] at hc
    generalize s.state p = st at hc
    cases hc with
    | sleep hf => rw [hp] at hf; exact absurd hf (by simp)

section

variable (ht : TreeInv s) (h : WaitInv s) (hs : Step s s') (p : Slot) (addr : Bool)

include ht h hs

theorem schedLock_step (hp' : s'.path p = .waitSched addr) : s'.lock p = some p := by
  rcases hs.to_waitSched hp' with hp | ⟨_, hl⟩
  · have hl := h.schedLock p addr hp
    rcases hs.lock_cases p with hk | hk | ⟨q, hq⟩ | hk | ⟨a, _, hk⟩
    · exact hk.trans hl
    · rw [hl] at hk
      exact absurd hk (by simp)
    · exact absurd (by rw [hq]; rfl) (not_forked ht (by rw [hp]; simp) q)
    · rw [hp] at hk
      exact absurd hk (by simp)
    · rw [hp'] at hk
      exact absurd hk (by simp)
  · exact hl

theorem sleepChan_step (hp' : s'.path p = .asleep addr) (hst' : s'.state p = .SLEEPING) :
    (s'.proc p).chan = some (.proc p) := by
  rcases hs.to_asleep hp' with hp | ⟨_, hc⟩
  · have hst := sleeping_of_asleep hs hp hst'
    rw [hs.chan_of_sleeping hst hst' (fun q hq => ?_)]
    · exact h.sleepChan p addr hp hst
    · exact not_forked ht (by rw [hp]; simp) q (by rw [hq]; rfl)
  · exact hc

end

theorem dozing_step (hs : Step s s') (h' : Dozing s' p) :
    Dozing s p ∨ ∃ addr, s.path p = .waitSleep addr := by
  obtain ⟨addr, hp' | ⟨hp', hst'⟩⟩ := h'
  · rcases hs.to_waitSched hp' with hp | ⟨hp, _⟩
    · exact .inl ⟨addr, .inl hp⟩
    · exact .inr ⟨addr, hp⟩
  · rcases hs.to_asleep hp' with hp | ⟨hp, _⟩
    · exact .inl ⟨addr, .inr ⟨hp, sleeping_of_asleep hs hp hst'⟩⟩
    · exact .inl ⟨addr, .inl hp⟩

/-- `wakeup` at slot `q` leaves no dozer behind: one on its way into `sched`
still holds `q->lock`. -/
theorem not_dozing_of_wakeup (h : WaitInv s) (h' : ∀ p addr, s'.path p = .asleep addr →
      s'.state p = .SLEEPING → (s'.proc p).chan = some (.proc p)) (hs : Step s s') {q : Slot}
    (hl : s.lock q = none)
    (hch : s'.state q = .SLEEPING → (s'.proc q).chan ≠ some (.proc q)) (hdoz : Dozing s' q)
    (hns : ∀ addr, s.path q ≠ .waitSleep addr) : False := by
  obtain ⟨addr, hp' | ⟨hp', hst'⟩⟩ := hdoz
  · rcases hs.to_waitSched hp' with hp | ⟨hp, _⟩
    · have hheld := h.schedLock q addr hp
      rw [hl] at hheld
      cases hheld
    · exact hns _ hp
  · exact hch hst' (h' q addr hp' hst')

theorem scanned_step (h : WaitInv s) (hs : Step s s') (p i : Slot)
    (hi : i < (s'.path p).scannedTo) (hpar : s'.parent i = some p) : s'.state i ≠ .ZOMBIE := by
  intro hz
  rcases hs.path_cases p with he | ⟨_, hf⟩ | hpas
  · rw [he] at hi
    have hw : (s.path p).holdsWait = true := by
      cases hp : s.path p <;> rw [hp] at hi <;> first | rfl | exact absurd hi (by simp [Path.scannedTo])
    refine h.scanned p i hi (parent_of_held h hs hw ?_ hpar) (zombie_of_held h hs hw ?_ hz)
    · intro status j hp
      rw [hp] at hi
      exact absurd hi (by simp [Path.scannedTo])
    · intro status hp
      rw [hp] at hi
      exact absurd hi (by simp [Path.scannedTo])
  · -- the scan goes on, with the lock held throughout
    have hscan : ∀ addr j havekids, s.path p = .waitScan addr j havekids →
        s.parent i = some p ∧ s.state i = .ZOMBIE := by
      intro addr j havekids hp
      have hw : (s.path p).holdsWait = true := by rw [hp]; rfl
      exact ⟨parent_of_held h hs hw (by rw [hp]; simp) hpar,
        zombie_of_held h hs hw (by rw [hp]; simp) hz⟩
    generalize s'.path p = b at hf hi
    generalize hp : s.path p = a at hf
    cases hf with
    | move hm =>
      cases hm with
      | @waitSkip _ _ j hne =>
        obtain ⟨hpar0, hz0⟩ := hscan _ _ _ hp
        have hij : i.val < j.val + 1 := hi
        by_cases he : i = j
        · exact hne (he ▸ hpar0)
        · refine h.scanned p i ?_ hpar0 hz0
          rw [hp]
          show i.val < j.val
          have : i.val ≠ j.val := fun hv => he (Fin.ext hv)
          omega
      | @waitBusy _ _ j hc hl hnz =>
        obtain ⟨hpar0, hz0⟩ := hscan _ _ _ hp
        have hij : i.val < j.val + 1 := hi
        by_cases he : i = j
        · exact hnz (he ▸ hz0)
        · refine h.scanned p i ?_ hpar0 hz0
          rw [hp]
          show i.val < j.val
          have : i.val ≠ j.val := fun hv => he (Fin.ext hv)
          omega
      | waitSleep =>
        obtain ⟨hpar0, hz0⟩ := hscan _ _ _ hp
        refine h.scanned p i ?_ hpar0 hz0
        rw [hp]
        exact i.isLt
      | fork | forkSkip | forkNone | exit | reparentSkip | reparentNext | reparentDone | wait =>
        exact absurd hi (by simp [Path.scannedTo])
    | enter he => cases he <;> exact absurd hi (by simp [Path.scannedTo])
    | wakeup hw => cases hw <;> exact absurd hi (by simp [Path.scannedTo])
    | forkAlloc | forkFail | forkCopied | forkLink | forkRun | reparent | zombie | fails | reap
    | sleep | sched => exact absurd hi (by simp [Path.scannedTo])
  · rcases hpas.target with hb | hb | ⟨_, hb⟩ <;> rw [hb] at hi <;>
      exact absurd hi (by simp [Path.scannedTo])

theorem awake_step (ht : TreeInv s) (h : WaitInv s) (hs : Step s s') (e : Slot) (status : Int)
    (k : Nat) (q : Slot) (he' : s'.path e = .exitWake status k) (hpar : s'.parent e = some q)
    (hq : q < k) : ¬ Dozing s' q := by
  intro hdoz
  -- whatever happens to `q`, `e` has held the lock and was in exit() already
  have hback : ∀ path, s.path e = path → path.holdsWait = true →
      (∀ status i, path ≠ .reparent status i) → s.parent e = some q ∧ Dozing s q ∧
        ∀ addr, s.path q ≠ .waitSleep addr := by
    intro path hp hw hnr
    have hns : ∀ addr, s.path q ≠ .waitSleep addr := by
      intro addr hqp
      have : q = e := holder_unique h (by rw [hqp]; rfl) (by rw [hp]; exact hw)
      have hpar0 := parent_of_held h hs (p := e) (by rw [hp]; exact hw) (by rw [hp]; exact hnr) hpar
      rw [this] at hpar0
      exact absurd (ht.older e e hpar0) (Nat.lt_irrefl _)
    refine ⟨parent_of_held h hs (p := e) (by rw [hp]; exact hw) (by rw [hp]; exact hnr) hpar, ?_,
      hns⟩
    rcases dozing_step hs hdoz with hd | ⟨addr, hw⟩
    · exact hd
    · exact absurd hw (hns addr)
  rcases hs.path_cases e with hsame | ⟨_, hf⟩ | hpas
  · have hp := hsame.symm.trans he'
    obtain ⟨hpar0, hdoz0, _⟩ := hback _ hp rfl (by simp)
    exact h.awake e status k q hp hpar0 hq hdoz0
  · rw [he'] at hf
    generalize hp : s.path e = a at hf
    cases hf with
    | move hm => cases hm; exact absurd hq (by simp)
    | enter hen => cases hen
    | @wakeup j _ _ _ hw hk =>
      cases hw with
      | parent =>
        obtain ⟨hpar0, hdoz0, hns⟩ := hback _ hp rfl (by simp)
        have hqj : q.val < j.val + 1 := hq
        by_cases hjq : q = j
        · subst hjq
          have hne : q ≠ e := by
            intro heq
            rw [heq] at hpar0
            exact absurd (ht.older e e hpar0) (Nat.lt_irrefl _)
          obtain ⟨hl, hch⟩ := hk hne
          rw [hpar0] at hch
          exact not_dozing_of_wakeup h (sleepChan_step ht h hs) hs hl hch hdoz hns
        · refine h.awake e status j q hp hpar0 ?_ hdoz0
          have : q.val ≠ j.val := fun hv => hjq (Fin.ext hv)
          omega
  · rcases hpas.target with hb | hb | ⟨_, hb⟩ <;> rw [he'] at hb <;> exact absurd hb (by simp)

theorem noLost_step (ht : TreeInv s) (h : WaitInv s) (hs : Step s s') (p c : Slot)
    (hdoz : Dozing s' p) (hpar : s'.parent c = some p) (hz : s'.state c = .ZOMBIE) :
    s'.initproc = some p ∧ ∃ e status i k, s'.path e = .reparentWake status i k ∧ k ≤ p := by
  rcases dozing_step hs hdoz with hdoz0 | ⟨addr, hp⟩
  · -- a dozer runs no fork_core and no exit
    have hnp : ∀ path, s.path p = path → path.holdsWait = false ∧ ∀ i, path ≠ .forkLink i := by
      intro path hpath
      obtain ⟨addr, hp | ⟨hp, _⟩⟩ := hdoz0 <;> rw [hp] at hpath <;> subst hpath <;>
        exact ⟨rfl, by simp⟩
    rcases hs.parent_cases c with he | ⟨q, hq, _, _, _, hq'⟩ | ⟨e, status, he, _, he', hq'⟩ | ⟨hn, _⟩
    · have hpar0 := he.symm.trans hpar
      rcases hs.state_cases c with hst | hc
      · obtain ⟨hinit, e, status, i, k, hpe, hk⟩ := h.noLost p c hdoz0 hpar0 (hst.symm.trans hz)
        refine ⟨initproc_step hs hinit, ?_⟩
        rcases hs.path_cases e with hsame | ⟨_, hf⟩ | hpas
        · exact ⟨e, status, i, k, hsame.trans hpe, hk⟩
        · generalize hb : s'.path e = b at hf
          rw [hpe] at hf
          cases hf with
          | move hm => cases hm; exact absurd hk (by have := p.isLt; omega)
          | enter hen => cases hen
          | @wakeup j _ _ _ hw hwk =>
            cases hw with
            | init =>
              refine ⟨e, status, i, j + 1, hb, ?_⟩
              by_cases hjp : j = p
              · -- this is the wakeup of `p`
                subst hjp
                have hne : j ≠ e := by
                  intro heq
                  exact ht.notInit e (by rw [hpe]; rfl) (heq ▸ hinit)
                obtain ⟨hl, hch⟩ := hwk hne
                rw [hinit] at hch
                refine (not_dozing_of_wakeup h (sleepChan_step ht h hs) hs hl hch hdoz ?_).elim
                intro addr hps
                have := (hnp _ hps).1
                exact absurd this (by simp [Path.holdsWait])
              · have : j.val ≠ p.val := fun hv => hjp (Fin.ext hv)
                omega
          | fails hf => cases hf
        · generalize s'.path e = b at hpas
          rw [hpe] at hpas
          cases hpas with
          | alloc hu =>
            exact absurd hu (live_ne_unused (ht.live_of_exiting (by rw [hpe]; rfl)))
          | free hu =>
            rcases live_step ht hs (ht.live_of_exiting (p := e) (by rw [hpe]; rfl)) with hl | ⟨_, hx⟩
            · exact absurd hu (live_ne_unused hl)
            · rw [hpe] at hx
              exact absurd hx (by simp)
      · rw [hz] at hc
        generalize s.state c = st at hc
        cases hc with
        | zombie hf => exact absurd hdoz0 (h.awake c _ NPROC p hf hpar0 p.isLt)
    · obtain rfl := Option.some.inj (hq'.symm.trans hpar)
      exact absurd rfl ((hnp _ hq).2 c)
    · exact ⟨initproc_step hs (hq'.symm.trans hpar), e, status, c, 0, he', Nat.zero_le _⟩
    · rw [hn] at hpar
      exact absurd hpar (by simp)
  · -- the scan has seen no ZOMBIE child
    have hw : (s.path p).holdsWait = true := by rw [hp]; rfl
    refine absurd (zombie_of_held h hs hw (by rw [hp]; simp) hz) (h.scanned p c ?_ ?_)
    · rw [hp]
      exact c.isLt
    · exact parent_of_held h hs hw (by rw [hp]; simp) hpar

end Wakeup

theorem waitInv_step {s s' : State} (ht : TreeInv s) (h : WaitInv s) (hs : Step s s') :
    WaitInv s' where
  held := held_step ht h.held hs
  schedLock := schedLock_step ht h hs
  sleepChan := sleepChan_step ht h hs
  scanned := scanned_step h hs
  awake := awake_step ht h hs
  noLost := noLost_step ht h hs

theorem waitInv_init : WaitInv init where
  held p := by simp [init, Path.holdsWait]
  schedLock _ _ hp := absurd hp (by simp [init])
  sleepChan _ _ hp := absurd hp (by simp [init])
  scanned _ _ hi := absurd hi (by simp [init, Path.scannedTo])
  awake _ _ _ _ hp := absurd hp (by simp [init])
  noLost _ _ _ hp := absurd hp (by simp [init, parent, Proc.init])

theorem run_waitInv {s : State} (h : Run s) : WaitInv s :=
  h.invariant_with TreeInv WaitInv (fun _ hr => run_treeInv hr)
    (fun _ hs => by rw [hs]; exact waitInv_init) (fun _ _ ht _ hi hs => waitInv_step ht hi hs)

end Xv6.Lifecycle
