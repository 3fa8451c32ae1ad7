/-
  Xv6.Proc.ExitRecords — every exit is delivered once.
-/
import Xv6.Proc.ExitWait

namespace Xv6.Lifecycle

open Lib State Function List

/-! ## §1. Steps and records. -/

section Plain

variable {s s' : State}

/-- The steps that leave the records of exits and waits alone, and with them
the exited processes. -/
structure Plain (s s' : State) : Prop where
  exits : s'.exits = s.exits
  waits : s'.waits = s.waits
  zombie : ∀ i, s'.state i = .ZOMBIE ↔ s.state i = .ZOMBIE
  record : ∀ i, s.state i = .ZOMBIE →
    (s'.proc i).pid = (s.proc i).pid ∧ (s'.proc i).xstate = (s.proc i).xstate

theorem plain_of_proc {t : State} (hx : t.exits = s.exits) (hw : t.waits = s.waits)
    (hp : t.proc = s.proc) : Plain s t := by
  refine ⟨hx, hw, fun i => ?_, fun i _ => ?_⟩
  · unfold state
    rw [hp]
  · rw [hp]
    exact ⟨rfl, rfl⟩

theorem plain_of_setProc {t : State} {k : Slot} {r : Proc} (hx : t.exits = s.exits)
    (hw : t.waits = s.waits) (hp : t.proc = update s.proc k r)
    (hk : s.state k ≠ .ZOMBIE) (hr : r.state ≠ .ZOMBIE) : Plain s t := by
  have hproc : ∀ i, t.proc i = if i = k then r else s.proc i := by
    intro i
    rw [hp]
    exact update_apply _ _ _ _
  refine ⟨hx, hw, fun i => ?_, fun i hi => ?_⟩
  · unfold state
    rw [hproc]
    split
    · next he => exact ⟨fun h => absurd h hr, fun h => absurd (he ▸ h) hk⟩
    · exact Iff.rfl
  · have hne : i ≠ k := fun he => hk (he ▸ hi)
    rw [hproc, if_neg hne]
    exact ⟨rfl, rfl⟩

theorem plain_of_same {t : State} {k : Slot} {r : Proc} (hx : t.exits = s.exits)
    (hw : t.waits = s.waits) (hp : t.proc = update s.proc k r)
    (hst : r.state = .ZOMBIE ↔ s.state k = .ZOMBIE) (hpid : r.pid = (s.proc k).pid)
    (hxs : r.xstate = (s.proc k).xstate) : Plain s t := by
  have hproc : ∀ i, t.proc i = if i = k then r else s.proc i := by
    intro i
    rw [hp]
    exact update_apply _ _ _ _
  refine ⟨hx, hw, fun i => ?_, fun i hi => ?_⟩
  · unfold state
    rw [hproc]
    split
    · next he => rw [he]; exact hst
    · exact Iff.rfl
  · rw [hproc]
    split
    · next he => rw [he]; exact ⟨hpid, hxs⟩
    · exact ⟨rfl, rfl⟩

/-- A step is plain, or the end of an `exit`, or a successful `wait`. -/
theorem record_cases (ht : TreeInv s) (hs : Step s s') : Plain s s' ∨
      (∃ p status, s.state p = .RUNNING ∧ s.path p = .exitWake status NPROC ∧
        s' = s.zombie p status) ∨
      ∃ (p c : Slot) (addr havekids : Bool), s.path p = .waitScan addr c havekids ∧ s.parent c = some p ∧
        s.state c = .ZOMBIE ∧ s' = s.reap p c addr := by
  cases hs with
  | @zombie p status hr hp hl => exact .inr (.inl ⟨p, status, hr, hp, rfl⟩)
  | @waitReap p c addr havekids hr hp hc hl hz =>
    exact .inr (.inr ⟨p, c, addr, havekids, hp, hc, hz, rfl⟩)
  | @userinit p hi hu hfirst =>
    exact .inl (plain_of_setProc rfl rfl (update_idem _ _ _) (by rw [hu]; simp)
      (by simp))
  | @dispatch p hr hl | @yield p hr hl hpre | waitSched hr hp =>
    exact .inl (plain_of_setProc rfl rfl rfl (by rw [hr]; simp) (by simp))
  | @kill q hl =>
    refine .inl (plain_of_same rfl rfl rfl ?_ rfl rfl)
    show (if (s.proc q).state = .SLEEPING then ProcState.RUNNABLE else (s.proc q).state) = .ZOMBIE ↔
      (s.proc q).state = .ZOMBIE
    split
    · next hsl => rw [hsl]; simp
    · exact Iff.rfl
  | @forkAlloc p np hr hp hl hu =>
    exact .inl (plain_of_setProc rfl rfl rfl (by rw [hu]; simp) (by simp [Proc.allocated]))
  | @forkFail p np hr hp =>
    have hused := (ht.forked p np (by rw [hp]; rfl)).1
    exact .inl (plain_of_setProc rfl rfl rfl (by rw [hused]; simp) (by simp [Proc.freed]))
  | forkCopied | forkLink | reparent => exact .inl (plain_of_same rfl rfl rfl Iff.rfl rfl rfl)
  | @forkRun p np hr hp hl =>
    have hused := (ht.forked p np (by rw [hp]; rfl)).1
    exact .inl (plain_of_setProc rfl rfl rfl (by rw [hused]; simp) (by simp))
  | @wakeup p k chan a b hr hp hw hk hl =>
    left
    unfold wakeupSlot
    split
    · next hsl =>
      have hst : s.state k = .SLEEPING := hsl.1
      exact plain_of_setProc rfl rfl rfl (by rw [hst]; simp) (by simp)
    · exact plain_of_proc rfl rfl rfl
  | move | enter | wakeupSelf | exitSched | waitFails | waitSleep =>
    exact .inl (plain_of_proc rfl rfl rfl)

end Plain

/-! ## §2. The invariant. -/

/-- The numbers of the processes that have exited. -/
def State.exited (s : State) : List Nat := s.exits.map Exit.born

/-- The numbers of the processes that a wait has returned. -/
def State.reaped (s : State) : List Nat := s.waits.map Wait.child

def State.exitOf (s : State) (i : Slot) : Exit :=
  { slot := i, born := s.born i, pid := (s.proc i).pid, status := (s.proc i).xstate }

structure RecordInv (s : State) : Prop where
  distinct : ∀ i j, s.state i ≠ .UNUSED → s.state j ≠ .UNUSED → s.born i = s.born j → i = j
  past : ∀ e ∈ s.exits, e.born < s.nextBorn
  fresh : ∀ i, s.state i ≠ .UNUSED → s.state i ≠ .ZOMBIE → s.born i ∉ s.exited
  exitsOnce : s.exited.Nodup
  zombie : ∀ i, s.state i = .ZOMBIE → s.exitOf i ∈ s.exits ∧ s.born i ∉ s.reaped
  kept : ∀ e ∈ s.exits, e.born ∈ s.reaped ∨ (s.state e.slot = .ZOMBIE ∧ s.exitOf e.slot = e)
  waitsOnce : s.reaped.Nodup
  exact : ∀ w ∈ s.waits, ∃ e ∈ s.exits, e.born = w.child ∧ e.pid = w.pid ∧
    ∀ x, w.status = some x → x = e.status
  -- who may wait
  forkerIs : ∀ p np, (s.path p).forking = some np → s.forker np = s.born p
  adopted : ∀ i q, s.parent i = some q → s.born q = s.forker i ∨
    (s.initproc = some q ∧ (s.forker i ∈ s.exited ∨
      ∃ e, s.born e = s.forker i ∧ (s.path e).exiting = true ∧ (s.path e).holdsWait = true))
  waiters : ∀ w ∈ s.waits, w.waiter = w.forker ∨ (w.waiter = 0 ∧ w.forker ∈ s.exited)

/-! ## §3. It is kept. -/

section Keep

variable {s s' : State}

section

variable (ht : TreeInv s)

include ht

theorem distinct_step (h : RecordInv s) (hs : Step s s') (i j : Slot)
    (hi' : s'.state i ≠ .UNUSED) (hj' : s'.state j ≠ .UNUSED) (hb : s'.born i = s'.born j) :
    i = j := by
  by_cases hi : s.state i = .UNUSED
  · have hbi := born_new hs hi hi' (ht.not_forking_unused hi)
    by_cases hj : s.state j = .UNUSED
    · -- one step fills one slot
      rcases hs.nextBorn_cases with hn | ⟨_, k, _, _, hothers⟩
      · omega
      · have hik : i = k := by
          by_contra hne
          exact hi' ((hothers i hne).trans hi)
        have hjk : j = k := by
          by_contra hne
          exact hj' ((hothers j hne).trans hj)
        rw [hik, hjk]
    · have := ht.numbered j hj
      rw [hbi.1, (born_eq hs hj).1] at hb
      omega
  · by_cases hj : s.state j = .UNUSED
    · have hbj := born_new hs hj hj' (ht.not_forking_unused hj)
      have := ht.numbered i hi
      rw [hbj.1, (born_eq hs hi).1] at hb
      omega
    · rw [(born_eq hs hi).1, (born_eq hs hj).1] at hb
      exact h.distinct i j hi hj hb

theorem forkerIs_step (h : RecordInv s) (hs : Step s s') (p np : Slot)
    (hp' : (s'.path p).forking = some np) : s'.forker np = s'.born p := by
  rcases forking_step hs hp' with ⟨hp, _⟩ | ⟨hr, _, _, _, _, hfk⟩
  · have hused := (ht.forked p np hp).1
    rw [(born_eq hs (live_ne_unused (ht.live_of_forking hp))).1,
      (born_eq hs (by rw [hused]; simp)).2]
    exact h.forkerIs p np hp
  · rw [hfk, (born_eq hs (by rw [hr]; simp)).1]

theorem records_mono (hs : Step s s') :
    (∀ e ∈ s.exits, e ∈ s'.exits) ∧ ∀ b ∈ s.exited, b ∈ s'.exited := by
  have hsub : ∀ e ∈ s.exits, e ∈ s'.exits := by
    intro e he
    rcases record_cases ht hs with hpl | ⟨p, status, _, _, rfl⟩ | ⟨p, c, addr, _, _, _, _, rfl⟩
    · rw [hpl.exits]
      exact he
    · exact mem_append_left _ he
    · exact he
  refine ⟨hsub, fun b hb => ?_⟩
  obtain ⟨e, he, rfl⟩ := mem_map.mp hb
  exact mem_map.mpr ⟨e, hsub e he, rfl⟩

theorem exiting_step (hs : Step s s') {e : Slot}
    (hx : (s.path e).exiting = true) (hw : (s.path e).holdsWait = true) :
    s.born e ∈ s'.exited ∨ ((s'.path e).exiting = true ∧ (s'.path e).holdsWait = true) := by
  rcases hs.path_cases e with he | ⟨_, hf⟩ | hpas
  · rw [he]
    exact .inr ⟨hx, hw⟩
  · generalize hb : s'.path e = b at hf
    generalize hp : s.path e = a at hf hx hw
    cases hf with
    | move hm =>
      cases hm with
      | reparentSkip | reparentNext | reparentDone => exact .inr ⟨rfl, rfl⟩
      | fork | forkSkip | forkNone | exit | wait | waitSkip | waitBusy | waitSleep =>
        exact absurd hx (by simp [Path.exiting])
    | enter hen => cases hen <;> exact absurd hw (by simp [Path.holdsWait])
    | reparent => exact .inr ⟨rfl, rfl⟩
    | wakeup hwk => cases hwk <;> exact .inr ⟨rfl, rfl⟩
    | zombie hz =>
      -- the step records the exit of `e`
      left
      rcases record_cases ht hs with hpl | ⟨p, status, _, hpp, rfl⟩ | ⟨p, c, addr, _, _, _, _, rfl⟩
      · have hz0 := (hpl.zombie e).mp hz
        have hfit := ht.fits e
        rw [hz0, hp] at hfit
        exact absurd hfit (by simp [Fits])
      · have hep : e = p := by
          by_contra hne
          rw [zombie_path, if_neg hne, hp] at hb
          exact absurd hb (by simp)
        rw [hep]
        exact mem_map.mpr ⟨_, mem_append_right _ (mem_singleton_self _), rfl⟩
      · rw [reap_path] at hb
        split at hb
        · exact absurd hb (by simp)
        · split at hb
          · exact absurd hb (by simp)
          · rw [hp] at hb
            exact absurd hb (by simp)
    | fails hf => cases hf <;> exact absurd hx (by simp [Path.exiting])
    | forkAlloc | forkFail | forkCopied | forkLink | forkRun | reap | sleep | sched =>
      exact absurd hx (by simp [Path.exiting])
  · have hl := ht.live_of_exiting hx
    generalize s'.path e = b at hpas
    generalize hp : s.path e = a at hpas hx
    cases hpas with
    | alloc hu => exact absurd hu (live_ne_unused hl)
    | free hu =>
      rcases live_step ht hs hl with hl' | ⟨status, hxw⟩
      · exact absurd hu (live_ne_unused hl')
      · -- the end of exit() leaves a ZOMBIE, not an UNUSED slot
        rcases hs.state_cases e with he | hc
        · exact absurd (he.symm.trans hu) (live_ne_unused hl)
        · rw [hu] at hc
          generalize hst : s.state e = st at hc hl
          cases hc with
          | @forkFail q _ hf =>
            have := (ht.forked q e (by rw [hf]; rfl)).1
            rw [hst] at this
            rw [this] at hl
            exact absurd hl (by simp [Live])
          | reap => exact absurd hl (by simp [Live])
    | exitSched | resume => exact absurd hx (by simp [Path.exiting])

theorem adopted_step (h : RecordInv s) (hs : Step s s') (i q : Slot)
    (hpar : s'.parent i = some q) : s'.born q = s'.forker i ∨
      (s'.initproc = some q ∧ (s'.forker i ∈ s'.exited ∨
        ∃ e, s'.born e = s'.forker i ∧ (s'.path e).exiting = true ∧
          (s'.path e).holdsWait = true)) := by
  rcases hs.parent_cases i with he | ⟨p, _, _, _, hp', hq⟩ | ⟨p, status, hp, hc, hp', hq⟩ | ⟨hn, _⟩
  · have hpar0 := he.symm.trans hpar
    rw [(born_eq hs (live_ne_unused (ht.live i q hpar0))).1, (born_eq hs (ht.present i q hpar0)).2]
    rcases h.adopted i q hpar0 with hown | ⟨hinit, hx | ⟨e, hb, hex, hw⟩⟩
    · exact .inl hown
    · exact .inr ⟨initproc_step hs hinit, .inl ((records_mono ht hs).2 _ hx)⟩
    · refine .inr ⟨initproc_step hs hinit, ?_⟩
      rcases exiting_step ht hs hex hw with hx | hstill
      · exact .inl (hb ▸ hx)
      · refine .inr ⟨e, ?_, hstill⟩
        rw [(born_eq hs (live_ne_unused (ht.live_of_exiting hex))).1]
        exact hb
  · obtain rfl := Option.some.inj (hq.symm.trans hpar)
    exact .inl (forkerIs_step ht h hs p i (by rw [hp']; rfl)).symm
  · -- reparent: the forker is the process that exits
    have hinit := hq.symm.trans hpar
    have hne : s.initproc ≠ some p := ht.notInit p (by rw [hp]; rfl)
    refine .inr ⟨initproc_step hs hinit, .inr ⟨p, ?_, by rw [hp']; rfl, by rw [hp']; rfl⟩⟩
    rw [(born_eq hs (live_ne_unused (ht.live i p hc))).1, (born_eq hs (ht.present i p hc)).2]
    rcases h.adopted i p hc with hown | ⟨hip, _⟩
    · exact hown
    · exact absurd hip hne
  · rw [hn] at hpar
    exact absurd hpar (by simp)

theorem waiter_of_reap (hw : WaitInv s) (h : RecordInv s) {p c : Slot}
    {addr havekids : Bool} (hp : s.path p = .waitScan addr c havekids) (hc : s.parent c = some p) :
    s.born p = s.forker c ∨ (s.born p = 0 ∧ s.forker c ∈ s.exited) := by
  rcases h.adopted c p hc with hown | ⟨hinit, hx | ⟨e, _, hex, hwe⟩⟩
  · exact .inl hown
  · exact .inr ⟨(ht.init p hinit).2, hx⟩
  · -- `wait_lock` cannot be in an exit at the same time
    obtain rfl := holder_unique hw hwe (by rw [hp]; rfl)
    rw [hp] at hex
    exact absurd hex (by simp [Path.exiting])

theorem record_plain (h : RecordInv s) (hs : Step s s') (hpl : Plain s s') :
    (∀ e ∈ s'.exits, e.born < s'.nextBorn) ∧
    (∀ i, s'.state i ≠ .UNUSED → s'.state i ≠ .ZOMBIE → s'.born i ∉ s'.exited) ∧
    (∀ i, s'.state i = .ZOMBIE → s'.exitOf i ∈ s'.exits ∧ s'.born i ∉ s'.reaped) ∧
    (∀ e ∈ s'.exits, e.born ∈ s'.reaped ∨ (s'.state e.slot = .ZOMBIE ∧ s'.exitOf e.slot = e)) := by
  have hexited : s'.exited = s.exited := by unfold exited; rw [hpl.exits]
  have hreaped : s'.reaped = s.reaped := by unfold reaped; rw [hpl.waits]
  have hsame : ∀ i, s.state i = .ZOMBIE → s'.exitOf i = s.exitOf i := by
    intro i hz
    obtain ⟨hpid, hxs⟩ := hpl.record i hz
    unfold exitOf
    rw [(born_eq hs (by rw [hz]; simp)).1, hpid, hxs]
  refine ⟨fun e he => ?_, fun i hi hnz => ?_, fun i hz => ?_, fun e he => ?_⟩
  · rw [hpl.exits] at he
    exact Nat.lt_of_lt_of_le (h.past e he) (nextBorn_le hs)
  · rw [hexited]
    by_cases hu : s.state i = .UNUSED
    · rw [(born_new hs hu hi (ht.not_forking_unused hu)).1]
      intro hmem
      obtain ⟨e, he, heq⟩ := mem_map.mp hmem
      have := h.past e he
      omega
    · rw [(born_eq hs hu).1]
      exact h.fresh i hu (fun hz => hnz ((hpl.zombie i).mpr hz))
  · have hz0 := (hpl.zombie i).mp hz
    rw [hsame i hz0, hpl.exits, hreaped, (born_eq hs (by rw [hz0]; simp)).1]
    exact h.zombie i hz0
  · rw [hpl.exits] at he
    rw [hreaped]
    rcases h.kept e he with hr | ⟨hz, heq⟩
    · exact .inl hr
    · exact .inr ⟨(hpl.zombie _).mpr hz, (hsame _ hz).trans heq⟩

end

theorem record_zombie (h : RecordInv s) (ht : TreeInv s) {p : Slot} (status : Int)
    (hr : s.state p = .RUNNING) :
    (∀ e ∈ (s.zombie p status).exits, e.born < s.nextBorn) ∧
    (∀ i, (s.zombie p status).state i ≠ .UNUSED → (s.zombie p status).state i ≠ .ZOMBIE →
      s.born i ∉ (s.zombie p status).exited) ∧
    (s.zombie p status).exited.Nodup ∧
    (∀ i, (s.zombie p status).state i = .ZOMBIE →
      (s.zombie p status).exitOf i ∈ (s.zombie p status).exits ∧ s.born i ∉ s.reaped) ∧
    (∀ e ∈ (s.zombie p status).exits, e.born ∈ s.reaped ∨
      ((s.zombie p status).state e.slot = .ZOMBIE ∧ (s.zombie p status).exitOf e.slot = e)) := by
  have hpu : s.state p ≠ .UNUSED := by rw [hr]; simp
  have hpz : s.state p ≠ .ZOMBIE := by rw [hr]; simp
  have hexited : (s.zombie p status).exited = s.exited ++ [s.born p] := by
    simp [exited, zombie]
  have hself : (s.zombie p status).exitOf p
      = { slot := p, born := s.born p, pid := (s.proc p).pid, status := status } := by
    simp [exitOf, zombie, goto, setLock, setProc]
  have hother : ∀ i, i ≠ p → (s.zombie p status).exitOf i = s.exitOf i := by
    intro i hi
    simp [exitOf, zombie, goto, setLock, setProc, hi]
  -- a process that was reaped had exited before
  have hnr : s.born p ∉ s.reaped := by
    intro hmem
    obtain ⟨w, hw, heq⟩ := mem_map.mp hmem
    obtain ⟨e, he, hb, _⟩ := h.exact w hw
    exact h.fresh p hpu hpz (mem_map.mpr ⟨e, he, hb.trans heq⟩)
  refine ⟨fun e he => ?_, fun i hi hnz => ?_, ?_, fun i hz => ?_, fun e he => ?_⟩
  · rcases mem_append.mp he with he | he
    · exact h.past e he
    · rw [mem_singleton.mp he]
      exact ht.numbered p hpu
  · have hne : i ≠ p := by
      intro he
      exact hnz (by rw [zombie_state, if_pos he])
    rw [zombie_state, if_neg hne] at hi hnz
    rw [hexited]
    intro hmem
    rcases mem_append.mp hmem with hm | hm
    · exact h.fresh i hi hnz hm
    · exact hne (h.distinct i p hi hpu (mem_singleton.mp hm))
  · rw [hexited]
    refine List.Nodup.append h.exitsOnce (nodup_singleton _) ?_
    intro b hb hb'
    rw [mem_singleton.mp hb'] at hb
    exact h.fresh p hpu hpz hb
  · by_cases hi : i = p
    · rw [hi, hself]
      exact ⟨mem_append_right _ (mem_singleton_self _), hnr⟩
    · rw [zombie_state, if_neg hi] at hz
      rw [hother i hi]
      exact ⟨mem_append_left _ (h.zombie i hz).1, (h.zombie i hz).2⟩
  · rcases mem_append.mp he with he | he
    · rcases h.kept e he with hrp | ⟨hz, heq⟩
      · exact .inl hrp
      · have hne : e.slot ≠ p := fun hep => hpz (hep ▸ hz)
        refine .inr ⟨?_, (hother _ hne).trans heq⟩
        rw [zombie_state, if_neg hne]
        exact hz
    · rw [mem_singleton.mp he]
      exact .inr ⟨by simp, hself⟩

theorem record_reap (h : RecordInv s) (p : Slot) {c : Slot} (addr : Bool)
    (hz : s.state c = .ZOMBIE) :
    (∀ i, (s.reap p c addr).state i ≠ .UNUSED → (s.reap p c addr).state i ≠ .ZOMBIE →
      s.born i ∉ s.exited) ∧
    (∀ i, (s.reap p c addr).state i = .ZOMBIE →
      (s.reap p c addr).exitOf i ∈ s.exits ∧ s.born i ∉ (s.reap p c addr).reaped) ∧
    (∀ e ∈ s.exits, e.born ∈ (s.reap p c addr).reaped ∨
      ((s.reap p c addr).state e.slot = .ZOMBIE ∧ (s.reap p c addr).exitOf e.slot = e)) ∧
    (s.reap p c addr).reaped.Nodup ∧
    (∀ w ∈ (s.reap p c addr).waits, ∃ e ∈ s.exits, e.born = w.child ∧ e.pid = w.pid ∧
      ∀ x, w.status = some x → x = e.status) := by
  have hreaped : (s.reap p c addr).reaped = s.reaped ++ [s.born c] := by
    simp [reaped, reap]
  have hother : ∀ i, i ≠ c → (s.reap p c addr).exitOf i = s.exitOf i := by
    intro i hi
    simp [exitOf, reap, freeproc, goto, setProc, hi]
  obtain ⟨hrec, hnew⟩ := h.zombie c hz
  have hcu : s.state c ≠ .UNUSED := by rw [hz]; simp
  refine ⟨fun i hi hnz => ?_, fun i hiz => ?_, fun e he => ?_, ?_, fun w hw => ?_⟩
  · have hne : i ≠ c := by
      intro he
      exact hi (by rw [reap_state, if_pos he])
    rw [reap_state, if_neg hne] at hi hnz
    exact h.fresh i hi hnz
  · have hne : i ≠ c := by
      intro he
      rw [reap_state, if_pos he] at hiz
      exact absurd hiz (by simp)
    rw [reap_state, if_neg hne] at hiz
    rw [hother i hne, hreaped]
    refine ⟨(h.zombie i hiz).1, fun hmem => ?_⟩
    rcases mem_append.mp hmem with hm | hm
    · exact (h.zombie i hiz).2 hm
    · exact hne (h.distinct i c (by rw [hiz]; simp) hcu (mem_singleton.mp hm))
  · rw [hreaped]
    rcases h.kept e he with hrp | ⟨hez, heq⟩
    · exact .inl (mem_append_left _ hrp)
    · by_cases hec : e.slot = c
      · left
        refine mem_append_right _ (mem_singleton.mpr ?_)
        rw [← heq, hec]
        rfl
      · refine .inr ⟨?_, (hother _ hec).trans heq⟩
        rw [reap_state, if_neg hec]
        exact hez
  · rw [hreaped]
    refine List.Nodup.append h.waitsOnce (nodup_singleton _) ?_
    intro b hb hb'
    rw [mem_singleton.mp hb'] at hb
    exact hnew hb
  · rcases mem_append.mp hw with hw | hw
    · exact h.exact w hw
    · rw [mem_singleton.mp hw]
      refine ⟨_, hrec, rfl, rfl, fun x hx => ?_⟩
      show x = (s.proc c).xstate
      cases addr with
      | true => exact (Option.some.inj hx).symm
      | false => exact absurd hx (by simp)

end Keep

theorem recordInv_step {s s' : State} (ht : TreeInv s) (hw : WaitInv s) (h : RecordInv s)
    (hs : Step s s') : RecordInv s' := by
  have hdistinct := distinct_step ht h hs
  have hforker := forkerIs_step ht h hs
  have hadopted := adopted_step ht h hs
  rcases record_cases ht hs with hpl | ⟨p, status, hr, _, rfl⟩ | ⟨p, c, addr, hk, hp, hc, hz, rfl⟩
  · obtain ⟨hpast, hfresh, hzombie, hkept⟩ := record_plain ht h hs hpl
    have hexited : s'.exited = s.exited := by unfold exited; rw [hpl.exits]
    have hreaped : s'.reaped = s.reaped := by unfold reaped; rw [hpl.waits]
    refine ⟨hdistinct, hpast, hfresh, hexited ▸ h.exitsOnce, hzombie, hkept, hreaped ▸ h.waitsOnce,
      ?_, hforker, hadopted, ?_⟩
    · rw [hpl.waits, hpl.exits]
      exact h.exact
    · rw [hpl.waits, hexited]
      exact h.waiters
  · obtain ⟨hpast, hfresh, honce, hzombie, hkept⟩ := record_zombie h ht status hr
    refine ⟨hdistinct, hpast, hfresh, honce, hzombie, hkept, h.waitsOnce, ?_, hforker, hadopted, ?_⟩
    · intro w hmem
      obtain ⟨e, he, hrest⟩ := h.exact w hmem
      exact ⟨e, mem_append_left _ he, hrest⟩
    · intro w hmem
      rcases h.waiters w hmem with hown | ⟨hz, hx⟩
      · exact .inl hown
      · exact .inr ⟨hz, (records_mono ht hs).2 _ hx⟩
  · obtain ⟨hfresh, hzombie, hkept, honce, hexact⟩ := record_reap h p addr hz
    refine ⟨hdistinct, h.past, hfresh, h.exitsOnce, hzombie, hkept, honce, hexact, hforker, hadopted,
      ?_⟩
    intro w hmem
    rcases mem_append.mp hmem with hm | hm
    · exact h.waiters w hm
    · rw [mem_singleton.mp hm]
      exact waiter_of_reap ht hw h hp hc

theorem recordInv_init : RecordInv init where
  distinct _ _ hi := absurd rfl hi
  past _ he := absurd he (by simp [init])
  fresh _ hi := absurd rfl hi
  exitsOnce := nodup_nil
  zombie _ hz := absurd hz (by simp [init, state, Proc.init])
  kept _ he := absurd he (by simp [init])
  waitsOnce := nodup_nil
  exact _ hw := absurd hw (by simp [init])
  forkerIs _ _ hp := absurd hp (by simp [init, Path.forking])
  adopted _ _ hp := absurd hp (by simp [init, parent, Proc.init])
  waiters _ hw := absurd hw (by simp [init])

theorem run_recordInv {s : State} (h : Run s) : RecordInv s :=
  h.invariant_with (fun s => TreeInv s ∧ WaitInv s) RecordInv
    (fun _ hr => ⟨run_treeInv hr, run_waitInv hr⟩)
    (fun _ hs => by rw [hs]; exact recordInv_init)
    (fun _ _ hk _ hi hs => recordInv_step hk.1 hk.2 hi hs)

/-! ## §4. Delivery. -/

/-- **Exit and wait.** In every run: each process exits at most once and is returned by at most one
wait, of its parent or initproc, with its pid and status, and stays a ZOMBIE until then. While
`wait_lock` is free, no process with a ZOMBIE child sleeps in `wait`. -/
theorem exit_wait_exact (s : State) (h : Run s) :
    (s.exits.map Exit.born).Nodup ∧ (s.waits.map Wait.child).Nodup ∧
    (∀ w ∈ s.waits, ∃ e ∈ s.exits, e.born = w.child ∧ e.pid = w.pid ∧
      ∀ x, w.status = some x → x = e.status) ∧
    (∀ w ∈ s.waits, w.waiter = w.forker ∨
      ((∃ ip, s.initproc = some ip ∧ s.born ip = w.waiter) ∧ ∃ e ∈ s.exits, e.born = w.forker)) ∧
    (∀ e ∈ s.exits, (∃ w ∈ s.waits, w.child = e.born) ∨
      (s.state e.slot = .ZOMBIE ∧ s.born e.slot = e.born ∧ (s.proc e.slot).pid = e.pid ∧
        (s.proc e.slot).xstate = e.status)) ∧
    (s.waitLock = none → ∀ (p c : Slot) (addr : Bool), s.path p = .asleep addr →
      s.state p = .SLEEPING → s.parent c = some p → s.state c ≠ .ZOMBIE) := by
  have ht := run_treeInv h
  have hw := run_waitInv h
  have hr := run_recordInv h
  refine ⟨hr.exitsOnce, hr.waitsOnce, hr.exact, fun w hmem => ?_, fun e he => ?_, ?_⟩
  · rcases hr.waiters w hmem with hown | ⟨hz, hx⟩
    · exact .inl hown
    · obtain ⟨e, he, heq⟩ := List.mem_map.mp hx
      refine .inr ⟨?_, e, he, heq⟩
      cases hi : s.initproc with
      | none =>
        -- before userinit nothing has exited
        have := hr.past e he
        rw [(ht.blank hi).1] at this
        omega
      | some ip => exact ⟨ip, rfl, (ht.init ip hi).2.trans hz.symm⟩
  · rcases hr.kept e he with hx | ⟨hz, heq⟩
    · exact .inl (List.mem_map.mp hx)
    · refine .inr ⟨hz, ?_, ?_, ?_⟩
      · exact congrArg Exit.born heq
      · exact congrArg Exit.pid heq
      · exact congrArg Exit.status heq
  · intro hfree p c addr hp hst hpar hz
    obtain ⟨_, e, status, i, k, hpe, _⟩ := hw.noLost p c ⟨addr, .inr ⟨hp, hst⟩⟩ hpar hz
    have := (hw.held e).mpr (by rw [hpe]; rfl)
    rw [hfree] at this
    exact absurd this (by simp)

/-! ## §5. A run that delivers an exit. -/

theorem goto_goto (s : State) (p : Slot) (a b : Path) : (s.goto p a).goto p b = s.goto p b := by
  unfold goto
  simp

theorem run_reparent_none {s : State} {p : Slot} {status : Int} (hr : s.state p = .RUNNING)
    (hn : ∀ j, s.parent j ≠ some p) (k i : Nat) (hk : i + k = NPROC)
    (h : Run (s.goto p (.reparent status i))) : Run (s.goto p (.reparent status NPROC)) := by
  induction k generalizing i with
  | zero =>
    rw [← hk]
    exact h
  | succ k ih =>
    have hi : i < NPROC := by omega
    have hmove : Move (s.goto p (.reparent status i)) p (.reparent status i)
        (.reparent status (i + 1)) :=
      @Move.reparentSkip _ _ status ⟨i, hi⟩ (hn ⟨i, hi⟩)
    have hnext := h.next (.move hr (by simp) hmove)
    rw [goto_goto] at hnext
    exact ih (i + 1) (by omega) hnext

theorem run_exitWake_none {s : State} {p : Slot} {status : Int} (hr : s.state p = .RUNNING)
    (hl : ∀ j, s.lock j = none) (hn : ∀ j, s.state j ≠ .SLEEPING) (k i : Nat) (hk : i + k = NPROC)
    (h : Run (s.goto p (.exitWake status i))) : Run (s.goto p (.exitWake status NPROC)) := by
  induction k generalizing i with
  | zero =>
    rw [← hk]
    exact h
  | succ k ih =>
    have hi : i < NPROC := by omega
    have hw : Wakes (s.goto p (.exitWake status i)) p (.exitWake status i) ⟨i, hi⟩ _
        (.exitWake status (i + 1)) := @Wakes.parent _ _ status ⟨i, hi⟩
    refine ih (i + 1) (by omega) ?_
    by_cases hip : (⟨i, hi⟩ : Slot) = p
    · rw [hip] at hw
      have hnext := h.next (.wakeupSelf hr (by simp) hw)
      rwa [goto_goto] at hnext
    · have hnext := h.next (.wakeup hr (by simp) hw hip (hl _))
      have hno : ∀ chan, (s.goto p (.exitWake status i)).wakeupSlot ⟨i, hi⟩ chan
          = s.goto p (.exitWake status i) := by
        intro chan
        unfold wakeupSlot
        exact if_neg (fun hs => hn ⟨i, hi⟩ hs.1)
      rwa [hno, goto_goto] at hnext

theorem exists_run_waited : ∃ s : State, Run s ∧
    s.waits = [{ waiter := 0, child := 1, forker := 0, pid := 2, status := some 7 }] := by
  have h1 := run_forkedState.next (@Step.dispatch _ 1 rfl rfl)
  have h2 := (h1.next (@Step.move _ 1 _ _ rfl rfl (@Move.exit _ _ 7 (by decide)))).next
    (@Step.enter _ 1 _ _ rfl rfl .exit rfl)
  have h3 := run_reparent_none rfl (by decide +kernel) NPROC 0 rfl h2
  have h4 := h3.next (@Step.move _ 1 _ _ rfl rfl .reparentDone)
  rw [goto_goto] at h4
  have h5 := run_exitWake_none rfl (by decide +kernel) (by decide +kernel) NPROC 0 rfl h4
  have h6 := (h5.next (@Step.zombie _ 1 _ rfl rfl rfl)).next (@Step.exitSched _ 1 rfl)
  have h7 := (h6.next (@Step.move _ 0 _ _ rfl rfl (@Move.wait _ _ true))).next
    (@Step.enter _ 0 _ _ rfl rfl .wait rfl)
  have h8 := h7.next (@Step.move _ 0 _ _ rfl rfl (@Move.waitSkip _ _ _ _ 0 (by decide)))
  exact ⟨_, h8.next (@Step.waitReap _ 0 1 _ _ rfl rfl rfl rfl rfl), rfl⟩

/-- That wait has returned the status of the exit. -/
theorem exit_wait_exact_of_run : ∃ s : State, s.waits.length = 1 ∧
    ∃ e ∈ s.exits, e.born = 1 ∧ e.pid = 2 ∧ e.status = 7 := by
  obtain ⟨s, hrun, hw⟩ := exists_run_waited
  obtain ⟨_, _, hexact, _⟩ := exit_wait_exact s hrun
  rw [hw] at hexact
  obtain ⟨e, he, hb, hpid, hst⟩ := hexact _ (List.mem_singleton_self _)
  exact ⟨s, by rw [hw]; rfl, e, he, hb, hpid, (hst 7 rfl).symm⟩

end Xv6.Lifecycle
