/-
  Xv6.Proc.SleepWakeup — sleep and wakeup (proc.c), one lock operation or store at a time.

  Any number of processes, spin locks `L` and channels `C`.  What the processes do
  between the calls is left open, but for the locks that they take.
-/
import Xv6.Lib.Run

namespace Xv6.SleepWakeup

open Lib Function Option

/-! ## §1. The machine. -/

inductive ProcState where
  | RUNNABLE | RUNNING | SLEEPING
  deriving DecidableEq

/-- Where a process is in sleep(c, l) or in wakeup(c), which it calls with `l` held. -/
inductive Pc (n : Nat) (C L : Type) where
  | out
  | sleepAcquire (c : C) (l : L)
  | sleepRelease (c : C) (l : L)
  | sleepChan (c : C) (l : L)
  | sleepState (c : C) (l : L)
  | sleepSched (c : C) (l : L)
  /-- Off the CPU, in sched. -/
  | asleep (c : C) (l : L)
  | tidyChan (l : L)
  | tidyRelease (l : L)
  | tidyAcquire (l : L)
  | wakeNext (c : C) (l : L) (i : Nat)
  | wakeTest (c : C) (l : L) (q : Fin n)
  | wakeState (c : C) (l : L) (q : Fin n)
  | wakeRelease (c : C) (l : L) (q : Fin n)
  deriving DecidableEq

/-- Who holds the lock of a process. -/
inductive Holder (n : Nat) where
  | proc (p : Fin n)
  | scheduler
  deriving DecidableEq

structure State (n : Nat) (C L : Type) where
  pc : Fin n → Pc n C L
  lk : L → Option (Fin n)
  lock : Fin n → Option (Holder n)
  state : Fin n → ProcState
  /-- `none` is 0. -/
  chan : Fin n → Option C

section

variable {n : Nat} {C L : Type} [DecidableEq C] [DecidableEq L]

namespace State

def goto (s : State n C L) (p : Fin n) (x : Pc n C L) : State n C L :=
  { s with pc := update s.pc p x }

def setLk (s : State n C L) (l : L) (h : Option (Fin n)) : State n C L :=
  { s with lk := update s.lk l h }

def setLock (s : State n C L) (q : Fin n) (h : Option (Holder n)) : State n C L :=
  { s with lock := update s.lock q h }

def setState (s : State n C L) (q : Fin n) (x : ProcState) : State n C L :=
  { s with state := update s.state q x }

def setChan (s : State n C L) (q : Fin n) (c : Option C) : State n C L :=
  { s with chan := update s.chan q c }

end State

/-- The next lock operation or store of a process inside sleep or wakeup. -/
def advance (s : State n C L) (p : Fin n) : Option (State n C L) :=
  match s.pc p with
  | .out | .asleep _ _ => none
  | .sleepAcquire c l =>
    if s.lock p = none then some ((s.setLock p (some (.proc p))).goto p (.sleepRelease c l))
    else none
  | .sleepRelease c l => some ((s.setLk l none).goto p (.sleepChan c l))
  | .sleepChan c l => some ((s.setChan p (some c)).goto p (.sleepState c l))
  | .sleepState c l => some ((s.setState p .SLEEPING).goto p (.sleepSched c l))
  -- swtch leaves the lock to the scheduler
  | .sleepSched c l => some ((s.setLock p (some .scheduler)).goto p (.asleep c l))
  | .tidyChan l => some ((s.setChan p none).goto p (.tidyRelease l))
  | .tidyRelease l => some ((s.setLock p none).goto p (.tidyAcquire l))
  | .tidyAcquire l => if s.lk l = none then some ((s.setLk l (some p)).goto p .out) else none
  | .wakeNext c l i =>
    if h : i < n then
      if ⟨i, h⟩ = p then some (s.goto p (.wakeNext c l (i + 1)))
      else if s.lock ⟨i, h⟩ = none then
        some ((s.setLock ⟨i, h⟩ (some (.proc p))).goto p (.wakeTest c l ⟨i, h⟩))
      else none
    else some (s.goto p .out)
  | .wakeTest c l q =>
    if s.state q = .SLEEPING ∧ s.chan q = some c then some (s.goto p (.wakeState c l q))
    else some (s.goto p (.wakeRelease c l q))
  | .wakeState c l q => some ((s.setState q .RUNNABLE).goto p (.wakeRelease c l q))
  | .wakeRelease c l q => some ((s.setLock q none).goto p (.wakeNext c l (q + 1)))

inductive Act (n : Nat) (C L : Type) where
  | acquire (p : Fin n) (l : L)
  | release (p : Fin n) (l : L)
  | sleep (p : Fin n) (c : C) (l : L)
  | wakeup (p : Fin n) (c : C) (l : L)
  | go (p : Fin n)
  /-- The scheduler acquires the lock of a process, releases it or dispatches the process. -/
  | look (p : Fin n)
  | leave (p : Fin n)
  | dispatch (p : Fin n)
  | kill (p : Fin n)

def step (s : State n C L) : Act n C L → Option (State n C L)
  | .acquire p l =>
    if s.pc p = .out ∧ s.lk l = none then some (s.setLk l (some p)) else none
  | .release p l =>
    if s.pc p = .out ∧ s.lk l = some p then some (s.setLk l none) else none
  | .sleep p c l =>
    if s.pc p = .out ∧ s.lk l = some p then some (s.goto p (.sleepAcquire c l)) else none
  | .wakeup p c l =>
    if s.pc p = .out ∧ s.lk l = some p then some (s.goto p (.wakeNext c l 0)) else none
  | .go p => advance s p
  | .look p => if s.lock p = none then some (s.setLock p (some .scheduler)) else none
  | .leave p => if s.lock p = some .scheduler then some (s.setLock p none) else none
  | .dispatch p =>
    match s.pc p with
    | .asleep _ l =>
      if s.lock p = some .scheduler ∧ s.state p = .RUNNABLE then
        some (((s.setState p .RUNNING).setLock p (some (.proc p))).goto p (.tidyChan l))
      else none
    | _ => none
  | .kill p =>
    if s.lock p = none then
      some (if s.state p = .SLEEPING then s.setState p .RUNNABLE else s)
    else none

/-- All processes run, outside of sleep and wakeup, and no lock is held. -/
def init : State n C L :=
  { pc := fun _ => .out
    lk := fun _ => none
    lock := fun _ => none
    state := fun _ => .RUNNING
    chan := fun _ => none }

def Run : State n C L → Prop := Reachable (· = init) fun s s' => ∃ a, step s a = some s'

end

namespace Pc

variable {n : Nat} {C L : Type}

/-- The state of the process may be SLEEPING. -/
def off : Pc n C L → Bool
  | .sleepSched _ _ | .asleep _ _ => true
  | _ => false

/-- In sleep(c, l), `l` is released and the process has not been woken. -/
def Dozes (c : C) (l : L) (st : ProcState) : Pc n C L → Prop
  | .sleepChan c' l' | .sleepState c' l' | .sleepSched c' l' => c' = c ∧ l' = l
  | .asleep c' l' => (c' = c ∧ l' = l) ∧ st = .SLEEPING
  | _ => False

/-- In sleep(c, l), `l` is released and not yet acquired again. -/
def Inside (c : C) (l : L) : Pc n C L → Prop
  | .sleepChan c' l' | .sleepState c' l' | .sleepSched c' l' | .asleep c' l' => c' = c ∧ l' = l
  | .tidyChan l' | .tidyRelease l' | .tidyAcquire l' => l' = l
  | _ => False

/-- The channel and the lock of a wakeup, and how many processes it has dealt with. -/
def scanned : Pc n C L → Option (C × L × Nat)
  | .wakeNext c l i => some (c, l, i)
  | .wakeTest c l q | .wakeState c l q => some (c, l, q)
  | .wakeRelease c l q => some (c, l, q + 1)
  | _ => none

end Pc

section

variable {n : Nat} {C L : Type} {s s' : State n C L} {p q w : Fin n} {c : C} {l : L} {x : Pc n C L}

/-! ## §2. What the others leave alone. -/

/-- What `p` may rely on while others run: what it holds is its own. -/
structure Rely (p : Fin n) (s s' : State n C L) : Prop where
  pc : s'.pc p = s.pc p
  lk : ∀ l, s.lk l = some p → s'.lk l = some p
  lock : ∀ q, s.lock q = some (.proc p) →
    s'.lock q = some (.proc p) ∧ s'.state q = s.state q ∧ s'.chan q = s.chan q
  chan : s'.chan p = s.chan p
  state : s'.state p = .SLEEPING → s.state p = .SLEEPING

theorem Rely.refl (p : Fin n) (s : State n C L) : Rely p s s :=
  ⟨rfl, fun _ h => h, fun _ h => ⟨h, rfl, rfl⟩, rfl, id⟩

theorem Rely.goto (h : Rely p s s') (hp : p ≠ q) : Rely p s (s'.goto q x) :=
  ⟨(update_of_ne hp _ _).trans h.pc, h.lk, h.lock, h.chan, h.state⟩

theorem Rely.setLk [DecidableEq L] (hl : s.lk l ≠ some p) {y : Option (Fin n)} :
    Rely p s (s.setLk l y) := by
  refine ⟨rfl, fun l' h => ?_, fun _ h => ⟨h, rfl, rfl⟩, rfl, id⟩
  have hne : l' ≠ l := fun e => hl (e ▸ h)
  exact (update_of_ne hne _ _).trans h

theorem Rely.setLock (h : Rely p s s') (hq : s.lock q ≠ some (.proc p)) {y : Option (Holder n)} :
    Rely p s (s'.setLock q y) := by
  refine ⟨h.pc, h.lk, fun q' hq' => ⟨?_, (h.lock q' hq').2⟩, h.chan, h.state⟩
  have hne : q' ≠ q := fun e => hq (e ▸ hq')
  exact (update_of_ne hne _ _).trans (h.lock q' hq').1

theorem Rely.setChan (hq : s.lock q ≠ some (.proc p)) (hp : p ≠ q) {y : Option C} :
    Rely p s (s.setChan q y) := by
  refine ⟨rfl, fun _ h => h, fun q' h => ⟨h, rfl, ?_⟩, update_of_ne hp _ _, id⟩
  have hne : q' ≠ q := fun e => hq (e ▸ h)
  exact update_of_ne hne _ _

theorem Rely.setState {y : ProcState} (hq : s.lock q ≠ some (.proc p))
    (hy : p = q → y ≠ .SLEEPING) : Rely p s (s.setState q y) := by
  refine ⟨rfl, fun _ h => h, fun q' h => ⟨h, ?_, rfl⟩, rfl, fun h => ?_⟩
  · have hne : q' ≠ q := fun e => hq (e ▸ h)
    exact update_of_ne hne _ _
  · change update s.state q y p = .SLEEPING at h
    by_cases he : p = q
    · subst he
      rw [update_self] at h
      exact absurd h (hy rfl)
    · rwa [update_of_ne he] at h

def Dozing (s : State n C L) (c : C) (l : L) (p : Fin n) : Prop := (s.pc p).Dozes c l (s.state p)

/-! ## §3. What holds at each place of the code. -/

/-- In wakeup with the lock of `q`. -/
def Visits (s : State n C L) (p : Fin n) (l : L) (q : Fin n) : Prop :=
  s.lk l = some p ∧ q ≠ p ∧ s.lock q = some (.proc p)

def At (s : State n C L) (p : Fin n) : Pc n C L → Prop
  | .out | .tidyAcquire _ => True
  | .sleepAcquire _ l | .wakeNext _ l _ => s.lk l = some p
  | .sleepRelease _ l => s.lk l = some p ∧ s.lock p = some (.proc p)
  | .sleepChan _ _ | .tidyChan _ | .tidyRelease _ => s.lock p = some (.proc p)
  | .sleepState c _ | .sleepSched c _ => s.lock p = some (.proc p) ∧ s.chan p = some c
  | .asleep c _ => s.chan p = some c
  | .wakeTest _ l q | .wakeRelease _ l q => Visits s p l q
  | .wakeState c l q => Visits s p l q ∧ s.state q = .SLEEPING ∧ s.chan q = some c

structure Ok (s : State n C L) (p : Fin n) : Prop where
  here : At s p (s.pc p)
  off : s.state p = .SLEEPING → (s.pc p).off = true

theorem Visits.rely (h : Visits s p l q) (hr : Rely p s s') : Visits s' p l q :=
  ⟨hr.lk l h.1, h.2.1, (hr.lock q h.2.2).1⟩

theorem At.rely (h : At s p x) (hr : Rely p s s') : At s' p x := by
  cases x with
  | out | tidyAcquire => trivial
  | sleepAcquire | wakeNext => exact hr.lk _ h
  | sleepRelease => exact ⟨hr.lk _ h.1, (hr.lock p h.2).1⟩
  | sleepChan | tidyChan | tidyRelease => exact (hr.lock p h).1
  | sleepState | sleepSched => exact ⟨(hr.lock p h.1).1, hr.chan.trans h.2⟩
  | asleep => exact hr.chan.trans h
  | wakeTest | wakeRelease => exact Visits.rely h hr
  | wakeState c l q =>
    obtain ⟨_, hstate, hchan⟩ := hr.lock q h.1.2.2
    exact ⟨h.1.rely hr, hstate.trans h.2.1, hchan.trans h.2.2⟩

theorem Ok.rely (h : Ok s p) (hr : Rely p s s') : Ok s' p := by
  constructor
  · rw [hr.pc]
    exact h.here.rely hr
  · rw [hr.pc]
    exact fun hstate => h.off (hr.state hstate)

theorem goto_pc (s : State n C L) (p : Fin n) (x : Pc n C L) : (s.goto p x).pc p = x :=
  update_self ..

theorem dozes_state {st st' : ProcState} (hst : st' = .SLEEPING → st = .SLEEPING)
    (hd : x.Dozes c l st') : x.Dozes c l st := by
  cases x <;> first | exact hd | exact ⟨hd.1, hst hd.2⟩

theorem Dozing.rely (hr : Rely q s s') (hd : Dozing s' c l q) : Dozing s c l q := by
  unfold Dozing at hd
  rw [hr.pc] at hd
  exact dozes_state hr.state hd

theorem Ok.goto (hat : At s p x) (hoff : s.state p = .SLEEPING → x.off = true) :
    Ok (s.goto p x) p := by
  constructor
  · rw [goto_pc]
    cases x <;> exact hat
  · rw [goto_pc]
    exact hoff

/-- What a step of `p` means for it and for the others. -/
def Kept (s s' : State n C L) (p : Fin n) : Prop := Ok s' p ∧ ∀ q, q ≠ p → Rely q s s'

theorem Kept.all (h : ∀ q, Ok s q) (hk : Kept s s' p) (q : Fin n) : Ok s' q := by
  by_cases he : q = p
  · exact he ▸ hk.1
  · exact (h q).rely (hk.2 q he)

/-- A process whose lock wakeup holds and which dozes is off its CPU. -/
theorem dozes_locked {st : ProcState} (h : Ok s q) (hlock : s.lock q = some (.proc p)) (hne : q ≠ p)
    (hd : (s.pc q).Dozes c l st) : st = .SLEEPING ∧ s.chan q = some c := by
  have hat := h.here
  have hself : s.lock q ≠ some (.proc q) := by
    rw [hlock]
    intro he
    cases he
    exact hne rfl
  cases hpc : s.pc q <;> rw [hpc] at hd hat
  case sleepChan => exact absurd hat hself
  case sleepState => exact absurd hat.1 hself
  case sleepSched => exact absurd hat.1 hself
  case asleep =>
    obtain ⟨⟨rfl, rfl⟩, hst⟩ := hd
    exact ⟨hst, hat⟩
  all_goals cases hd

/-- wakeup is called with the lock held. -/
theorem Ok.lk {i : Nat} (h : Ok s w) (hw : (s.pc w).scanned = some (c, l, i)) :
    s.lk l = some w := by
  have hat := h.here
  cases hpc : s.pc w <;> rw [hpc] at hw hat <;> cases hw
  case wakeNext => exact hat
  case wakeState => exact hat.1.1
  all_goals exact hat.1

/-- What a step of `p`, which leads to `x`, means for its own sleep or wakeup. -/
structure Own (s s' : State n C L) (p : Fin n) (x : Pc n C L) : Prop where
  dozes : ∀ c l, x.Dozes c l (s'.state p) → Dozing s c l p ∨ s.lk l = some p
  inside : ∀ c l, (s.pc p).Inside c l → x.Inside c l ∨ s.lk l = none
  scanned : ∀ c l i, x.scanned = some (c, l, i) → ∀ q : Fin n, q < i → q ≠ p → Dozing s' c l q →
    ∃ j, (s.pc p).scanned = some (c, l, j) ∧ q < j

theorem Own.same (hpc : s'.pc p = s.pc p) (hst : s'.state p = .SLEEPING → s.state p = .SLEEPING) :
    Own s s' p (s'.pc p) := by
  rw [hpc]
  exact ⟨fun c l hd => .inl (dozes_state hst hd), fun c l hi => .inl hi,
    fun c l i hi q hq _ _ => ⟨i, hi, hq⟩⟩

theorem own_of_rely (h : Ok s p) (hr : ∀ q, Rely q s s') :
    ∃ p, Kept s s' p ∧ Own s s' p (s'.pc p) :=
  ⟨p, ⟨h.rely (hr p), fun q _ => hr q⟩, .same (hr p).pc (hr p).state⟩

variable [DecidableEq C] [DecidableEq L]

theorem kept_advance (h : Ok s p) (hs : advance s p = some s') : Kept s s' p := by
  obtain ⟨hat, hoff⟩ := h
  have hproc : ∀ {q r}, s.lock q = some (.proc p) → r ≠ p → s.lock q ≠ some (.proc r) := by
    intro q r hq hr he
    cases hq.symm.trans he
    exact hr rfl
  have hlk : ∀ {l r}, s.lk l = some p → r ≠ p → s.lk l ≠ some r := by
    intro l r hl hr he
    exact hr (Option.some.inj (he.symm.trans hl))
  unfold advance at hs
  split at hs <;> rename_i hpc <;> rw [hpc] at hat hoff
  · cases hs
  · cases hs
  · split at hs <;> cases hs
    rename_i hfree
    exact ⟨.goto ⟨hat, update_self ..⟩ hoff,
      fun q hq => ((Rely.refl q s).setLock (by rw [hfree]; simp)).goto hq⟩
  · cases hs
    exact ⟨.goto hat.2 hoff, fun q hq => (Rely.setLk (hlk hat.1 hq)).goto hq⟩
  · cases hs
    exact ⟨.goto ⟨hat, update_self ..⟩ hoff,
      fun q hq => (Rely.setChan (hproc hat hq) hq).goto hq⟩
  · cases hs
    exact ⟨.goto hat fun _ => rfl,
      fun q hq => (Rely.setState (hproc hat.1 hq) fun he => absurd he hq).goto hq⟩
  · cases hs
    exact ⟨.goto hat.2 hoff, fun q hq => ((Rely.refl q s).setLock (hproc hat.1 hq)).goto hq⟩
  · cases hs
    exact ⟨.goto hat hoff, fun q hq => (Rely.setChan (hproc hat hq) hq).goto hq⟩
  · cases hs
    exact ⟨.goto trivial hoff, fun q hq => ((Rely.refl q s).setLock (hproc hat hq)).goto hq⟩
  · split at hs <;> cases hs
    rename_i hfree
    exact ⟨.goto trivial hoff, fun q hq => (Rely.setLk (by rw [hfree]; simp)).goto hq⟩
  · split at hs
    · split at hs
      · cases hs
        exact ⟨.goto hat hoff, fun q hq => (Rely.refl q s).goto hq⟩
      · split at hs <;> cases hs
        rename_i hne hfree
        exact ⟨.goto ⟨hat, hne, update_self ..⟩ hoff,
          fun q hq => ((Rely.refl q s).setLock (by rw [hfree]; simp)).goto hq⟩
    · cases hs
      exact ⟨.goto trivial hoff, fun q hq => (Rely.refl q s).goto hq⟩
  · split at hs <;> cases hs
    · rename_i htest
      exact ⟨.goto ⟨hat, htest⟩ hoff, fun q hq => (Rely.refl q s).goto hq⟩
    · exact ⟨.goto hat hoff, fun q hq => (Rely.refl q s).goto hq⟩
  · cases hs
    refine ⟨.goto hat.1 fun hp => ?_,
      fun q hq => (Rely.setState (hproc hat.1.2.2 hq) fun _ => by simp).goto hq⟩
    exact hoff ((update_of_ne hat.1.2.1.symm _ _).symm.trans hp)
  · cases hs
    exact ⟨.goto hat.1 hoff, fun q hq => ((Rely.refl q s).setLock (hproc hat.2.2 hq)).goto hq⟩

/-! ## §4. Sleepers and wakers. -/

theorem own_advance (h : ∀ q, Ok s q) (hs : advance s p = some s') : Own s s' p (s'.pc p) := by
  have hat := (h p).here
  unfold advance at hs
  split at hs <;> rename_i hpc <;> (repeat' split at hs) <;> cases hs <;>
    rw [hpc] at hat <;> simp only [goto_pc] <;> constructor <;>
    simp [hpc, Pc.Dozes, Pc.Inside, Pc.scanned, Dozing.eq_1 s]
  case h_4.refl.dozes => exact hat.1
  case h_10.isTrue.refl.inside hfree => exact fun _ => hfree
  case h_11.isTrue.isTrue.refl.scanned hp =>
    -- the process itself is left out
    intro q hle hne _
    exact lt_of_le_of_ne hle fun he => hne ((Fin.ext he).trans hp)
  case h_12.isFalse.refl.scanned r htest =>
    intro q hle hne hd
    refine lt_of_le_of_ne hle ?_
    rintro rfl
    exact htest (dozes_locked (h q) hat.2.2 hne (Dozing.rely ((Rely.refl q s).goto hne) hd))
  case h_13.refl.scanned r =>
    intro q hle hne hd
    refine lt_of_le_of_ne hle ?_
    rintro rfl
    have hd' : Dozing (s.setState q .RUNNABLE) _ _ q := Dozing.rely ((Rely.refl q _).goto hne) hd
    have hrun : update s.state q .RUNNABLE q = .SLEEPING := (dozes_locked (h q) hat.1.2.2 hne hd').1
    rw [update_self] at hrun
    cases hrun
  all_goals exact fun q hq _ _ => hq

/-- A call of sleep or wakeup. -/
theorem own_step {a : Act n C L} (h : ∀ q, Ok s q) (hs : step s a = some s') :
    ∃ p, Kept s s' p ∧ Own s s' p (s'.pc p) := by
  cases a with
  | go p => exact ⟨p, kept_advance (h p) hs, own_advance h hs⟩
  | acquire p l =>
    obtain ⟨⟨_, hfree⟩, ⟨⟩⟩ := ite_none_right_eq_some.mp hs
    exact own_of_rely (h p) fun q => .setLk (by rw [hfree]; simp)
  | release p l =>
    obtain ⟨⟨hpc, hl⟩, ⟨⟩⟩ := ite_none_right_eq_some.mp hs
    refine ⟨p, ⟨⟨?_, (h p).off⟩, fun q hq => .setLk fun he => ?_⟩, Own.same rfl id⟩
    · show At _ p (s.pc p)
      rw [hpc]
      trivial
    · exact hq (Option.some.inj (he.symm.trans hl))
  | sleep p c l | wakeup p c l =>
    obtain ⟨⟨hpc, hl⟩, ⟨⟩⟩ := ite_none_right_eq_some.mp hs
    have hoff := (h p).off
    rw [hpc] at hoff
    refine ⟨p, ⟨.goto hl hoff, fun q hq => (Rely.refl q s).goto hq⟩, ?_⟩
    constructor <;> simp [goto_pc, hpc, Pc.Dozes, Pc.Inside, Pc.scanned]
  | look p | leave p =>
    obtain ⟨hlock, ⟨⟩⟩ := ite_none_right_eq_some.mp hs
    exact own_of_rely (h p) fun q => (Rely.refl q s).setLock (by rw [hlock]; simp)
  | dispatch p =>
    unfold step at hs
    dsimp only at hs
    split at hs
    · rename_i hpc
      obtain ⟨⟨hlock, _⟩, ⟨⟩⟩ := ite_none_right_eq_some.mp hs
      have hother : ∀ q, s.lock p ≠ some (.proc q) := fun q => by rw [hlock]; simp
      refine ⟨p, ⟨.goto (update_self ..) fun hp => ?_, fun q hq => ?_⟩, ?_⟩
      · change update s.state p .RUNNING p = .SLEEPING at hp
        rw [update_self] at hp
        cases hp
      · exact ((Rely.setState (hother q) fun _ => by simp).setLock (hother q)).goto hq
      · constructor <;> simp [goto_pc, hpc, Pc.Dozes, Pc.Inside, Pc.scanned]
    · cases hs
  | kill p =>
    obtain ⟨hfree, ⟨⟩⟩ := ite_none_right_eq_some.mp hs
    refine own_of_rely (h p) fun q => ?_
    split
    · exact .setState (by rw [hfree]; simp) fun _ => by simp
    · exact .refl q s

/-! ## §4. Sleepers and wakers. -/

structure Inv (s : State n C L) : Prop where
  ok : ∀ p, Ok s p
  /-- wakeup has left nobody asleep. -/
  scanned : ∀ w c l i, (s.pc w).scanned = some (c, l, i) →
    ∀ q : Fin n, q < i → q ≠ w → ¬ Dozing s c l q

theorem Inv.step {a : Act n C L} (h : Inv s) (hs : SleepWakeup.step s a = some s') : Inv s' := by
  obtain ⟨p, hkept, hown⟩ := own_step h.ok hs
  refine ⟨hkept.all h.ok, fun w c l i hw q hq hne hd => ?_⟩
  by_cases hwp : w = p
  · subst hwp
    obtain ⟨j, hj, hlt⟩ := hown.scanned c l i hw q hq hne hd
    exact h.scanned w c l j hj q hlt hne (hd.rely (hkept.2 q hne))
  · rw [(hkept.2 w hwp).pc] at hw
    refine h.scanned w c l i hw q hq hne ?_
    by_cases hqp : q = p
    · subst hqp
      -- nobody but the waker has the lock
      refine (hown.dozes c l hd).resolve_right fun hl => ?_
      exact hne (Option.some.inj (hl.symm.trans ((h.ok w).lk hw)))
    · exact hd.rely (hkept.2 q hqp)

theorem inv_of_run (h : Run s) : Inv s := by
  refine h.invariant Inv ?_ fun s s' hi ⟨a, hs⟩ => hi.step hs
  rintro s rfl
  exact ⟨fun p => ⟨trivial, fun h => by cases h⟩, fun w c l i hw => by cases hw⟩

/-- `w` holds `l` from `s` on until `s'`. -/
def Holding (w : Fin n) (l : L) (s : State n C L) : State n C L → Prop :=
  Reachable (· = s) fun s s' => ∃ a, step s a = some s' ∧ s.lk l = some w

theorem Holding.run (h : Holding w l s s') (hrun : Run s) : Run s' := by
  refine h.invariant Run ?_ fun t t' ht ⟨a, hs, _⟩ => ht.next ⟨a, hs⟩
  rintro t rfl
  exact hrun

theorem Holding.inside (h : Holding w l s s') (hrun : Run s) (hq : (s.pc q).Inside c l) :
    (s'.pc q).Inside c l := by
  refine h.invariant_with Run (fun t => (t.pc q).Inside c l) (fun t ht => Holding.run ht hrun) ?_ ?_
  · rintro t rfl
    exact hq
  · rintro t t' ht _ hin ⟨a, hs, hl⟩
    obtain ⟨p, hkept, hown⟩ := own_step (inv_of_run ht).ok hs
    by_cases hqp : q = p
    · subst hqp
      refine (hown.inside c l hin).resolve_right fun hfree => ?_
      rw [hl] at hfree
      cases hfree
    · rw [(hkept.2 q hqp).pc]
      exact hin

/-- A step of wakeup changes only the state of a process that sleeps on the channel. -/
theorem wakes_sleeper {i : Nat} (h : Ok s w) (hw : (s.pc w).scanned = some (c, l, i))
    (hs : advance s w = some s') (hq : s'.state q ≠ s.state q) :
    s.state q = .SLEEPING ∧ s.chan q = some c ∧ s'.state q = .RUNNABLE := by
  have hat := h.here
  unfold advance at hs
  split at hs <;> rename_i hpc <;> rw [hpc] at hw hat <;> cases hw <;> (repeat' split at hs) <;>
    cases hs <;> try exact absurd rfl hq
  rename_i r
  by_cases hqr : q = r
  · subst hqr
    exact ⟨hat.2.1, hat.2.2, update_self ..⟩
  · exact absurd (update_of_ne hqr ..) hq

/-- **No wakeup is lost.**  Whoever was in sleep(c, l) with `l` released when the waker acquired `l`
is not SLEEPING on `c` when wakeup(c) returns, nor about to be. -/
theorem no_wakeup_lost {t : State n C L} (h : Run s) (ht : Holding w l s t) :
    (t.pc w = .wakeNext c l n → ∀ q, q ≠ w → (s.pc q).Inside c l →
      ¬ (t.state q = .SLEEPING ∧ t.chan q = some c) ∧ ¬ Dozing t c l q) ∧
    ∀ t' q i, (t.pc w).scanned = some (c, l, i) → step t (.go w) = some t' →
      t'.state q ≠ t.state q →
      t.state q = .SLEEPING ∧ t.chan q = some c ∧ t'.state q = .RUNNABLE := by
  constructor
  · intro hw q hq hin
    replace hin := ht.inside h hin
    have hinv := inv_of_run (ht.run h)
    have hnot := hinv.scanned w c l n (by rw [hw]; rfl) q q.isLt hq
    refine ⟨fun hsleep => hnot ?_, hnot⟩
    have hoff := (hinv.ok q).off hsleep.1
    unfold Dozing
    cases hpc : t.pc q <;> rw [hpc] at hin hoff <;> cases hoff
    · exact hin
    · exact ⟨hin, hsleep.1⟩
  · intro t' q i hw hs
    exact wakes_sleeper ((inv_of_run (ht.run h)).ok w) hw hs

/-- Process 0 has released the lock and not stored its state when process 1 acquires it. -/
theorem no_wakeup_lost_halfAsleep : ∃ s t : State 2 Unit Unit, Run s ∧ Holding 1 () s t ∧
    s.pc 0 = .sleepChan () () ∧ t.pc 1 = .wakeNext () () 2 ∧
    ¬ (t.state 0 = .SLEEPING ∧ t.chan 0 = some ()) := by
  have hsome : ((runActs step init [.acquire 0 (), .sleep 0 () (), .go 0, .go 0,
      .acquire 1 ()]).bind fun s => (runActs (stepIf step fun s _ => s.lk () = some 1) s
        [.wakeup 1 () (), .go 0, .go 0, .go 0, .leave 0, .go 1, .go 1, .go 1, .go 1,
          .go 1]).map fun t => (s.pc 0, t.pc 1)) =
      some (.sleepChan () (), (.wakeNext () () 2 : Pc 2 Unit Unit)) := by
    decide +kernel
  obtain ⟨s, hs, hmap⟩ := Option.bind_eq_some_iff.mp hsome
  obtain ⟨t, ht, hpair⟩ := Option.map_eq_some_iff.mp hmap
  obtain ⟨hsleep, hwake⟩ := Prod.mk.inj hpair
  have hrun : Run s := Reachable.runActs (fun _ a _ h => ⟨a, h⟩) (.start rfl) hs
  have hhold : Holding 1 () s t := Reachable.runIf (.start rfl) ht
  have hin : (s.pc 0).Inside () () := by
    rw [hsleep]
    exact ⟨rfl, rfl⟩
  exact ⟨s, t, hrun, hhold, hsleep, hwake,
    ((no_wakeup_lost hrun hhold).1 hwake 0 (by decide) hin).1⟩

end

end Xv6.SleepWakeup
