/-
  Xv6.Proc.Deadlines — deadfork and drop_dead_processes (proc.c), and the clock that
  drives them.

  `ticks`, `ttl` and `p->deadline` are 32 bits wide, and the deadline -1 means that
  there is none.  What deadfork promises is about the ticks since boot.
-/
import Xv6.Proc.Types
import Xv6.Lib.Run

namespace Xv6.Deadlines

open Lib Function

/-! ## §1. The functions. -/

def Expired (p : Proc) (deadline : UInt32) : Prop :=
  (p.state ≠ .UNUSED ∧ p.state ≠ .ZOMBIE) ∧ p.deadline ≠ -1 ∧ p.deadline ≤ deadline

instance (p : Proc) (deadline : UInt32) : Decidable (Expired p deadline) :=
  inferInstanceAs (Decidable (_ ∧ _))

/-- A process is marked, and woken up if it sleeps. -/
def marked (p : Proc) : Proc :=
  { p with killed := true, state := if p.state = .SLEEPING then .RUNNABLE else p.state }

def dropDead (deadline : UInt32) (p : Proc) : Proc :=
  if Expired p deadline then marked p else p

structure State where
  ticks : UInt32
  proc : Slot → Proc
  /-- Ghost: the ticks since boot. -/
  clock : Nat
  /-- Ghost: when deadfork was called for a process, and its `ttl`. -/
  promise : Slot → Option (Nat × UInt32)

inductive Act where
  | tick
  | fork (p : Slot) (pid : UInt32)
  | deadfork (p : Slot) (ttl : UInt32)
  /-- A process is dispatched, sleeps, is woken up or exits. -/
  | turn (p : Slot) (state : ProcState)
  | kill (p : Slot)
  | free (p : Slot)

def State.setProc (s : State) (p : Slot) (r : Proc) : State :=
  { s with proc := update s.proc p r }

def State.promised (s : State) (p : Slot) (o : Option (Nat × UInt32)) : State :=
  { s with promise := update s.promise p o }

def step (s : State) : Act → Option State
  | .tick =>
    some { s with
      ticks := s.ticks + 1, clock := s.clock + 1, proc := fun p => dropDead (s.ticks + 1) (s.proc p) }
  | .fork p pid =>
    if (s.proc p).state = .UNUSED then
      some ((s.setProc p ((s.proc p).allocated pid)).promised p none)
    else none
  | .deadfork p ttl =>
    if (s.proc p).state ≠ .UNUSED ∧ s.promise p = none then
      some ((s.setProc p { s.proc p with deadline := s.ticks + ttl }).promised p
        (some (s.clock, ttl)))
    else none
  | .turn p state =>
    if (s.proc p).state ≠ .UNUSED ∧ state ≠ .UNUSED then
      some (s.setProc p { s.proc p with state := state })
    else none
  | .kill p => some (s.setProc p (marked (s.proc p)))
  | .free p => some (s.setProc p (s.proc p).freed)

def Start (s : State) : Prop :=
  s.ticks = 0 ∧ s.clock = 0 ∧ (∀ p, s.proc p = Proc.init) ∧ ∀ p, s.promise p = none

def RunWith (ok : State → Act → Prop) : State → Prop :=
  Reachable Start fun s s' => ∃ a, step s a = some s' ∧ ok s a

/-! ## §2. What is promised. -/

/-- The first tick at which the time `clock + ttl` is reached. -/
def firstTick (clock : Nat) (ttl : UInt32) : Nat := max (clock + 1) (clock + ttl.toNat)

/-- The next tick marks nobody too early, and everybody whose time has come. -/
def OnTime (s : State) : Prop :=
  ∀ p, (s.proc p).state ≠ .UNUSED ∧ (s.proc p).state ≠ .ZOMBIE →
    (Expired (s.proc p) (s.ticks + 1) → ∃ clock ttl, s.promise p = some (clock, ttl) ∧
      clock + ttl.toNat ≤ s.clock + 1) ∧
    (∀ clock ttl, s.promise p = some (clock, ttl) → s.clock + 1 = firstTick clock ttl →
      (dropDead (s.ticks + 1) (s.proc p)).killed = true ∧
        (dropDead (s.ticks + 1) (s.proc p)).state ≠ .SLEEPING)

/-- The end of the time is in front of the wrap-around of `ticks`, or all of it
behind. -/
def NoWrap (ticks ttl : UInt32) : Prop :=
  ticks.toNat + ttl.toNat < 2 ^ 32 - 1 ∨ ticks = -1 ∧ ttl ≠ 0

/-- What a call at `clock` with `ttl` leads to: no tick before the first one passes the test, and
the first one does. -/
def Met (clock : Nat) (ttl : UInt32) : Prop :=
  ∀ p : Proc, p.state ≠ .UNUSED ∧ p.state ≠ .ZOMBIE → p.deadline = UInt32.ofNat clock + ttl →
    (∀ now, clock < now → now < firstTick clock ttl → ¬ Expired p (UInt32.ofNat now)) ∧
    Expired p (UInt32.ofNat (firstTick clock ttl))

theorem expired_iff {p : Proc} (hp : p.state ≠ .UNUSED ∧ p.state ≠ .ZOMBIE) {clock : Nat}
    {ttl : UInt32} (hd : p.deadline = UInt32.ofNat clock + ttl) (now : Nat) :
    Expired p (UInt32.ofNat now) ↔ (clock % 2 ^ 32 + ttl.toNat) % 2 ^ 32 ≠ 2 ^ 32 - 1 ∧
      (clock % 2 ^ 32 + ttl.toNat) % 2 ^ 32 ≤ now % 2 ^ 32 := by
  have hnone : p.deadline = -1 ↔ (clock % 2 ^ 32 + ttl.toNat) % 2 ^ 32 = 2 ^ 32 - 1 := by
    rw [hd, ← UInt32.toNat_inj, UInt32.toNat_add, UInt32.toNat_ofNat']
    rfl
  have hle : p.deadline ≤ UInt32.ofNat now ↔
      (clock % 2 ^ 32 + ttl.toNat) % 2 ^ 32 ≤ now % 2 ^ 32 := by
    rw [hd, UInt32.le_iff_toNat_le, UInt32.toNat_add, UInt32.toNat_ofNat', UInt32.toNat_ofNat']
  unfold Expired
  rw [hle, and_iff_right hp, ne_eq, hnone]

theorem noWrap_iff (clock : Nat) (ttl : UInt32) : NoWrap (UInt32.ofNat clock) ttl ↔
    clock % 2 ^ 32 + ttl.toNat < 2 ^ 32 - 1 ∨ clock % 2 ^ 32 = 2 ^ 32 - 1 ∧ ttl.toNat ≠ 0 := by
  unfold NoWrap
  rw [← UInt32.toNat_inj, ← UInt32.toNat_inj.ne, UInt32.toNat_ofNat']
  rfl

theorem met_iff (clock : Nat) (ttl : UInt32) : Met clock ttl ↔ NoWrap (UInt32.ofNat clock) ttl := by
  have httl := ttl.toNat_lt
  rw [noWrap_iff]
  constructor
  · intro hmet
    have halive : ProcState.RUNNABLE ≠ .UNUSED ∧ ProcState.RUNNABLE ≠ .ZOMBIE := by decide
    obtain ⟨p, hp, hd⟩ : ∃ p : Proc, (p.state ≠ .UNUSED ∧ p.state ≠ .ZOMBIE) ∧
        p.deadline = UInt32.ofNat clock + ttl :=
      ⟨{ Proc.init with state := .RUNNABLE, deadline := UInt32.ofNat clock + ttl }, halive, rfl⟩
    obtain ⟨hearly, hfirst⟩ := hmet p hp hd
    have hnext := hearly (clock + 1)
    simp only [expired_iff hp hd] at hnext hfirst
    -- a deadline that has wrapped around is passed by the very next tick
    unfold firstTick at hnext hfirst
    omega
  · intro hwrap p hp hd
    simp only [expired_iff hp hd]
    unfold firstTick
    refine ⟨fun now hlo hhi => ?_, ?_⟩
    · omega
    · omega

/-! ## §3. Runs. -/

/-- The `ttl` of every deadfork ends where `ticks` can still tell. -/
def Sensible (s : State) : Act → Prop
  | .deadfork _ ttl => NoWrap s.ticks ttl
  | _ => True

instance (s : State) (a : Act) : Decidable (Sensible s a) :=
  match a with
  | .deadfork _ _ => inferInstanceAs (Decidable (_ ∨ _))
  | .tick | .fork _ _ | .turn _ _ | .kill _ | .free _ => .isTrue trivial

/-- The deadline of a process in use is the promised one, or -1. -/
def Faithful (s : State) (p : Slot) : Prop :=
  match s.promise p with
  | none => (s.proc p).deadline = -1
  | some (clock, ttl) =>
    clock ≤ s.clock ∧ (s.proc p).deadline = UInt32.ofNat clock + ttl ∧ Met clock ttl

structure Inv (s : State) : Prop where
  ticks : s.ticks = UInt32.ofNat s.clock
  faithful : ∀ p, (s.proc p).state ≠ .UNUSED → Faithful s p

variable {s s' : State}

theorem Inv.onTime (h : Inv s) : OnTime s := by
  have hticks : s.ticks + 1 = UInt32.ofNat (s.clock + 1) := by rw [h.ticks, UInt32.ofNat_add]; rfl
  intro p hp
  have hf := h.faithful p hp.1
  unfold Faithful at hf
  rw [hticks]
  split at hf
  case h_1 hnone =>
    refine ⟨fun hexp => absurd hf hexp.2.1, fun clock ttl hsome => ?_⟩
    rw [hnone] at hsome
    cases hsome
  case h_2 clock ttl hsome =>
    obtain ⟨hle, hd, hmet⟩ := hf
    obtain ⟨hearly, hfirst⟩ := hmet (s.proc p) hp hd
    refine ⟨fun hexp => ⟨clock, ttl, hsome, ?_⟩, fun clock' ttl' hsome' hnow => ?_⟩
    · by_contra hlt
      have hbefore : s.clock + 1 < firstTick clock ttl := by unfold firstTick; omega
      exact hearly (s.clock + 1) (by omega) hbefore hexp
    · rw [hsome] at hsome'
      cases hsome'
      rw [hnow, dropDead, if_pos hfirst]
      refine ⟨rfl, ?_⟩
      show (if (s.proc p).state = .SLEEPING then ProcState.RUNNABLE else (s.proc p).state) ≠ .SLEEPING
      split
      case isTrue => decide
      case isFalse hawake => exact hawake

theorem Inv.setProc (h : Inv s) {p : Slot} {r : Proc} {o : Option (Nat × UInt32)}
    (hr : r.state ≠ .UNUSED → Faithful ((s.setProc p r).promised p o) p) :
    Inv ((s.setProc p r).promised p o) := by
  refine ⟨h.ticks, fun q hq => ?_⟩
  by_cases hqp : q = p
  · subst hqp
    refine hr ?_
    rwa [show ((s.setProc q r).promised q o).proc q = r from update_self ..] at hq
  · have hproc : ((s.setProc p r).promised p o).proc q = s.proc q := update_of_ne hqp _ _
    have hpromise : ((s.setProc p r).promised p o).promise q = s.promise q := update_of_ne hqp _ _
    have hold := h.faithful q (by rwa [hproc] at hq)
    unfold Faithful at hold ⊢
    rw [hproc, hpromise]
    exact hold

theorem Inv.touch (h : Inv s) {p : Slot} {r : Proc} (hd : r.deadline = (s.proc p).deadline)
    (hused : r.state ≠ .UNUSED → (s.proc p).state ≠ .UNUSED) : Inv (s.setProc p r) := by
  have hsame : s.setProc p r = (s.setProc p r).promised p (s.promise p) := by
    simp [State.setProc, State.promised]
  rw [hsame]
  refine h.setProc fun hr => ?_
  have hold := h.faithful p (hused hr)
  unfold Faithful at hold ⊢
  simpa [State.setProc, State.promised, hd] using hold

theorem inv_step {a : Act} (h : Inv s) (hok : Sensible s a) (hs : step s a = some s') : Inv s' := by
  cases a with
  | tick =>
    cases hs
    refine ⟨by show s.ticks + 1 = _; rw [h.ticks, UInt32.ofNat_add]; rfl, fun p hp => ?_⟩
    have hstate : (s.proc p).state ≠ .UNUSED := by
      intro hunused
      refine hp ?_
      show (dropDead _ (s.proc p)).state = _
      rw [dropDead, if_neg fun hexp => hexp.1.1 hunused, hunused]
    have hdead : (dropDead (s.ticks + 1) (s.proc p)).deadline = (s.proc p).deadline := by
      unfold dropDead
      split <;> rfl
    have hold := h.faithful p hstate
    unfold Faithful at hold ⊢
    simp only [hdead]
    split at hold
    case h_1 hnone => simpa [hnone] using hold
    case h_2 hsome => simpa [hsome] using ⟨Nat.le_succ_of_le hold.1, hold.2⟩
  | fork p pid =>
    simp only [step] at hs
    split at hs
    case isTrue =>
      cases hs
      refine h.setProc fun _ => ?_
      simp [Faithful, State.promised, State.setProc, Proc.allocated]
    case isFalse => cases hs
  | deadfork p ttl =>
    simp only [step] at hs
    split at hs
    case isTrue =>
      cases hs
      refine h.setProc fun _ => ?_
      have hmet : Met s.clock ttl := (met_iff s.clock ttl).mpr (h.ticks ▸ hok)
      simp [Faithful, State.promised, State.setProc, h.ticks, hmet]
    case isFalse => cases hs
  | turn p state =>
    simp only [step] at hs
    split at hs
    case isTrue hin =>
      cases hs
      exact h.touch rfl fun _ => hin.1
    case isFalse => cases hs
  | kill p =>
    cases hs
    refine h.touch rfl fun hr hunused => hr ?_
    simp [marked, hunused]
  | free p =>
    cases hs
    exact h.touch rfl fun hr => absurd rfl hr

/-- **Deadlines are met while they do not wrap around**: exactly if the sum stays in front of -1, or
starts at -1; the processes of plain fork are never marked. -/
theorem deadlines_met (clock : Nat) (ttl : UInt32) (s : State) :
    (Met clock ttl ↔ NoWrap (UInt32.ofNat clock) ttl) ∧ (RunWith Sensible s → OnTime s) := by
  refine ⟨met_iff clock ttl, fun hrun => Inv.onTime ?_⟩
  refine Reachable.invariant Inv ?_ (fun s s' h ⟨a, hs, hok⟩ => inv_step h hok hs) hrun
  rintro s ⟨hticks, hclock, hproc, hpromise⟩
  refine ⟨by rw [hticks, hclock]; rfl, fun p hp => absurd ?_ hp⟩
  rw [hproc p]
  rfl

/-! ## §4. Two calls of deadfork. -/

def boot : State :=
  { ticks := 0, proc := fun _ => Proc.init, clock := 0, promise := fun _ => none }

theorem boot_start : Start boot := ⟨rfl, rfl, fun _ => rfl, fun _ => rfl⟩

/-- Slot 1 is made with this `ttl` at the first tick. -/
def forked (ttl : UInt32) : List Act :=
  [.tick, .fork 1 7, .deadfork 1 ttl, .turn 1 .SLEEPING]

theorem deadlines_met_oneTick : ∃ s, RunWith Sensible s ∧ s.clock = 1 ∧
    (dropDead (s.ticks + 1) (s.proc 1)).killed = true := by
  have hacts : (runActs (stepIf step Sensible) boot (forked 1)).any (fun s =>
      s.clock = 1 ∧ s.promise 1 = some (1, 1) ∧ (s.proc 1).state = .SLEEPING) = true := by
    decide +kernel
  obtain ⟨s, hs, htest⟩ := (Option.any_eq_true _ _).mp hacts
  obtain ⟨hclock, hpromise, hstate⟩ := of_decide_eq_true htest
  have hrun : RunWith Sensible s := Reachable.runIf (.start boot_start) hs
  have halive : (s.proc 1).state ≠ .UNUSED ∧ (s.proc 1).state ≠ .ZOMBIE := by
    rw [hstate]
    decide
  refine ⟨s, hrun, hclock, ?_⟩
  exact (((deadlines_met 1 1 s).2 hrun 1 halive).2 1 1 hpromise (by rw [hclock]; rfl)).1

/-- **A long life ends at once.** deadfork(-1) promises 2^32 - 1 ticks; its deadline is 0, and the
second tick kills the child. -/
theorem deadfork_wraps : ∃ s, RunWith (fun _ _ => True) s ∧ s.clock = 1 ∧
    s.promise 1 = some (1, 0xFFFFFFFF) ∧ Expired (s.proc 1) (s.ticks + 1) ∧ ¬ OnTime s := by
  have hacts : (runActs (stepIf step fun _ _ => True) boot (forked 0xFFFFFFFF)).any (fun s =>
      s.clock = 1 ∧ s.promise 1 = some (1, 0xFFFFFFFF) ∧
        Expired (s.proc 1) (s.ticks + 1)) = true := by
    decide +kernel
  obtain ⟨s, hs, htest⟩ := (Option.any_eq_true _ _).mp hacts
  obtain ⟨hclock, hpromise, hexp⟩ := of_decide_eq_true htest
  refine ⟨s, Reachable.runIf (.start boot_start) hs, hclock, hpromise, hexp, fun hontime => ?_⟩
  obtain ⟨clock, ttl, hsome, hle⟩ := (hontime 1 hexp.1).1 hexp
  rw [hpromise] at hsome
  cases hsome
  rw [hclock] at hle
  exact absurd hle (by decide)

end Xv6.Deadlines
