/-
  Xv6.Regs.ThreadTurns — the threads of a process take turns.

  Both schedulers look for the next thread from the entry after
  `last_running_thread_index`, around the table.
-/
import Xv6.Regs.Machine

namespace Xv6.Regs

open Lib Option

/-! ## §1. The cyclic search. -/

/-- The entries that the search passes before it looks at `t`. -/
def turns (last t : Fin MAX_THREAD) : Nat := (t - (last + 1)).val

theorem turns_lt (last t : Fin MAX_THREAD) : turns last t < MAX_THREAD := Fin.isLt _

theorem turns_self (last : Fin MAX_THREAD) (t : Fin MAX_THREAD) (h : turns last t = 0) :
    last + 1 = t := by
  unfold turns at h
  apply Fin.ext
  simp only [MAX_THREAD, Fin.val_sub, Fin.val_add, Fin.val_one] at h ⊢
  omega

theorem turns_next (last t : Fin MAX_THREAD) (h : turns last t ≠ 0) :
    turns (last + 1) t + 1 = turns last t := by
  unfold turns at h ⊢
  simp only [MAX_THREAD, Fin.val_sub, Fin.val_add, Fin.val_one] at h ⊢
  omega

variable {t : Fin MAX_THREAD}

/-- The search ends at the waiting thread `t` or at one that is passed before it. -/
theorem nextRunnable_turns {threads : ThreadTable}
    (ht : (threads t).state = .THREAD_RUNNABLE) (k : Nat) (last : Fin MAX_THREAD)
    (hk : turns last t < k) :
    ∃ u, Sched.nextRunnable threads k last = some u ∧ (u = t ∨ turns u t < turns last t) := by
  induction k generalizing last with
  | zero => omega
  | succ k ih =>
    simp only [Sched.nextRunnable]
    by_cases hnow : turns last t = 0
    · -- the next entry is `t` itself
      rw [turns_self last t hnow, if_pos ht]
      exact ⟨t, rfl, .inl rfl⟩
    · have hnext := turns_next last t hnow
      by_cases hrun : (threads (last + 1)).state = .THREAD_RUNNABLE
      · rw [if_pos hrun]
        exact ⟨last + 1, rfl, .inr (by omega)⟩
      · rw [if_neg hrun]
        obtain ⟨u, hu, hturn⟩ := ih (last + 1) (by omega)
        refine ⟨u, hu, ?_⟩
        rcases hturn with hut | hlt
        · exact .inl hut
        · exact .inr (by omega)

/-! ## §2. One step. -/

structure Waiting (t : Fin MAX_THREAD) (s : State) : Prop where
  runnable : (s.proc.threads t).state = .THREAD_RUNNABLE
  inUse : (s.proc.threads 0).state ≠ .THREAD_FREE

instance (t : Fin MAX_THREAD) (s : State) : Decidable (Waiting t s) :=
  decidable_of_iff ((s.proc.threads t).state = .THREAD_RUNNABLE ∧
    (s.proc.threads 0).state ≠ .THREAD_FREE) ⟨fun h => ⟨h.1, h.2⟩, fun h => ⟨h.1, h.2⟩⟩

def State.turns (s : State) (t : Fin MAX_THREAD) : Nat :=
  Regs.turns s.proc.lastRunningThreadIndex t

def isDispatch : Act → Bool
  | .dispatch _ => true
  | _ => false

theorem turns_pick {s : State} (h : Waiting t s) : ∃ u, Sched.pickThread s.proc = some (.thread u) ∧
      (u = t ∨ Regs.turns u t < s.turns t) := by
  obtain ⟨u, hu, hturn⟩ := nextRunnable_turns h.runnable MAX_THREAD
    s.proc.lastRunningThreadIndex (turns_lt _ _)
  refine ⟨u, ?_, hturn⟩
  rw [Sched.pickThread, if_neg h.inUse, hu]
  rfl

section Frame

variable {kend : Pa} {s s' : State} {a : Act}

theorem runThreads_last {prog : Kernel ThreadsResult} {r : State × After}
    (h : runThreads kend s prog = some r) :
    r.1.proc.lastRunningThreadIndex = s.proc.lastRunningThreadIndex := by
  unfold runThreads at h
  obtain ⟨_, _, rfl⟩ := map_eq_some_iff.mp h
  rfl

theorem initFrame_last (old : ThreadTable) (s : State) (f : Trapframe) :
    (initFrame old s f).proc = s.proc := by
  unfold initFrame
  split <;> rfl

theorem switchIn_last (s : State) (u : Fin MAX_THREAD) (ticks : UInt32) :
    (switchIn s (.thread u) ticks).proc.lastRunningThreadIndex = u := by
  unfold switchIn
  dsimp only
  split <;> rfl

theorem otherStep_last (hs : otherStep s a = some s') (ha : isDispatch a = false) :
    s'.proc.lastRunningThreadIndex = s.proc.lastRunningThreadIndex := by
  cases a with
  | dispatch ticks => cases ha
  | wakeup | otherKfree _ | otherWrite _ _ | otherKalloc =>
    simp only [otherStep] at hs
    split at hs <;> cases hs
    rfl
  | otherTid =>
    cases hs
    rfl
  | _ => cases hs

variable {t : Fin MAX_THREAD}

theorem callCreateThread_last (hs : callCreateThread kend s t = some s') :
    s'.proc.lastRunningThreadIndex = s.proc.lastRunningThreadIndex := by
  unfold callCreateThread at hs
  obtain ⟨r, hr, rfl⟩ := map_eq_some_iff.mp hs
  show (initFrame _ r.1 _).proc.lastRunningThreadIndex = _
  rw [initFrame_last]
  exact runThreads_last hr

theorem callJoinThread_last (hs : callJoinThread s t = some s') :
    s'.proc.lastRunningThreadIndex = s.proc.lastRunningThreadIndex := by
  unfold callJoinThread at hs
  obtain ⟨r, _, rfl⟩ := map_eq_some_iff.mp hs
  rfl

theorem callStopThread_last (hs : callStopThread kend s t = some s') :
    s'.proc.lastRunningThreadIndex = s.proc.lastRunningThreadIndex := by
  unfold callStopThread at hs
  split at hs
  · cases hs
    rfl
  · obtain ⟨r, hr, rfl⟩ := map_eq_some_iff.mp hs
    exact runThreads_last hr

theorem faultCleanup_last (hs : faultCleanup kend s = some s') :
    s'.proc.lastRunningThreadIndex = s.proc.lastRunningThreadIndex := by
  unfold faultCleanup at hs
  split at hs
  · cases hs
    rfl
  · obtain ⟨r, hr, rfl⟩ := map_eq_some_iff.mp hs
    rw [← runThreads_last hr]
    cases r.2 <;> rfl

theorem runningStep_last {path : Path} (hs : runningStep kend s a path = some s') :
    s'.proc.lastRunningThreadIndex = s.proc.lastRunningThreadIndex := by
  unfold runningStep at hs
  split at hs
  case h_5 regs =>
    split at hs
    · exact (faultCleanup_last hs).trans rfl
    · cases hs; rfl
  case h_9 =>
    split at hs
    · exact callCreateThread_last hs
    · cases hs
  case h_10 =>
    split at hs
    · exact callJoinThread_last hs
    · cases hs
  case h_11 =>
    split at hs
    · exact callStopThread_last hs
    · cases hs
  case h_22 => cases hs
  all_goals first
    | (cases hs; rfl)
    | (split at hs <;> cases hs; rfl)

theorem step_last (hs : step kend s a = some s') (ha : isDispatch a = false) :
    s'.proc.lastRunningThreadIndex = s.proc.lastRunningThreadIndex := by
  unfold step at hs
  split at hs
  case h_1 t ho =>
    cases hs
    exact otherStep_last ho ha
  case h_2 =>
    split at hs
    · exact runningStep_last hs
    · cases hs

theorem step_dispatch_last {ticks : UInt32} {u : Fin MAX_THREAD}
    (hs : step kend s (.dispatch ticks) = some s')
    (hu : Sched.pickThread s.proc = some (.thread u)) :
    s'.proc.lastRunningThreadIndex = u := by
  simp only [step, otherStep, hu, map_some] at hs
  split at hs
  case h_1 t ho =>
    split at ho
    case isTrue =>
      cases ho
      cases hs
      exact switchIn_last s u ticks
    case isFalse => cases ho
  case h_2 =>
    split at hs
    · simp [runningStep] at hs
    · cases hs

end Frame

/-! ## §3. Runs. -/

def Serves (t : Fin MAX_THREAD) (s : State) (a : Act) : Prop :=
  isDispatch a = true ∧ Sched.pickThread s.proc = some (.thread t)

instance (t : Fin MAX_THREAD) (s : State) (a : Act) : Decidable (Serves t s a) :=
  inferInstanceAs (Decidable (_ ∧ _))

def WaitsAlong (kend : Pa) (t : Fin MAX_THREAD) : State → List Act → Prop
  | s, [] => Waiting t s
  | s, a :: acts =>
    Waiting t s ∧
      (¬ Serves t s a → ∀ s' ∈ step kend s a, WaitsAlong kend t s' acts)

def dispatches (acts : List Act) : Nat := acts.countP isDispatch

/-- **One step of a waiting thread**: it is served, or its turn has come
closer by the dispatches made. -/
theorem turns_step {kend : Pa} {s s' : State} {a : Act}
    (h : Waiting t s) (hs : step kend s a = some s') :
    Serves t s a ∨ s'.turns t + dispatches [a] ≤ s.turns t := by
  by_cases ha : isDispatch a = true
  · obtain ⟨u, hu, hturn⟩ := turns_pick h
    rcases hturn with hut | hlt
    · rw [hut] at hu
      exact .inl ⟨ha, hu⟩
    · right
      cases a with
      | dispatch ticks =>
        unfold State.turns at hlt ⊢
        rw [step_dispatch_last hs hu]
        show Regs.turns u t + 1 ≤ _
        omega
      | _ => cases ha
  · right
    have ha' : isDispatch a = false := by simpa using ha
    unfold State.turns
    rw [step_last hs ha']
    simp [dispatches, ha']

/-- `t` is dispatched in the run of `acts` from `s`, after fewer than
MAX_THREAD other dispatches. -/
def ServedInTurn (kend : Pa) (t : Fin MAX_THREAD) (s : State) (acts : List Act) : Prop :=
  ∃ before ticks after mid, acts = before ++ .dispatch ticks :: after ∧
    Lib.runActs (step kend) s before = some mid ∧
    Sched.pickThread mid.proc = some (.thread t) ∧ dispatches before < MAX_THREAD

theorem served_of_turns {kend : Pa} {s s' : State} {acts : List Act}
    (hrun : Lib.runActs (step kend) s acts = some s') (hwait : WaitsAlong kend t s acts)
    (hmany : s.turns t < dispatches acts) :
    ∃ before ticks after mid, acts = before ++ .dispatch ticks :: after ∧
      Lib.runActs (step kend) s before = some mid ∧
      Sched.pickThread mid.proc = some (.thread t) ∧ dispatches before ≤ s.turns t := by
  induction acts generalizing s with
  | nil => simp [dispatches] at hmany
  | cons a acts ih =>
    obtain ⟨s₁, hstep, hrest⟩ := runActs_cons hrun
    have hcount : dispatches (a :: acts) = dispatches [a] + dispatches acts := by
      simp [dispatches, List.countP_cons, Nat.add_comm]
    by_cases hserve : Serves t s a
    · obtain ⟨hdisp, hpick⟩ := hserve
      cases a with
      | dispatch ticks => exact ⟨[], ticks, acts, s, rfl, rfl, hpick, Nat.zero_le _⟩
      | _ => cases hdisp
    · have hcloser := (turns_step hwait.1 hstep).resolve_left hserve
      obtain ⟨before, ticks, after, mid, heq, hmid, hpick, hlt⟩ :=
        ih hrest (hwait.2 hserve s₁ hstep) (by omega)
      refine ⟨a :: before, ticks, after, mid, by rw [heq]; rfl, ?_, hpick, ?_⟩
      · rw [Lib.runActs, hstep]
        exact hmid
      · have hcount' : dispatches (a :: before) = dispatches [a] + dispatches before := by
          simp [dispatches, List.countP_cons, Nat.add_comm]
        omega

/-- **No thread starves**: one that stays THREAD_RUNNABLE while `threads[0]` is in use is dispatched
within the next MAX_THREAD dispatches of its process. -/
theorem thread_served_in_turn {kend : Pa} {t : Fin MAX_THREAD} {s s' : State} {acts : List Act}
    (hrun : Lib.runActs (step kend) s acts = some s') (hwait : WaitsAlong kend t s acts)
    (hmany : MAX_THREAD ≤ dispatches acts) : ServedInTurn kend t s acts := by
  have hturns : s.turns t < MAX_THREAD := turns_lt _ _
  obtain ⟨before, ticks, after, mid, heq, hmid, hpick, hlt⟩ :=
    served_of_turns hrun hwait (by omega)
  exact ⟨before, ticks, after, mid, heq, hmid, hpick, by omega⟩

instance decidableWaitsAlong (kend : Pa) (t : Fin MAX_THREAD) :
    (s : State) → (acts : List Act) → Decidable (WaitsAlong kend t s acts)
  | s, [] => inferInstanceAs (Decidable (Waiting t s))
  | s, a :: acts =>
    have : ∀ s', Decidable (WaitsAlong kend t s' acts) :=
      fun s' => decidableWaitsAlong kend t s' acts
    inferInstanceAs (Decidable (_ ∧ (_ → ∀ s' ∈ step kend s a, WaitsAlong kend t s' acts)))

def fourThreads : State :=
  { proc := { Proc.init with
      state := .RUNNABLE
      trapframe := some 0x87f6c000
      threads := fun t =>
        { state := .THREAD_RUNNABLE, trapframe := some 0x87f6c000
          id := UInt32.ofNat t.val + 1, join := 0 }
      lastRunningThreadIndex := 1 }
    thread := none, ptf := none, frames := fun _ => .fill 0, path := .ret
    heap := { free := [], next := 5, trace := [] }, others := 0, last := fun _ => .fill 0 }

def fourDispatches : List Act :=
  [.dispatch 0, .preempt 1, .dispatch 1, .preempt 2, .dispatch 2, .preempt 3, .dispatch 3]

/-- Thread 1 has to wait for the three others. -/
theorem thread_served_in_turn_four :
    WaitsAlong 0 1 fourThreads fourDispatches ∧ ServedInTurn 0 1 fourThreads fourDispatches := by
  have hwait : WaitsAlong 0 1 fourThreads fourDispatches := by decide +kernel
  have hrun : (Lib.runActs (step 0) fourThreads fourDispatches).isSome = true := by decide +kernel
  obtain ⟨s, hs⟩ := Option.isSome_iff_exists.mp hrun
  exact ⟨hwait, thread_served_in_turn hs hwait (by decide)⟩

end Xv6.Regs
