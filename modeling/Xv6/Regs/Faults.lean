/-
  Xv6.Regs.Faults — exceptions in user mode (usertrap, trap.c).

  The fault at the address -1 that create_thread has put into `ra` ends the thread.
  usertrap recognises it by `ra` alone, and not by where the fault is.
-/
import Xv6.Regs.Isolation

namespace Xv6.Regs

open Lib

/-- The kernel functions that usertrap calls for an exception. -/
inductive Handler where
  | cleanup
  | usertrapret
  | logTrap
  | setkilled
  | exit
  deriving DecidableEq

/-- usertrap behind `devintr`. setkilled comes before the test of killed, so this ends in exit. -/
def usertrapException (tf : Trapframe) : List Handler :=
  if tf.ra = -1 then [.cleanup, .usertrapret] else [.logTrap, .setkilled, .exit]

/-- The address at which a thread's function ends: -1, with bit 0 cleared by the
jump. -/
def threadReturn : UInt64 := -2

structure Fatal (kend : Pa) (s : State) (regs : Trapframe) : Prop where
  recorded : .logTrap ∈ usertrapException regs
  killed : .setkilled ∈ usertrapException regs
  dies : ∃ s', step kend s .fault = some s' ∧
    ∀ s'', Reachable (· = s') (fun s s' => ∃ a, step kend s a = some s') s'' → s''.path = .exit

section Steps

variable {kend : Pa} {s s' : State} {a : Act}

theorem otherStep_path (h : otherStep s a = some s') : s'.path = s.path ∧ s'.last = s.last := by
  cases a with
  | wakeup | otherKfree | otherWrite | otherKalloc =>
    simp only [otherStep] at h
    split at h <;> cases h
    exact ⟨rfl, rfl⟩
  | dispatch ticks =>
    simp only [otherStep] at h
    split at h
    · obtain ⟨c, _, rfl⟩ := Option.map_eq_some_iff.mp h
      unfold switchIn
      split <;> exact ⟨rfl, rfl⟩
    · cases h
  | otherTid =>
    cases h
    exact ⟨rfl, rfl⟩
  | _ => cases h

theorem exit_stays (hpath : s.path = .exit) (h : step kend s a = some s') : s'.path = .exit := by
  unfold step at h
  split at h
  · next hother =>
    cases h
    exact (otherStep_path hother).1.trans hpath
  · split at h
    · rw [hpath] at h
      cases a with
      | exit | preempt | sleep =>
        cases h
        exact hpath
      | _ => cases h
    · cases h

theorem step_fault (hrun : s.Running) {regs : Trapframe} (hpath : s.path = .user regs)
    (hra : regs.ra ≠ -1) : step kend s .fault = some ((s.trapped regs).goto .exit) := by
  show (if s.Running then runningStep kend s .fault s.path else none) = _
  rw [if_pos hrun, hpath]
  exact if_neg hra

end Steps

def atLoad (ra : UInt64) : Trapframe := { Trapframe.fill 0 with epc := 0x1000, ra := ra }

end Xv6.Regs
