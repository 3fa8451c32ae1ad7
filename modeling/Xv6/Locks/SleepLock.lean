/-
  Xv6.Locks.SleepLock — acquiresleep and releasesleep of any number of processes.

  The calls are a program of `Monitor`, whose lock is `lk->lk`; only the process that has the
  sleep lock calls releasesleep.  An input is the pid of the process that runs.
-/
import Xv6.Lib.Monitor

namespace Xv6.SleepLock

open Lib Lib.Monitor Function

structure Lock where
  locked : Bool
  pid : UInt32

inductive Pc where
  | idle
  | test
  | sleep
  | unlock
  | inside
  | clear
  | wake
  | leave

def code : Pc → Instr Lock Pc Unit UInt32
  -- acquiresleep
  | .idle => .acquire .test
  | .test => .access fun x _ pid => if x.locked then (x, .sleep) else (⟨true, pid⟩, .unlock)
  | .sleep => .sleep () .test
  | .unlock => .release .inside
  -- releasesleep
  | .inside => .acquire .clear
  | .clear => .access fun _ _ _ => (⟨false, 0⟩, .wake)
  | .wake => .wakeup () .leave
  | .leave => .release .idle

def prog : Program Lock Pc Unit UInt32 where
  code := code
  env := fun _ _ => none

def held : Pc → Bool
  | .idle | .inside => false
  | _ => true

def Pc.owns : Pc → Bool
  | .unlock | .inside | .clear => true
  | _ => false

variable {n : Nat} {s : State n Lock Pc Unit}

def Run : State n Lock Pc Unit → Prop := RunWith prog ⟨false, 0⟩ .idle fun _ _ => True

theorem held_of_access {l : Pc} {f : Lock → Bool → UInt32 → Lock × Pc}
    (hc : prog.code l = .access f) : held l = true := by
  cases l <;> first | rfl | cases hc

theorem disciplined : Disciplined prog held where
  access l f hc x k i := by
    cases l <;> cases hc
    case test => rcases x with ⟨_ | _, _⟩ <;> rfl
    case clear => rfl
  acquire l l' hc := by cases l <;> cases hc <;> exact ⟨rfl, rfl⟩
  release l l' hc := by cases l <;> cases hc <;> exact ⟨rfl, rfl⟩
  sleep l c l' hc := by
    cases l <;> cases hc
    exact ⟨rfl, rfl⟩
  wakeup l c l' hc := by
    cases l <;> cases hc
    rfl

/-- Who is about to sleep has found the lock taken. -/
def Found (l : Pc) (x : Lock) (_ : Bool) : Prop :=
  match l with
  | .sleep => x.locked = true
  | _ => True

theorem rule : Rule prog held (fun _ => True) Found (fun _ : State n Lock Pc Unit => True) where
  access l f hc _ x k i _ := by
    cases l <;> cases hc
    case test => rcases x with ⟨_ | _, _⟩ <;> trivial
    case clear => trivial
  outside s p f i _ _ hc hh := absurd (held_of_access hc) (ne_true_of_eq_false hh)
  env x i x' hx := by cases hx
  acquire l l' hc x k _ := by cases l <;> cases hc <;> trivial
  release l l' hc x k _ := trivial
  sleep l c l' hc x k := by
    cases l <;> cases hc
    exact ⟨fun _ => trivial, fun _ => trivial⟩
  wakeup l c l' hc x k _ := by
    cases l <;> cases hc
    trivial

def Known (s : State n Lock Pc Unit) : Prop :=
  ∀ p, s.mode p = .running → s.pc p = .sleep → s.shared.locked = true

theorem run_known (h : Run s) : Known s := by
  intro p hm hp
  have hlock := (run_lockInv disciplined rfl h).of_running hm (by rw [hp]; rfl)
  have hfound :=
    (run_ruleInv disciplined rule rfl trivial (fun _ _ _ hf => hf) (fun _ _ => trivial) h).holder p
      hlock
  rwa [hp] at hfound

theorem tally : Tally prog (fun l => flag l.owns) (fun x => flag x.locked) (@Known n) where
  access s p f i _ hsum _ hc := by
    have howns : (s.pc p).owns = true → s.shared.locked = true := of_flag_sum hsum
    cases hp : s.pc p <;> rw [hp] at hc howns <;> cases hc
    case test => rcases s.shared with ⟨_ | _, _⟩ <;> rfl
    case clear =>
      show flag false - flag s.shared.locked = 0 - 1
      rw [howns rfl]
      rfl
  env s i x _ hx := by cases hx
  next l l' hl := by cases l <;> cases hl <;> rfl

theorem pays : Pays prog held (fun _ x => x.locked = true) (fun l _ => l = .wake) (@Known n) where
  sleep s p c l hk hm hc := by
    refine hk p hm ?_
    cases hp : s.pc p <;> rw [hp] at hc <;> first | rfl | cases hc
  access s p f i c _ _ hc _ h := by
    cases hp : s.pc p <;> rw [hp] at hc h <;> cases hc
    case test => rcases s.shared with ⟨_ | _, _⟩ <;> exact .inl rfl
    case clear => exact .inr rfl
  outside s p f i c _ _ hc hh := absurd (held_of_access hc) (ne_true_of_eq_false hh)
  env x x' i c hx := by cases hx
  wakeup l c l' c' _ _ := .inl rfl
  paid l hl c he := by
    rw [he] at hl
    rcases hl with ⟨_, hl⟩ | ⟨_, _, hl⟩ <;> cases hl

/-- **At most one process has the sleep lock, and whoever sleeps for it waits for one that has it.**
-/
theorem sleep_lock_exclusive (s : State n Lock Pc Unit) (h : Run s) :
    (∀ p q, (s.pc p).owns = true → (s.pc q).owns = true → p = q) ∧
      (s.lock = none → ∀ p, s.mode p = .asleep () → ∃ q, (s.pc q).owns = true) := by
  have hcount := run_tally tally rfl rfl (fun _ => run_known) h
  refine ⟨fun p q => eq_of_flag_sum hcount, fun hfree p hp => ?_⟩
  have hlocked := no_lost_wakeup disciplined pays rfl (fun _ => run_known) h hfree hp
  exact exists_of_flag_sum hcount hlocked

theorem sleep_lock_exclusive_contended :
    ∃ s : State 2 Lock Pc Unit, s.mode 1 = .asleep () ∧ ∃ q, (s.pc q).owns = true := by
  have hacts : (Monitor.runActs prog (fun _ _ => True) (start ⟨false, 0⟩ .idle : State 2 _ _ _)
      [.go 0 7, .go 0 7, .go 0 7, .go 1 8, .go 1 8, .go 1 8, .go 1 8]).any
      fun s => s.mode 1 = .asleep () ∧ s.lock = none := by
    decide
  obtain ⟨s, hs, htest⟩ := exists_run_runActs hacts
  obtain ⟨hp, hfree⟩ := of_decide_eq_true htest
  exact ⟨s, hp, (sleep_lock_exclusive s hs).2 hfree 1 hp⟩

end Xv6.SleepLock
