/-
  Xv6.Pipe.Wakeups — sleeping on a pipe.

  A writer that finds itself killed returns at once.  If it has stored bytes since its last
  check, readers sleep on in front of them.
-/
import Xv6.Pipe.Fifo

namespace Xv6.Pipe

open Lib Lib.Monitor

/-! ## §1. Reasons and debts. -/

def waits : Chan → Pipe → Prop
  | .nread, x => x.isEmpty = true ∧ x.writeopen = true
  | .nwrite, x => x.isFull = true ∧ x.readopen = true

def owes : Pc → Chan → Prop
  | .wLoop _ _ k, .nread | .wFull _ _ k, .nread | .wCopy _ _ k, .nread
  | .wStore _ _ k _, .nread => 0 < k
  | .wWake _ _, .nread | .wDone _, .nread | .cWake true, .nread => True
  | .rLoop _ _, .nwrite | .rCopy _ _ _, .nwrite | .rDone _, .nwrite
  | .cWake false, .nwrite => True
  | _, _ => False

/-- Between the check of `killed` and the wakeup of the readers. -/
def Pc.exposed : Pc → Bool
  | .wFull _ _ _ | .wCopy _ _ _ | .wStore _ _ _ _ => true
  | .wLoop _ _ k => 0 < k
  | _ => false

/-- kill and drop_dead_processes mark no writer there. -/
def SparesWriters {n : Nat} (s : State n) : Act n Input → Prop
  | .kill p => (s.pc p).exposed = false
  | _ => True

/-- What the holder of the lock has tested. -/
def Tested : Pc → Pipe → Bool → Prop
  | .wLoop _ _ k, x, killed => 0 < k → x.readopen = true ∧ killed = false
  | .wFull _ _ _, x, killed => x.readopen = true ∧ killed = false
  | .wCopy _ _ _, x, killed | .wStore _ _ _ _, x, killed =>
    (x.readopen = true ∧ killed = false) ∧ x.isFull = false
  | .wWake _ _, x, _ | .wSleep _ _, x, _ => x.isFull = true ∧ x.readopen = true
  | .rKilled _, x, _ | .rSleep _, x, _ => x.isEmpty = true ∧ x.writeopen = true
  | _, _, _ => True

/-! ## §2. The tests. -/

theorem tested_access {x x' : Pipe} {killed : Bool} {l l' : Pc}
    (ha : Access true killed x l x' l') (h : Tested l x killed) : Tested l' x' killed := by
  cases ha with
  | goOn hok => exact hok
  | full hfull => exact ⟨hfull, h.1⟩
  | room hroom => exact ⟨h, hroom⟩
  | store => exact fun _ => h.1
  | await hwait => exact hwait
  | copyin | sleepOn | same => exact h
  | _ => trivial

theorem tested_rule {n : Nat} :
    Rule (prog true) held (fun _ => True) Tested (fun _ : State n => True) where
  access l f hc hheld x killed inp h := tested_access (access_of_code x killed inp hc hheld) h
  outside s p f i _ _ hc hheld := by
    refine ⟨fun _ => trivial, fun l' k' h => ?_⟩
    generalize s.pc p = l at hc hheld
    cases l <;> cases hc <;> first | exact h | cases hheld
    -- cFree
    cases l' <;> exact h
  env x i x' hx := by cases hx
  acquire l l' hc x killed h := by
    cases l <;> cases hc
    · exact fun hk => absurd hk (Nat.lt_irrefl 0)
    · trivial
    · trivial
  release l l' hc x killed h := trivial
  sleep l c l' hc x killed := by
    refine ⟨fun _ => trivial, fun _ => ?_⟩
    cases l <;> cases hc
    · exact fun hk => absurd hk (Nat.lt_irrefl 0)
    · trivial
  wakeup l c l' hc x killed h := by
    cases l <;> cases hc
    · exact h
    · trivial
    · trivial
    · trivial

theorem tested_killed {l : Pc} {x : Pipe} {k : Bool} (h : Tested l x k)
    (hl : l.exposed = false) : Tested l x true := by
  cases l <;> first | exact h | cases hl | skip
  -- wLoop
  intro hk
  exact absurd hk (of_decide_eq_false hl)

/-! ## §3. The debts are paid. -/

def Known {n : Nat} (s : State n) : Prop :=
  LockInv (prog true) held s ∧ RuleInv (fun _ => True) Tested s

theorem Known.tested {n : Nat} {s : State n} (h : Known s) {p : Fin n}
    (hm : s.mode p = .running) (hl : held (s.pc p) = true) :
    Tested (s.pc p) s.shared (s.killed p) :=
  h.2.holder p (h.1.of_running hm hl)

theorem owes_access {x x' : Pipe} {killed : Bool} {l l' : Pc} {c : Chan}
    (ha : Access true killed x l x' l') (ht : Tested l x killed) (h : waits c x ∨ owes l c) :
    waits c x' ∨ owes l' c := by
  cases ha with
  | deserted hexit =>
    refine .inl (h.resolve_right fun ho => ?_)
    cases c with
    | nread => exact hexit (ht ho)
    | nwrite => exact ho
  | store =>
    cases c with
    | nread => exact .inr (Nat.succ_pos _)
    | nwrite =>
      have hfull := (h.resolve_right id).1
      rw [ht.2] at hfull
      cases hfull
  | take hne =>
    cases c with
    | nwrite => exact .inr trivial
    | nread =>
      have hempty := (h.resolve_right id).1
      rw [hne] at hempty
      cases hempty
  | written | full | badSource =>
    cases c with
    | nread => exact .inr trivial
    | nwrite => exact h
  | shut =>
    rename_i writable
    cases writable <;> cases c <;> first | exact .inr trivial | exact h
  | goOn | room | copyin | enough | copyout | badTarget => cases c <;> exact h
  | deliver => cases c <;> exact .inl (h.resolve_right id)
  | same => exact h
  | _ => exact .inl (h.resolve_right id)

theorem pays {n : Nat} : Pays (prog true) held waits owes (Known (n := n)) where
  sleep s p c l hk hm hc := by
    have ht := fun hl => hk.tested hm hl
    generalize s.pc p = l₀ at hc ht
    cases l₀ <;> cases hc <;> exact ht rfl
  access s p f i c hk hm hc hheld h :=
    owes_access (access_of_code s.shared (s.killed p) i hc hheld) (hk.tested hm hheld) h
  outside s p f i c hk hm hc hheld h := by
    generalize s.pc p = l at hc hheld
    cases l <;> cases hc <;> first | exact h | cases hheld
    cases c <;> exact h
  env x x' i c hx := by cases hx
  wakeup l c l' c' hc h := by
    cases l <;> cases hc
    · cases c' with
      | nread => exact .inl rfl
      | nwrite => cases h
    · cases c' with
      | nread => exact .inl rfl
      | nwrite => cases h
    · cases c' with
      | nread => cases h
      | nwrite => exact .inl rfl
    · next writable =>
      cases writable <;> cases c' <;> first | exact .inl rfl | cases h
  paid l hl c h := by
    rcases hl with ⟨l', hc⟩ | ⟨c', l', hc⟩
    · cases l <;> cases hc <;> cases c <;> cases h
    · cases l <;> cases hc <;> cases c <;> cases h

/-! ## §4. Runs. -/

/-- **Pipes lose no wakeup**, as long as no writer is killed between its check of `killed` and the
wakeup: while the lock is free, nobody sleeps on nread unless the pipe is empty and has a writer, or
on nwrite unless it is full and has a reader. -/
theorem pipe_no_lost_wakeup {n : Nat} {s : State n} (h : RunWith true SparesWriters s)
    (hfree : s.lock = none) (p : Fin n) :
    (s.mode p = .asleep .nread → s.shared.nread = s.shared.nwrite ∧ s.shared.writeopen = true) ∧
    (s.mode p = .asleep .nwrite →
      s.shared.nwrite = s.shared.nread + BitVec.ofNat 32 PIPESIZE ∧ s.shared.readopen = true) := by
  obtain ⟨junk, h⟩ := h
  have hknown : ∀ s : State n, Monitor.RunWith (prog true) (Pipe.init junk) .idle SparesWriters s →
      Known s := by
    intro s hs
    refine ⟨run_lockInv (disciplined true) rfl hs, ?_⟩
    exact run_ruleInv (disciplined true) tested_rule rfl trivial
      (fun s p hok ht => tested_killed ht hok) (fun _ _ => trivial) hs
  have hlost : ∀ c, s.mode p = .asleep c → waits c s.shared := fun c hp =>
    no_lost_wakeup (disciplined true) pays rfl hknown h hfree hp
  constructor
  · intro hp
    obtain ⟨hempty, hopen⟩ := hlost .nread hp
    exact ⟨of_decide_eq_true hempty, hopen⟩
  · intro hp
    obtain ⟨hfull, hopen⟩ := hlost .nwrite hp
    exact ⟨of_decide_eq_true hfull, hopen⟩

instance {n : Nat} (s : State n) (a : Act n Input) : Decidable (SparesWriters s a) := by
  cases a <;> dsimp only [SparesWriters] <;> infer_instance

/-- Process 1 reads from an empty pipe and falls asleep. -/
def readerSleeps : List (Act 2 Input) := steps 1 (.read 1 :: List.replicate 5 (.copyout true))

theorem pipe_no_lost_wakeup_readerSleeps : ∃ s : State 2, RunWith true SparesWriters s ∧
    s.lock = none ∧ s.mode 1 = .asleep .nread ∧ s.shared.nread = s.shared.nwrite := by
  have hacts : (runActs (prog true) SparesWriters (start (Pipe.init fun _ => 0) .idle)
      readerSleeps).any (fun s : State 2 => s.lock = none ∧ s.mode 1 = .asleep .nread) = true := by
    decide +kernel
  obtain ⟨s, hs, htest⟩ := exists_run_runActs hacts
  obtain ⟨hfree, hmode⟩ := of_decide_eq_true htest
  have hrun : RunWith true SparesWriters s := ⟨_, hs⟩
  exact ⟨s, hrun, hfree, hmode, ((pipe_no_lost_wakeup hrun hfree 1).1 hmode).1⟩

def writerKilled : List (Act 2 Input) :=
  let go := Input.copyout true
  readerSleeps ++ steps 0 [.write 2, go, go, go, .copyin (some 104), go] ++ [.kill 0] ++
    steps 0 [go, go]

/-- The writer has gone without a wakeup: the reader sleeps in front of a byte. -/
theorem killed_writer_wakes_nobody : ∃ s : State 2, RunWith true AnyAct s ∧ s.lock = none ∧
    s.mode 1 = .asleep .nread ∧ s.shared.nread ≠ s.shared.nwrite ∧ s.pc 0 = .idle := by
  have hacts : (runActs (prog true) AnyAct (start (Pipe.init fun _ => 0) .idle) writerKilled).any
      (fun s : State 2 => s.lock = none ∧ s.mode 1 = .asleep .nread ∧
        s.shared.nread ≠ s.shared.nwrite ∧ s.pc 0 = .idle) = true := by
    decide +kernel
  obtain ⟨s, hs, htest⟩ := exists_run_runActs hacts
  exact ⟨s, ⟨_, hs⟩, of_decide_eq_true htest⟩

end Xv6.Pipe
