/-
  Xv6.Sched.Activations — the calls between the two schedulers.

  Neither scheduler returns, and each calls the other when it finds `sched_type` changed.
-/
import Xv6.Lib.Run

namespace Xv6.Sched

open Lib Function

abbrev NCPU : Nat := 8

/-! ## §1. The machine. -/

inductive Scheduler where
  | RR
  | MinCU
  deriving DecidableEq

/-- The enumeration constant. `sched_type` may hold any value: sys_ssched stores its argument as it
is. -/
def Scheduler.code : Scheduler → UInt32
  | .RR => 0
  | .MinCU => 1

def Scheduler.other : Scheduler → Scheduler
  | .RR => .MinCU
  | .MinCU => .RR

inductive Place where
  | main
  /-- At the head of the `for(;;)` of the innermost activation. -/
  | head
  /-- Past the test of `sched_type`. -/
  | body
  | process
  | returned
  deriving DecidableEq

structure Cpu where
  place : Place
  /-- The activations on the stack, the innermost first. -/
  stack : List Scheduler
  deriving DecidableEq

structure Cpus where
  schedType : UInt32
  cpu : Fin NCPU → Cpu

def Cpus.boot : Cpus :=
  { schedType := Scheduler.MinCU.code, cpu := fun _ => { place := .main, stack := [] } }

inductive CpuAct where
  | scheduler (c : Fin NCPU)
  /-- The test of `sched_type`, with the call if it holds. -/
  | test (c : Fin NCPU)
  | dispatch (c : Fin NCPU)
  | ssched (c : Fin NCPU) (stype : UInt32)
  | switchBack (c : Fin NCPU)
  /-- The end of the body of the loop. -/
  | again (c : Fin NCPU)
  deriving DecidableEq

namespace Cpus

def goto (s : Cpus) (c : Fin NCPU) (place : Place) : Cpus :=
  { s with cpu := update s.cpu c { s.cpu c with place := place } }

def enter (s : Cpus) (c : Fin NCPU) (a : Scheduler) : Cpus :=
  { s with cpu := update s.cpu c { place := .head, stack := a :: (s.cpu c).stack } }

/-- `rr_scheduler` goes on with its scan after a process, `min_cpu_usage_scheduler`
is at the end of its loop. -/
def afterProcess : List Scheduler → Place
  | .RR :: _ => .body
  | _ => .head

def tested (s : Cpus) (c : Fin NCPU) : List Scheduler → Cpus
  | [] => s
  | a :: _ => if s.schedType = a.other.code then s.enter c a.other else s.goto c .body

def step (s : Cpus) : CpuAct → Option Cpus
  | .scheduler c =>
    if (s.cpu c).place = .main then
      if s.schedType = Scheduler.RR.code then some (s.enter c .RR)
      else if s.schedType = Scheduler.MinCU.code then some (s.enter c .MinCU)
      else some (s.goto c .returned)
    else none
  | .test c => if (s.cpu c).place = .head then some (s.tested c (s.cpu c).stack) else none
  | .dispatch c => if (s.cpu c).place = .body then some (s.goto c .process) else none
  | .ssched c stype =>
    if (s.cpu c).place = .process then some { s with schedType := stype } else none
  | .switchBack c =>
    if (s.cpu c).place = .process then some (s.goto c (afterProcess (s.cpu c).stack)) else none
  | .again c => if (s.cpu c).place = .body then some (s.goto c .head) else none

def depth (s : Cpus) (c : Fin NCPU) : Nat := (s.cpu c).stack.length

end Cpus

def CpuRunWith (ok : Cpus → CpuAct → Prop) : Cpus → Prop :=
  Reachable (· = Cpus.boot) fun s s' => ∃ a, s.step a = some s' ∧ ok s a

def CpuRun : Cpus → Prop := CpuRunWith fun _ _ => True

/-! ## §2. What a step does to the stacks. -/

/-- Every step, with what it does to `sched_type` and to the stack of a CPU. -/
inductive StackMove (s : Cpus) : CpuAct → Cpus → Prop
  | enter {a : CpuAct} (c : Fin NCPU) (x : Scheduler) (htype : s.schedType = x.code)
    (htop : ∀ y l, (s.cpu c).stack = y :: l → y = x.other) (hplain : ∀ d v, a ≠ .ssched d v) :
    StackMove s a (s.enter c x)
  | keep {a : CpuAct} {s' : Cpus} (hstack : ∀ c, (s'.cpu c).stack = (s.cpu c).stack)
    (htype : s'.schedType = s.schedType) (hplain : ∀ d v, a ≠ .ssched d v) : StackMove s a s'
  | ssched (c : Fin NCPU) (stype : UInt32) :
    StackMove s (.ssched c stype) { s with schedType := stype }

theorem goto_stack (s : Cpus) (c d : Fin NCPU) (place : Place) :
    ((s.goto c place).cpu d).stack = (s.cpu d).stack := by
  unfold Cpus.goto
  by_cases hd : d = c
  · simp [hd]
  · simp [hd]

theorem other_other (x : Scheduler) : x.other.other = x := by cases x <;> rfl

/-- CPUs only enter a scheduler from `main` with an empty stack or from the
other scheduler. -/
def Started (s : Cpus) : Prop := ∀ c, (s.cpu c).place = .main → (s.cpu c).stack = []

variable {a : CpuAct} {s : Cpus}

theorem stackMove_of_step {s s' : Cpus} (hstart : Started s)
    (h : s.step a = some s') : StackMove s a s' := by
  cases a with
  | scheduler c =>
    simp only [Cpus.step] at h
    split at h
    case isFalse => cases h
    case isTrue hplace =>
      have htop : ∀ x y : Scheduler, ∀ l, (s.cpu c).stack = y :: l → y = x.other := by
        intro x y l hl
        rw [hstart c hplace] at hl
        cases hl
      split at h
      case isTrue htype =>
        cases h
        exact .enter c .RR htype (htop .RR) (by simp)
      case isFalse =>
        split at h
        case isTrue htype =>
          cases h
          exact .enter c .MinCU htype (htop .MinCU) (by simp)
        case isFalse =>
          cases h
          exact .keep (fun d => goto_stack s c d .returned) rfl (by simp)
  | test c =>
    simp only [Cpus.step] at h
    split at h
    case isFalse => cases h
    case isTrue =>
      cases h
      cases hstack : (s.cpu c).stack with
      | nil => exact .keep (fun _ => rfl) rfl (by simp)
      | cons a l =>
        show StackMove s _ (if _ then _ else _)
        by_cases htype : s.schedType = a.other.code
        · rw [if_pos htype]
          refine .enter c a.other htype (fun y k hy => ?_) (by simp)
          rw [hstack] at hy
          cases hy
          exact (other_other a).symm
        · rw [if_neg htype]
          exact .keep (fun d => goto_stack s c d .body) rfl (by simp)
  | dispatch c =>
    simp only [Cpus.step] at h
    split at h
    case isFalse => cases h
    case isTrue =>
      cases h
      exact .keep (fun d => goto_stack s c d .process) rfl (by simp)
  | ssched c stype =>
    simp only [Cpus.step] at h
    split at h
    case isFalse => cases h
    case isTrue =>
      cases h
      exact .ssched c stype
  | switchBack c =>
    simp only [Cpus.step] at h
    split at h
    case isFalse => cases h
    case isTrue =>
      cases h
      exact .keep (fun d => goto_stack s c d _) rfl (by simp)
  | again c =>
    simp only [Cpus.step] at h
    split at h
    case isFalse => cases h
    case isTrue =>
      cases h
      exact .keep (fun d => goto_stack s c d .head) rfl (by simp)

theorem started_enter (h : Started s) (c : Fin NCPU) (x : Scheduler) : Started (s.enter c x) := by
  intro d hd
  unfold Cpus.enter at hd ⊢
  by_cases hdc : d = c
  · simp [hdc] at hd
  · simp only [update_of_ne hdc] at hd ⊢
    exact h d hd

theorem started_goto (h : Started s) (c : Fin NCPU) {place : Place}
    (hplace : place ≠ .main) : Started (s.goto c place) := by
  intro d hd
  unfold Cpus.goto at hd ⊢
  by_cases hdc : d = c
  · simp [hdc, hplace] at hd
  · simp only [update_of_ne hdc] at hd ⊢
    exact h d hd

theorem afterProcess_ne_main (l : List Scheduler) : Cpus.afterProcess l ≠ .main := by
  unfold Cpus.afterProcess
  split <;> simp

theorem started_tested (h : Started s) (c : Fin NCPU) (l : List Scheduler) :
    Started (s.tested c l) := by
  cases l with
  | nil => exact h
  | cons a l =>
    show Started (if _ then _ else _)
    split
    · exact started_enter h c _
    · exact started_goto h c (by simp)

theorem started_step {s s' : Cpus} (h : Started s) (hs : s.step a = some s') : Started s' := by
  cases a <;> simp only [Cpus.step] at hs <;> split at hs <;> try cases hs
  case scheduler.isTrue c _ =>
    split at hs
    case isTrue => cases hs; exact started_enter h c .RR
    case isFalse =>
      split at hs
      case isTrue => cases hs; exact started_enter h c .MinCU
      case isFalse => cases hs; exact started_goto h c (by simp)
  case test.isTrue c _ => exact started_tested h c _
  case dispatch.isTrue c _ => exact started_goto h c (by simp)
  case ssched.isTrue c stype _ => exact h
  case switchBack.isTrue c _ => exact started_goto h c (afterProcess_ne_main _)
  case again.isTrue c _ => exact started_goto h c (by simp)

/-! ## §3. Switching back and forth. -/

/-- CPU `c` is at the head of the loop of `x`, `n` activations below it, and
`sched_type` has not changed. -/
structure Settled (s : Cpus) (c : Fin NCPU) (x : Scheduler) (n : Nat) : Prop where
  place : (s.cpu c).place = .head
  stack : ∃ l, (s.cpu c).stack = x :: l ∧ l.length = n
  schedType : s.schedType = x.code

def switchActs (c : Fin NCPU) : Scheduler → List CpuAct
  | .RR =>
    [.test c, .dispatch c, .ssched c Scheduler.MinCU.code, .switchBack c, .again c, .test c]
  | .MinCU => [.test c, .dispatch c, .ssched c Scheduler.RR.code, .switchBack c, .test c]

theorem settled_switch {c : Fin NCPU} {x : Scheduler} {n : Nat} (h : Settled s c x n) :
    ∃ s', runActs Cpus.step s (switchActs c x) = some s' ∧ Settled s' c x.other (n + 1) := by
  obtain ⟨l, hl, hn⟩ := h.stack
  have hplace := h.place
  have htype := h.schedType
  refine ⟨⟨x.other.code, update s.cpu c ⟨.head, x.other :: x :: l⟩⟩, ?_, ?_⟩
  · cases x <;>
    simp [switchActs, runActs, Cpus.step, Cpus.tested, Cpus.goto, Cpus.enter,
      Cpus.afterProcess, hplace, hl, htype, Scheduler.other, Scheduler.code]
  · exact ⟨by simp, ⟨x :: l, by simp, by simp [hn]⟩, rfl⟩

theorem CpuRun.runActs {s s' : Cpus} {acts : List CpuAct} (h : CpuRun s)
    (hrun : runActs Cpus.step s acts = some s') : CpuRun s' :=
  Reachable.runActs (fun _ a _ hs => ⟨a, hs, trivial⟩) h hrun

theorem exists_depth (n : Nat) : ∃ s x, CpuRun s ∧ Settled s 0 x n := by
  induction n with
  | zero =>
    refine ⟨Cpus.boot.enter 0 .MinCU, .MinCU, ?_, ⟨rfl, ⟨[], rfl, rfl⟩, rfl⟩⟩
    exact Reachable.next (.start rfl) ⟨.scheduler 0, rfl, trivial⟩
  | succ n ih =>
    obtain ⟨s, x, hrun, hs⟩ := ih
    obtain ⟨s', hacts, hs'⟩ := settled_switch hs
    exact ⟨s', x.other, hrun.runActs hacts, hs'⟩

/-- **The stack of a CPU grows with every switch it sees.** -/
theorem depth_unbounded : ¬ ∃ bound, ∀ s, CpuRun s → ∀ c, s.depth c ≤ bound := by
  rintro ⟨bound, hbound⟩
  obtain ⟨s, x, hrun, hs⟩ := exists_depth bound
  obtain ⟨l, hl, hn⟩ := hs.stack
  have hdepth := hbound s hrun 0
  unfold Cpus.depth at hdepth
  rw [hl, List.length_cons, hn] at hdepth
  omega

/-! ## §4. Switching once. -/

/-- `MinCU` is stored only while no CPU has entered `rr_scheduler`. -/
def NoReturnToMinCU (s : Cpus) (a : CpuAct) : Prop :=
  ∀ c, a = .ssched c Scheduler.MinCU.code → ∀ d, .RR ∉ (s.cpu d).stack

structure OneSwitch (s : Cpus) : Prop where
  started : Started s
  stack : ∀ c, (s.cpu c).stack = [] ∨ (s.cpu c).stack = [.MinCU] ∨ (s.cpu c).stack = [.RR] ∨
    (s.cpu c).stack = [.RR, .MinCU]
  schedType : ∀ c, .RR ∈ (s.cpu c).stack → s.schedType ≠ Scheduler.MinCU.code

theorem oneSwitch_boot : OneSwitch Cpus.boot :=
  ⟨fun _ _ => rfl, fun _ => .inl rfl, fun _ hmem => absurd hmem (by simp [Cpus.boot])⟩

theorem enter_stack_self (s : Cpus) (c : Fin NCPU) (x : Scheduler) :
    ((s.enter c x).cpu c).stack = x :: (s.cpu c).stack := by simp [Cpus.enter]

theorem enter_stack_of_ne (s : Cpus) {c d : Fin NCPU} (x : Scheduler) (h : d ≠ c) :
    ((s.enter c x).cpu d).stack = (s.cpu d).stack := by simp [Cpus.enter, h]

theorem oneSwitch_enter (h : OneSwitch s) {c : Fin NCPU} {x : Scheduler}
    (htype : s.schedType = x.code)
    (htop : ∀ y l, (s.cpu c).stack = y :: l → y = x.other) : OneSwitch (s.enter c x) := by
  have hstack : (s.cpu c).stack = [] ∨ x = .RR ∧ (s.cpu c).stack = [.MinCU] := by
    rcases h.stack c with hl | hl | hl | hl
    · exact .inl hl
    · cases x with
      | RR => exact .inr ⟨rfl, hl⟩
      | MinCU => exact absurd (htop _ _ hl) (by decide)
    all_goals
      -- `x` would be MinCU, which `sched_type` cannot be any more
      cases x with
      | RR => exact absurd (htop _ _ hl) (by decide)
      | MinCU => exact absurd htype (h.schedType c (by rw [hl]; simp))
  refine ⟨started_enter h.started c x, fun d => ?_, fun d hd => ?_⟩
  · by_cases hdc : d = c
    · rw [hdc, enter_stack_self]
      rcases hstack with hl | ⟨hx, hl⟩
      · rw [hl]
        cases x <;> simp
      · rw [hl, hx]
        simp
    · rw [enter_stack_of_ne s x hdc]
      exact h.stack d
  · show s.schedType ≠ _
    cases x with
    | RR => rw [htype]; decide
    | MinCU =>
      by_cases hdc : d = c
      · rw [hdc, enter_stack_self] at hd
        rcases hstack with hl | ⟨hx, _⟩
        · rw [hl] at hd
          simp at hd
        · cases hx
      · rw [enter_stack_of_ne s _ hdc] at hd
        exact h.schedType d hd

theorem oneSwitch_step {s s' : Cpus} (h : OneSwitch s)
    (hs : s.step a = some s') (hok : NoReturnToMinCU s a) : OneSwitch s' := by
  have hstart := started_step h.started hs
  cases stackMove_of_step h.started hs with
  | enter c x htype htop _ => exact oneSwitch_enter h htype htop
  | keep hstack htype _ =>
    refine ⟨hstart, fun c => ?_, fun c hc => ?_⟩
    · rw [hstack]
      exact h.stack c
    · rw [htype]
      rw [hstack] at hc
      exact h.schedType c hc
  | ssched c stype =>
    refine ⟨hstart, h.stack, fun d hd htype => ?_⟩
    exact hok c (by rw [show stype = Scheduler.MinCU.code from htype]) d hd

/-- **Two activations are enough if the schedulers are switched once.** -/
theorem depth_le_two {s : Cpus} (h : CpuRunWith NoReturnToMinCU s) (c : Fin NCPU) :
    s.depth c ≤ 2 := by
  have hinv : OneSwitch s := by
    refine Reachable.invariant OneSwitch ?_ ?_ h
    · rintro s rfl
      exact oneSwitch_boot
    · rintro s s' hs ⟨a, hstep, hok⟩
      exact oneSwitch_step hs hstep hok
  unfold Cpus.depth
  rcases hinv.stack c with hl | hl | hl | hl <;> rw [hl] <;> simp

instance (s : Cpus) (a : CpuAct) : Decidable (NoReturnToMinCU s a) :=
  inferInstanceAs (Decidable (∀ _, _))

/-- CPU 0 sees the switch to `RR`. -/
theorem depth_le_two_switched : ∃ s, CpuRunWith NoReturnToMinCU s ∧ s.depth 0 = 2 ∧
    s.depth 0 ≤ 2 := by
  have hacts : (runActs (stepIf Cpus.step NoReturnToMinCU) Cpus.boot
      (.scheduler 0 :: switchActs 0 .MinCU)).any (fun s => s.depth 0 = 2) = true := by
    decide +kernel
  obtain ⟨s, hs, htest⟩ := (Option.any_eq_true _ _).mp hacts
  have hrun : CpuRunWith NoReturnToMinCU s := Reachable.runIf (.start rfl) hs
  exact ⟨s, hrun, of_decide_eq_true htest, depth_le_two hrun 0⟩

end Xv6.Sched
