/-
  Xv6.Regs.Isolation — whose registers a thread resumes with.

  When a thread sleeps in `read` and another one is picked next, that one inherits the rest
  of the `read`, result included.
-/
import Xv6.Regs.ThreadCalls

namespace Xv6.Regs

open Lib Multiset Option

/-! ## §1. The condition. -/

/-- The id that a step hands to thread_cleanup. -/
def cleanupTarget (s : State) : Act → Option UInt32
  | .stopThread => stopTarget s.proc.threads s.thread s.frame.a0.toUInt32
  | .fault =>
    match s.path with
    | .user regs =>
      if regs.ra = -1 then s.thread.map fun t => (s.proc.threads t).id else none
    | _ => none
  | _ => none

def choice (s : State) : Act → Option Sched.Choice
  | .dispatch _ => Sched.pickThread s.proc
  | _ => none

/-- A process inside a system call is resumed with the thread that made it, and thread_cleanup
spares the main thread. -/
structure Kept (s : State) (a : Act) : Prop where
  resumed : ∀ c ∈ choice s a, ∀ t ∈ s.path.maker, chosenThread c = t
  spared : ∀ tid ∈ cleanupTarget s a, SparesMain s.proc.threads tid

instance (s : State) (a : Act) : Decidable (Kept s a) :=
  -- looking at the members of the options, not at all ids there are
  have hresumed : DecidablePred fun c => ∀ t ∈ s.path.maker, chosenThread c = t :=
    fun _ => Option.decidableForallMem s.path.maker
  @decidable_of_iff _ _ ⟨fun h => ⟨h.1, h.2⟩, fun h => ⟨h.resumed, h.spared⟩⟩
    (@instDecidableAnd _ _ (Option.decidableForallMem (choice s a))
      (Option.decidableForallMem (cleanupTarget s a)))

/-! ## §2. Steps. -/

section Step

variable {kend : Pa} {s s' : State} {a : Act}

theorem otherStep_inv (h : Inv s) (hs : otherStep s a = some s') (hok : Kept s a) : Inv s' := by
  cases a with
  | wakeup =>
    simp only [otherStep] at hs
    split at hs
    · next hsl =>
      cases hs
      exact h.wakeup hsl
    · cases hs
  | dispatch ticks =>
    simp only [otherStep] at hs
    split at hs
    · next hrun =>
      obtain ⟨c, hc, rfl⟩ := map_eq_some_iff.mp hs
      exact h.switchIn hrun hc ticks fun t ht => hok.resumed c hc t ht
    · cases hs
  | otherKalloc =>
    simp only [otherStep] at hs
    split at hs
    · cases hs
    · next pa rest hfree =>
      cases hs
      refine h.others ?_ fun q hq => Function.update_of_ne ?_ _ _
      · show (rest : Multiset Pa) + pa ::ₘ s.others = s.rest
        rw [State.rest, hfree, ← cons_coe, cons_add, add_cons]
      · rintro rfl
        refine hq (mem_add.mpr (.inl ?_))
        rw [hfree]
        exact mem_coe.mpr List.mem_cons_self
  | otherKfree pa =>
    simp only [otherStep] at hs
    split at hs
    · next hpa =>
      cases hs
      refine h.others ?_ fun q hq => Function.update_of_ne ?_ _ _
      · show ((pa :: s.heap.free : List Pa) : Multiset Pa) + s.others.erase pa = s.rest
        rw [State.rest, ← cons_coe, cons_add, ← add_cons,
          cons_erase hpa]
      · rintro rfl
        exact hq (mem_add.mpr (.inr hpa))
    · cases hs
  | otherWrite pa f =>
    simp only [otherStep] at hs
    split at hs
    · next hpa =>
      cases hs
      refine h.others rfl fun q hq => Function.update_of_ne ?_ _ _
      rintro rfl
      exact hq (mem_add.mpr (.inr hpa))
    · cases hs
  | otherTid =>
    cases hs
    exact h.others rfl fun _ _ => rfl
  | _ => cases hs

theorem afterPath_maker {t t' : Fin MAX_THREAD} {after : After}
    (h : (afterPath t after).maker = some t') : t = t' := by
  cases after <;> cases h
  rfl

theorem trap_inv (h : Inv s) (hrun : s.Running) {regs : Trapframe} (hp : s.path = .user regs)
    (regs' : Trapframe) {path : Path} (hmaker : ∀ t, path.maker = some t → s.current = t) :
    Inv ((s.trapped regs').goto path) := by
  refine h.rewrite hrun (h.inUse hrun ?_ ?_) regs' hmaker <;> rw [hp] <;> exact nofun

theorem fault_inv (h : Inv s) (hrun : s.Running) {regs : Trapframe} (hp : s.path = .user regs)
    (hra : regs.ra = -1) (hok : Kept s .fault)
    (hs : faultCleanup kend (s.trapped regs) = some s') : Inv s' := by
  have hret : Inv ((s.trapped regs).goto .ret) := trap_inv h hrun hp regs nofun
  have huse : CurrentInUse s.proc.threads s.thread := by
    refine h.inUse hrun ?_ ?_ <;> rw [hp] <;> exact nofun
  unfold faultCleanup at hs
  split at hs
  · cases hs
    exact hret
  · next t ht =>
    have ht' : s.thread = some t := ht
    have hmain : SparesMain s.proc.threads (s.proc.threads t).id := by
      refine hok.spared _ ?_
      unfold cleanupTarget
      rw [hp]
      dsimp only
      rw [if_pos hra, ht']
      rfl
    obtain ⟨⟨s₁, after⟩, hthreads, rfl⟩ := map_eq_some_iff.mp hs
    obtain ⟨⟨r, heap⟩, hr, he⟩ := map_eq_some_iff.mp hthreads
    cases he
    cases hafter : r.after with
    | returns v =>
      exact hret.freed hrun nofun huse hmain hr .ret nofun fun hy => by
        rw [hafter] at hy
        cases hy
    | yields => exact hret.freed hrun nofun huse hmain hr .yield nofun fun _ => rfl
    | exits =>
      exact hret.freed hrun nofun huse hmain hr .exit nofun fun hy => by
        rw [hafter] at hy
        cases hy

section ThreadCalls

variable {t : Fin MAX_THREAD} {num : Int} (h : Inv s) (hrun : s.Running)
  (hp : s.path = .call t num)

include h hrun hp

theorem call_inUse : (∀ regs, s.path ≠ .user regs) ∧ CurrentInUse s.proc.threads s.thread ∧
    s.current = t := by
  refine ⟨by rw [hp]; exact nofun, h.inUse hrun ?_ ?_, h.maker hrun t (by rw [hp]; rfl)⟩ <;>
    rw [hp] <;> exact nofun

theorem callCreateThread_inv (hs : callCreateThread kend s t = some s') : Inv s' := by
  obtain ⟨hk, huse, hcur⟩ := call_inUse h hrun hp
  obtain ⟨⟨s₁, after⟩, hthreads, rfl⟩ := map_eq_some_iff.mp hs
  obtain ⟨⟨r, heap⟩, hr, he⟩ := map_eq_some_iff.mp hthreads
  cases he
  exact h.created hrun hk huse hr _ fun t' ht => hcur.trans (afterPath_maker ht)

theorem callJoinThread_inv (hs : callJoinThread s t = some s') : Inv s' := by
  obtain ⟨hk, huse, hcur⟩ := call_inUse h hrun hp
  obtain ⟨r, hr, rfl⟩ := map_eq_some_iff.mp hs
  have hsame := sameEntries_joinThread huse hr
  refine (h.sameEntries hsame).goto hk (fun _ _ _ t' ht => ?_) fun _ t' ht => ?_
  · exact fun hf => huse t' ht ((hsame t').1.mp hf)
  · exact hcur.trans (afterPath_maker ht)

theorem callStopThread_inv (hok : Kept s .stopThread) (hs : callStopThread kend s t = some s') :
    Inv s' := by
  obtain ⟨hk, huse, hcur⟩ := call_inUse h hrun hp
  unfold callStopThread at hs
  split at hs
  · cases hs
    exact h.goto hk (fun _ _ _ => huse) fun _ t' ht => hcur.trans (Option.some.inj ht)
  · next tid htid =>
    obtain ⟨⟨s₁, after⟩, hthreads, rfl⟩ := map_eq_some_iff.mp hs
    obtain ⟨⟨r, heap⟩, hr, he⟩ := map_eq_some_iff.mp hthreads
    cases he
    refine h.freed hrun hk huse (hok.spared tid htid) hr _ (fun t' ht => ?_) fun hy => ?_
    · exact hcur.trans (afterPath_maker ht)
    · dsimp only
      rw [hy]
      rfl

end ThreadCalls

theorem runningStep_inv (h : Inv s) (hrun : s.Running)
    (hs : runningStep kend s a s.path = some s') (hok : Kept s a) : Inv s' := by
  have huse : s.path ≠ .yield → s.path ≠ .exit → CurrentInUse s.proc.threads s.thread :=
    h.inUse hrun
  have hcur : ∀ t, s.path.maker = some t → s.current = t := h.maker hrun
  unfold runningStep at hs
  split at hs
  · -- compute
    next hp =>
      rw [hp] at huse
      cases hs
      exact h.toUser (huse nofun nofun) _
  · -- timer
    next hp =>
      cases hs
      exact trap_inv h hrun hp _ nofun
  · -- device
    next hp =>
      cases hs
      exact trap_inv h hrun hp _ nofun
  · -- ecall
    next hp =>
      cases hs
      exact trap_inv h hrun hp _ fun t ht => Option.some.inj ht
  · -- fault
    next regs hp =>
      split at hs
      · next hra => exact fault_inv h hrun hp hra hok hs
      · cases hs
        exact trap_inv h hrun hp _ nofun
  · -- syscall
    next t hp =>
      rw [hp] at huse hcur
      cases hs
      exact h.goto (by rw [hp]; exact nofun) (fun _ _ _ => huse nofun nofun) fun _ => hcur
  · -- serve
    next v t num hp =>
      rw [hp] at huse hcur
      split at hs
      · cases hs
        exact h.goto (by rw [hp]; exact nofun) (fun _ _ _ => huse nofun nofun) fun _ => hcur
      · cases hs
  · -- execRegs
    next a1 epc sp t num hp =>
      obtain ⟨hk, hused, ht⟩ := call_inUse h hrun hp
      split at hs
      · cases hs
        rw [← ht, ← h.frame hrun hk hused]
        exact h.rewrite hrun hused _ hcur
      · cases hs
  · next t num hp =>
    split at hs
    · exact callCreateThread_inv h hrun hp hs
    · cases hs
  · next t num hp =>
    split at hs
    · exact callJoinThread_inv h hrun hp hs
    · cases hs
  · next t num hp =>
    split at hs
    · exact callStopThread_inv h hrun hp hok hs
    · cases hs
  · -- store
    next t v hp =>
      have hk : ∀ regs, s.path ≠ .user regs := by rw [hp]; exact nofun
      have ht : s.current = t := hcur t (by rw [hp]; rfl)
      have hused := huse (by rw [hp]; exact nofun) (by rw [hp]; exact nofun)
      cases hs
      rw [← ht, ← h.frame hrun hk hused]
      exact h.rewrite hrun hused _ nofun
  · -- usertrapret
    next hp =>
      rw [hp] at huse
      cases hs
      exact h.toUser (huse nofun nofun) _
  · -- exit, from the three places that call it
    next t hp =>
      cases hs
      exact h.goto (by rw [hp]; exact nofun) (fun _ _ he => absurd rfl he) nofun
  · next hp =>
    cases hs
    exact h.goto (by rw [hp]; exact nofun) (fun _ _ he => absurd rfl he) nofun
  · next t num hp =>
    split at hs
    · cases hs
      exact h.goto (by rw [hp]; exact nofun) (fun _ _ he => absurd rfl he) nofun
    · cases hs
  · -- the five ways to leave the CPU
    next ticks hp =>
      cases hs
      exact h.switchOut hrun (by rw [hp]; exact nofun) .ZOMBIE nofun ticks
  · next ticks =>
    split at hs
    · next hkernel =>
      cases hs
      refine h.switchOut hrun (fun regs hp => ?_) .RUNNABLE nofun ticks
      rw [hp] at hkernel
      cases hkernel
    · cases hs
  · next ticks hp =>
    cases hs
    have hout := h.switchOut hrun (by rw [hp]; exact nofun) .RUNNABLE nofun ticks
    exact hout.goto (fun regs => by rw [show (switchOut s _ _).path = _ from hp]; exact nofun)
      (fun hr => absurd hr nofun) (fun hr => absurd hr nofun)
  · next ticks t num hp =>
    cases hs
    exact h.switchOut hrun (by rw [hp]; exact nofun) .SLEEPING nofun ticks
  · next ticks hp =>
    cases hs
    exact h.switchOut hrun (by rw [hp]; exact nofun) .SLEEPING nofun ticks
  · cases hs

theorem step_inv (h : Inv s) (hs : step kend s a = some s') (hok : Kept s a) : Inv s' := by
  unfold step at hs
  split at hs
  · next s₁ hother =>
    cases hs
    exact otherStep_inv h hother hok
  · split at hs
    · next hrun => exact runningStep_inv h hrun hs hok
    · cases hs

theorem run_inv (h : RunWith kend Kept s) : Inv s := by
  refine Reachable.invariant Inv (fun s => inv_start) ?_ h
  rintro s s' hi ⟨a, hs, hok⟩
  exact step_inv hi hs hok

end Step

/-! ## §3. Runs. -/

/-- Whoever runs, it is with its own registers: when it comes back to user
mode, and as long as the kernel works for it. -/
structure Isolated (s : State) : Prop where
  /-- `usertrapret` loads what the thread is to resume with. -/
  resumes : s.Running → s.path = .ret → s.frame = s.last s.current
  /-- The path is in a system call of the running thread, and reads and writes that one's trapframe.
  -/
  serves : s.Running → ∀ t, s.path.maker = some t → s.current = t ∧ s.frame = s.last t

/-- **Register isolation**, as long as system calls are resumed with their own thread and
thread_cleanup spares the main thread. -/
theorem registers_isolated (kend : Pa) (s : State) (h : RunWith kend Kept s) : Isolated s := by
  have hi := run_inv h
  constructor
  · intro hrun hpath
    have huse := hi.inUse hrun (by rw [hpath]; exact nofun) (by rw [hpath]; exact nofun)
    exact hi.frame hrun (by rw [hpath]; exact nofun) huse
  · intro hrun t ht
    have hcur := hi.maker hrun t ht
    have hne : s.path ≠ .yield ∧ s.path ≠ .exit ∧ ∀ regs, s.path ≠ .user regs := by
      refine ⟨?_, ?_, fun regs => ?_⟩ <;> intro he <;> rw [he] at ht <;> cases ht
    refine ⟨hcur, ?_⟩
    rw [← hcur]
    exact hi.frame hrun hne.2.2 (hi.inUse hrun hne.1 hne.2.1)

/-! ## §4. Two threads, one kernel path. -/

def runActs (kend : Pa) (ok : State → Act → Prop) [∀ s a, Decidable (ok s a)] :
    State → List Act → Option State
  | s, [] => some s
  | s, a :: as => if ok s a then (step kend s a).bind fun s => runActs kend ok s as else none

variable {ok : State → Act → Prop}

theorem run_runActs {kend : Pa} [∀ s a, Decidable (ok s a)]
    {as : List Act} {s s' : State} (h : RunWith kend ok s)
    (hr : runActs kend ok s as = some s') : RunWith kend ok s' := by
  induction as generalizing s with
  | nil =>
    cases hr
    exact h
  | cons a as ih =>
    simp only [runActs] at hr
    split at hr
    · next hok =>
      obtain ⟨s₁, hs, hr⟩ := bind_eq_some_iff.mp hr
      exact ih (h.next ⟨a, hs, hok⟩) hr
    · cases hr

theorem exists_run_runActs {kend : Pa} [∀ s a, Decidable (ok s a)]
    {as : List Act} {s : State} {test : State → Bool} (h : Start s)
    (hr : (runActs kend ok s as).any test = true) : ∃ s, RunWith kend ok s ∧ test s = true := by
  cases hb : runActs kend ok s as with
  | none =>
    rw [hb] at hr
    cases hr
  | some s' =>
    rw [hb] at hr
    exact ⟨s', run_runActs (.start h) hb, hr⟩

def newProcess : State :=
  { proc := { Proc.init with state := .RUNNABLE, trapframe := some (PHYSTOP - PGSIZE) }
    thread := none
    ptf := none
    frames := fun _ => .fill 0
    path := .ret
    heap := { free := [PHYSTOP - 2 * PGSIZE, PHYSTOP - 3 * PGSIZE], next := 1, trace := [] }
    others := 0
    last := fun _ => .fill 0 }

theorem start_newProcess : Start newProcess := by
  constructor <;> first | rfl | decide

def callRegs (num a0 a1 a2 : UInt64) : Trapframe :=
  { Trapframe.fill 0 with a7 := num, a0 := a0, a1 := a1, a2 := a2 }

def makesThread : List Act :=
  [.dispatch 0, .usertrapret, .compute (callRegs 26 0x1000 7 0x8000), .ecall, .syscall,
    .createThread, .store, .usertrapret]

/-- It then calls `read`, sleeps and is woken; `read` returns 3. -/
def readSleeps : List Act :=
  makesThread ++ [.compute (callRegs 5 0 0x2000 3), .ecall, .syscall, .sleep 0, .wakeup,
    .dispatch 0, .serve 3, .store]

def AnyStep (_ : State) (_ : Act) : Prop := True

instance (s : State) (a : Act) : Decidable (AnyStep s a) := inferInstanceAs (Decidable True)

/-- The new thread is about to enter user mode with the 3 as its argument. -/
theorem result_in_other_thread :
    ∃ s, RunWith 0x80000000 AnyStep s ∧ s.Running ∧ s.path = .ret ∧ s.current = 1 ∧
      s.frame.a0 = 3 ∧ (s.last 1).a0 = 7 ∧ ¬ Isolated s := by
  have hacts : ((runActs 0x80000000 AnyStep newProcess readSleeps).any fun s =>
      s.Running ∧ s.path = .ret ∧ s.current = 1 ∧ s.frame.a0 = 3 ∧ (s.last 1).a0 = 7) = true := by
    decide +kernel
  obtain ⟨s, hs, htest⟩ := exists_run_runActs start_newProcess hacts
  obtain ⟨hrun, hpath, hcur, hframe, hlast⟩ := of_decide_eq_true htest
  refine ⟨s, hs, hrun, hpath, hcur, hframe, hlast, fun hiso => ?_⟩
  have hsame := hiso.resumes hrun hpath
  rw [hcur] at hsame
  rw [hsame, hlast] at hframe
  cases hframe

/-- The main thread waits for the new one, and that one reads. -/
def joinThenRead : List Act :=
  makesThread ++ [.compute (callRegs 27 2 0 0), .ecall, .syscall, .joinThread, .yield 0,
    .dispatch 0, .usertrapret, .compute (callRegs 5 0 0x2000 3), .ecall, .syscall, .sleep 0,
    .wakeup, .dispatch 0, .serve 3, .store]

theorem registers_isolated_joinThenRead :
    ∃ s, RunWith 0x80000000 Kept s ∧ s.Running ∧ s.path = .ret ∧ s.current = 1 ∧
      s.frame = { callRegs 5 3 0x2000 3 with epc := 4 } ∧ Isolated s := by
  have hacts : ((runActs 0x80000000 Kept newProcess joinThenRead).any fun s =>
      s.Running ∧ s.path = .ret ∧ s.current = 1 ∧
        s.frame = { callRegs 5 3 0x2000 3 with epc := 4 }) = true := by
    decide +kernel
  obtain ⟨s, hs, htest⟩ := exists_run_runActs start_newProcess hacts
  obtain ⟨hrun, hpath, hcur, hframe⟩ := of_decide_eq_true htest
  exact ⟨s, hs, hrun, hpath, hcur, hframe, registers_isolated _ s hs⟩

end Xv6.Regs
