/-
  Xv6.Mem.Sequential — calls that run to their end undisturbed.

  Such a run of the machine can be computed: `runCalls` performs a list of calls.
-/
import Xv6.Mem.Machine

namespace Xv6.Mem

open Lib State Option

/-! ## §1. A whole program is a sequence of effects. -/

section Undisturbed

variable {ld : Layout} {ok : State → Act → Prop} {s : State} (p q : Slot) {α : Type}
  (mk : Kernel α → Work)

theorem setPath_setHeap_setPath_setHeap (s : State) (p : Slot) (path path' : Path)
    (heap heap' : Heap Pa UInt32) :
    (((s.setPath p path).setHeap heap).setPath p path').setHeap heap' =
      (s.setPath p path').setHeap heap' := by
  simp [setPath, setHeap]

theorem run_prog (hgo : ∀ s p, ok s (.goOn p)) (hmk : ∀ prog who heap, (mk prog).step ld who heap =
      (prog.step (kfreeOk ld.kend) (· + 1) who heap).map fun r => (mk r.1, r.2))
    (htarget : ∀ prog, (mk prog).target p = q) {prog : Kernel α} {a : α}
    {heap : Heap Pa UInt32} (h : RunWith ld ok s) (hrun : (s.proc p).state = .RUNNING)
    (hw : s.path p = .work (mk prog))
    (hr : prog.run (kfreeOk ld.kend) (· + 1) (s.born q) s.heap = some (a, heap)) :
    RunWith ld ok ((s.setPath p (.work (mk (.ret a)))).setHeap heap) := by
  have hall : ∀ y : Kernel α × Heap Pa UInt32,
      Relation.ReflTransGen (fun (x y : Kernel α × Heap Pa UInt32) =>
        x.1.step (kfreeOk ld.kend) (· + 1) (s.born q) x.2 = some y) (prog, s.heap) y →
      RunWith ld ok ((s.setPath p (.work (mk y.1))).setHeap y.2) := by
    intro y hy
    induction hy with
    | refl =>
      have hself : (s.setPath p (.work (mk prog))).setHeap s.heap = s := by
        rw [← hw]
        simp [setPath, setHeap]
      rw [hself]
      exact h
    | @tail x y _ hstep ih =>
      have hnext := ih.next ⟨.goOn p, @Step.effect ld _ p (mk x.1) (mk y.1) y.2 hrun (by simp)
        ?_, hgo _ _⟩
      · rwa [setPath_setHeap_setPath_setHeap] at hnext
      · rw [htarget, hmk]
        exact congrArg (Option.map _) hstep
  exact hall _ (Prog.run_steps hr)

end Undisturbed

/-! ## §2. Calls. -/

inductive Call where
  | fork (p np : Slot)
  | createThread (p : Slot)
  | threadCleanup (p : Slot) (tid : UInt32)
  | exit (p : Slot) (status : Int)
  | wait (p pp : Slot)
  | dispatch (p : Slot)
  | leave (p : Slot)
  deriving DecidableEq

def Path.isUser : Path → Bool
  | .user => true
  | .work _ | .yield | .exit _ => false

theorem Path.eq_user {path : Path} (h : path.isUser = true) : path = .user := by
  cases path <;> first | rfl | cases h

def Path.isWork : Path → Bool
  | .work _ => true
  | .user | .yield | .exit _ => false

def inUser (s : State) (p : Slot) : Bool := (s.proc p).state = .RUNNING ∧ (s.path p).isUser

variable {s : State} {ok : State → Act → Prop}

theorem inUser_iff {p : Slot} (h : inUser s p = true) : s.InUser p := by
  obtain ⟨hrun, hpath⟩ := of_decide_eq_true h
  exact ⟨hrun, Path.eq_user hpath⟩

def nobodyWorks (s : State) : Bool := ∀ p, (s.path p).isWork = false

theorem not_busy_of_nobodyWorks (h : nobodyWorks s = true) (q : Slot) : ¬ s.Busy q := by
  rintro ⟨p, w, hw, _⟩
  have := of_decide_eq_true h p
  rw [hw] at this
  cases this

section Calls

variable (ld : Layout) (s : State)

def callFork (p np : Slot) (parent : Image) : Option State :=
  let s₁ := startFork ld s p np parent
  ((forkCore ld.trampoline parent).run (kfreeOk ld.kend) (· + 1) (s₁.born np) s₁.heap).map
    fun r => ((s₁.setHeap r.2).setProc np (forked (s₁.proc np) p r.1)).setPath p .user

def callThreads (p : Slot) (prog : Kernel ThreadsResult) : Option State :=
  (prog.run (kfreeOk ld.kend) (· + 1) (s.born p) s.heap).map fun r =>
    (((s.setHeap r.2).setProc p { s.proc p with threads := r.1.threads }).setThread p
      r.1.thread).setPath p (After.path r.1.after)

def callWait (p pp : Slot) : Option State :=
  ((freeproc (s.proc pp).trapframe (s.proc pp).pagetable (s.proc pp).sz).run (kfreeOk ld.kend)
    (· + 1) (s.born pp) s.heap).map fun r => reapDone (s.setHeap r.2) p pp

def call : Call → Option State
  | .fork p np =>
    if inUser s p ∧ (s.proc np).state = .UNUSED then
      (imageOf (s.proc p)).bind (callFork ld s p np)
    else none
  | .createThread p =>
    if inUser s p then
      callThreads ld s p (createThread (s.proc p).threads (s.proc p).trapframe (s.thread p))
    else none
  | .threadCleanup p tid =>
    if inUser s p then
      callThreads ld s p (threadCleanup (s.proc p).threads (s.thread p) tid)
    else none
  | .exit p status =>
    if inUser s p ∧ p ≠ s.initproc then some (exited (s.setPath p (.exit status)) p status 0)
    else none
  | .wait p pp =>
    if inUser s p ∧ (s.proc pp).parent = some p ∧ (s.proc pp).state = .ZOMBIE ∧
        nobodyWorks s then
      callWait ld s p pp
    else none
  | .dispatch p =>
    if (s.proc p).state = .RUNNABLE then
      (Sched.pickThread (s.proc p)).map fun c =>
        (s.setProc p (dispatched (s.proc p) 0 c).1).setThread p (dispatched (s.proc p) 0 c).2
    else none
  | .leave p =>
    if (s.proc p).state = .RUNNING ∧ (s.path p).preemptible then
      some (((s.setProc p (switchedOut (s.proc p) (s.thread p) .RUNNABLE 0)).setPath p
        (s.path p).resumed).setThread p none)
    else none

end Calls

/-- The step of the machine that a call depends on: its start, or for `exit`
its end. -/
def Call.act : Call → Act
  | .fork p np => .fork p np
  | .createThread p => .createThread p
  | .threadCleanup p tid => .threadCleanup p tid
  | .exit p status => .exit p status
  | .wait p pp => .wait p pp
  | .dispatch p => .dispatch p
  | .leave p => .leave p .RUNNABLE

def Call.before (s : State) : Call → State
  | .exit p status => s.setPath p (.exit status)
  | _ => s

section Sound

variable {ld : Layout} {ok : State → Act → Prop} {s s' : State}
  (hgo : ∀ s p, ok s (.goOn p)) (hcall : ∀ s p status, ok s (.callExit p status))

include hgo

theorem run_callFork {p np : Slot} {parent : Image} (h : RunWith ld ok s) (hp : s.InUser p)
    (himage : imageOf (s.proc p) = some parent) (hnp : (s.proc np).state = .UNUSED)
    (hok : ok s (.fork p np)) (hc : callFork ld s p np parent = some s') : RunWith ld ok s' := by
  obtain ⟨⟨r, heap⟩, hr, he⟩ := map_eq_some_iff.mp hc
  have hrun : (s.proc p).state = .RUNNING := hp.1
  have hne : p ≠ np := by
    rintro rfl
    rw [hrun] at hnp
    cases hnp
  have h₁ := h.next ⟨_, .fork hp himage hnp, hok⟩
  have h₂ := run_prog p np (.child np) hgo (fun _ _ _ => rfl) (fun _ => rfl) h₁
    (by simpa [startFork, hne] using hrun) (by simp [startFork]) hr
  have h₃ : RunWith ld ok _ := h₂.next ⟨.goOn p, @Step.forkDone ld _ p np r
    (by simpa [startFork, hne] using hrun) (by simp), hgo _ _⟩
  rw [← he]
  convert h₃ using 1
  simp [setPath, setHeap, setProc]

theorem run_callThreads {p : Slot} {prog : Kernel ThreadsResult}
    (h : RunWith ld ok (s.setPath p (.work (.threads prog))))
    (hrun : (s.proc p).state = .RUNNING) (hc : callThreads ld s p prog = some s') :
    RunWith ld ok s' := by
  obtain ⟨⟨r, heap⟩, hr, he⟩ := map_eq_some_iff.mp hc
  have h₂ := run_prog p p Work.threads hgo (fun _ _ _ => rfl) (fun _ => rfl) h hrun (by simp) hr
  have h₃ : RunWith ld ok _ := h₂.next ⟨.goOn p, @Step.threadsDone ld _ p r hrun (by simp), hgo _ _⟩
  rw [← he]
  convert h₃ using 1
  simp [setPath, setHeap, setProc, setThread]

theorem run_callWait {p pp : Slot} (h : RunWith ld ok s) (hp : s.InUser p)
    (hchild : (s.proc pp).parent = some p) (hzombie : (s.proc pp).state = .ZOMBIE)
    (hfree : ¬ s.Busy pp) (hok : ok s (.wait p pp)) (hc : callWait ld s p pp = some s') :
    RunWith ld ok s' := by
  obtain ⟨⟨r, heap⟩, hr, he⟩ := map_eq_some_iff.mp hc
  have h₁ := h.next ⟨_, .wait hp hchild hzombie hfree, hok⟩
  have h₂ := run_prog p pp (.reap pp) hgo (fun _ _ _ => rfl) (fun _ => rfl) h₁ hp.1 (by simp) hr
  have h₃ : RunWith ld ok _ := h₂.next ⟨.goOn p, @Step.waitDone ld _ p pp hp.1 (by simp), hgo _ _⟩
  rw [← he]
  convert h₃ using 1
  simp [setPath, setHeap, setProc, reapDone]

include hcall

/-- **What a call computes is reached by a run.** -/
theorem run_call {c : Call} (h : RunWith ld ok s) (hok : ok (c.before s) c.act)
    (hc : call ld s c = some s') : RunWith ld ok s' := by
  cases c with
  | fork p np =>
    simp only [call] at hc
    split at hc
    · next hif =>
      obtain ⟨parent, himage, hc⟩ := bind_eq_some_iff.mp hc
      exact run_callFork hgo h (inUser_iff hif.1) himage hif.2 hok hc
    · cases hc
  | createThread p =>
    simp only [call] at hc
    split at hc
    · next hif =>
      have hp := inUser_iff hif
      exact run_callThreads hgo (h.next ⟨_, .createThread hp, hok⟩) hp.1 hc
    · cases hc
  | threadCleanup p tid =>
    simp only [call] at hc
    split at hc
    · next hif =>
      have hp := inUser_iff hif
      exact run_callThreads hgo (h.next ⟨_, .threadCleanup hp, hok⟩) hp.1 hc
    · cases hc
  | exit p status =>
    simp only [call] at hc
    split at hc
    · next hif =>
      have hp := inUser_iff hif.1
      cases hc
      have h₁ := h.next ⟨_, @Step.callExit ld s p status hp, hcall _ _ _⟩
      exact h₁.next ⟨.exit p status, .exit hp.1 (by simp) hif.2, hok⟩
    · cases hc
  | wait p pp =>
    simp only [call] at hc
    split at hc
    · next hif =>
      obtain ⟨hp, hchild, hzombie, hnobody⟩ := hif
      exact run_callWait hgo h (inUser_iff hp) hchild hzombie
        (not_busy_of_nobodyWorks hnobody pp) hok hc
    · cases hc
  | dispatch p =>
    simp only [call] at hc
    split at hc
    · next hif =>
      obtain ⟨c, hc, he⟩ := map_eq_some_iff.mp hc
      rw [← he]
      exact h.next ⟨_, .dispatch hif hc, hok⟩
    · cases hc
  | leave p =>
    simp only [call] at hc
    split at hc
    · next hif =>
      cases hc
      exact h.next ⟨_, .leave hif.1 hif.2 (.inl rfl), hok⟩
    · cases hc

end Sound

def runCalls (ld : Layout) (ok : State → Act → Prop) [∀ s a, Decidable (ok s a)] :
    State → List Call → Option State
  | s, [] => some s
  | s, c :: cs =>
    if ok (c.before s) c.act then (call ld s c).bind fun s => runCalls ld ok s cs else none

def bootCalls (ld : Layout) (ok : State → Act → Prop) [∀ s a, Decidable (ok s a)]
    (cs : List Call) : Option State := (boot ld 0).bind fun s => runCalls ld ok s cs

section

variable {ld : Layout} [∀ s a, Decidable (ok s a)] (hgo : ∀ s p, ok s (.goOn p))
  (hcall : ∀ s p status, ok s (.callExit p status)) {cs : List Call}

include hgo hcall

theorem run_bootCalls (h : bootCalls ld ok cs = some s) : RunWith ld ok s := by
  have hcalls : ∀ (cs : List Call) (s₀ : State), RunWith ld ok s₀ →
      runCalls ld ok s₀ cs = some s → RunWith ld ok s := by
    intro cs
    induction cs with
    | nil =>
      intro s₀ h₀ he
      cases he
      exact h₀
    | cons c cs ih =>
      intro s₀ h₀ he
      simp only [runCalls] at he
      split at he
      · next hok =>
        obtain ⟨s₁, hc, he⟩ := bind_eq_some_iff.mp he
        exact ih s₁ (run_call hgo hcall h₀ hok hc) he
      · cases he
  obtain ⟨s₀, hboot, hrun⟩ := bind_eq_some_iff.mp h
  exact hcalls cs s₀ (.start ⟨0, hboot⟩) hrun

theorem exists_run_bootCalls {test : State → Bool} (h : (bootCalls ld ok cs).any test = true) :
    ∃ s, RunWith ld ok s ∧ test s = true := by
  cases hb : bootCalls ld ok cs with
  | none =>
    rw [hb] at h
    cases h
  | some s =>
    rw [hb] at h
    exact ⟨s, run_bootCalls hgo hcall hb, h⟩

end

end Xv6.Mem
