/-
  Xv6.Regs.ExecThreads — exec and the other threads of the process.

  exec writes a1, epc and sp to `*p->trapframe` and does not look at `p->threads`:
  every other entry in use is a context of the old program that a scheduler will run.
-/
import Xv6.Regs.Isolation
import Xv6.Proc.TableOk

namespace Xv6.Regs

open Lib Function Option

/-! ## §1. The running thread and the table. -/

structure Front (s : State) : Prop where
  one : s.Running → OneRunning s.proc.threads s.thread
  rest : ¬ s.Running → ∀ i, (s.proc.threads i).state ≠ .THREAD_RUNNING
  fronted : s.Running → s.path ≠ .yield → s.path ≠ .exit → Fronted s.proc.threads s.thread
  page : MainPage s.proc.trapframe s.proc.threads
  ptf : s.Running → s.ptf ≠ none → ∃ i, i ≠ 0 ∧ s.thread = some i

section Front

variable {s s' : State}

theorem MainPage.same {trapframe : Option Pa} {ts ts' : ThreadTable} (h : MainPage trapframe ts)
    (hsame : SameEntries ts ts') : MainPage trapframe ts' := by
  intro hmain
  rw [(hsame 0).2]
  exact h fun hfree => hmain ((hsame 0).1.mpr hfree)

theorem front_start (h : Start s) : Front s := by
  have hnot : ¬ s.Running := by
    unfold State.Running
    rw [h.state]
    exact nofun
  constructor
  · exact fun hrun => absurd hrun hnot
  · intro _ i
    rw [h.threads]
    exact nofun
  · exact fun hrun => absurd hrun hnot
  · intro hmain
    rw [h.threads] at hmain
    exact absurd rfl hmain
  · exact fun hrun => absurd hrun hnot

theorem Front.goto (h : Front s) (hproc : s'.proc = s.proc) (hthread : s'.thread = s.thread)
    (hptf : s'.ptf = s.ptf)
    (hpath : s'.path ≠ .yield → s'.path ≠ .exit → s.path ≠ .yield ∧ s.path ≠ .exit) :
    Front s' := by
  have hrun : s'.Running ↔ s.Running := by rw [State.Running, State.Running, hproc]
  constructor
  · rw [hrun, hproc, hthread]
    exact h.one
  · rw [hrun, hproc]
    exact h.rest
  · rw [hrun, hproc, hthread]
    exact fun hr hy he => h.fronted hr (hpath hy he).1 (hpath hy he).2
  · rw [hproc]
    exact h.page
  · rw [hrun, hptf, hthread]
    exact h.ptf

theorem Front.table (h : Front s) (hrun : s.Running) {r : ThreadsResult}
    (hr : Fronts s.proc.trapframe s.proc.threads s.thread r)
    (hproc : s'.proc = { s.proc with threads := r.threads }) (hthread : s'.thread = r.thread)
    (hptf : s'.ptf = s.ptf)
    (hpath : s'.path ≠ .yield → s'.path ≠ .exit → r.after ≠ .yields ∧ r.after ≠ .exits) :
    Front s' := by
  have hrun' : s'.Running := by rw [State.Running, hproc]; exact hrun
  constructor
  · rw [hproc, hthread]
    exact fun _ => hr.one
  · exact fun hnot => absurd hrun' hnot
  · rw [hproc, hthread]
    exact fun _ hy he => hr.fronted (hpath hy he).1 (hpath hy he).2
  · rw [hproc]
    exact hr.page h.page
  · -- create_thread makes the main thread the running one when there was none
    rw [hptf, hthread]
    intro _ hsome
    obtain ⟨i, hi, hcur⟩ := h.ptf hrun hsome
    rcases hr.thread with hsame | ⟨hnone, _⟩
    · exact ⟨i, hi, hsame.trans hcur⟩
    · rw [hnone] at hcur
      cases hcur

theorem Front.switchOut (h : Front s) (hrun : s.Running) {state : ProcState}
    (hstate : state ≠ .RUNNING) (ticks : UInt32) : Front (switchOut s state ticks) := by
  have hnot : ¬ (Regs.switchOut s state ticks).Running := hstate
  constructor
  · exact fun hr => absurd hr hnot
  · exact fun _ => parked_not_running (h.one hrun)
  · exact fun hr => absurd hr hnot
  · exact MainPage.same h.page (sameEntries_parked _ _)
  · exact fun hr => absurd hr hnot

theorem switchIn_proc (s : State) (c : Sched.Choice) (ticks : UInt32) :
    (switchIn s c ticks).proc = (dispatched s.proc ticks c).1 ∧
      (switchIn s c ticks).thread = (dispatched s.proc ticks c).2 := by
  unfold switchIn
  dsimp only
  split <;> exact ⟨rfl, rfl⟩

theorem Front.switchIn (h : Front s) (hs : s.proc.state = .RUNNABLE) {c : Sched.Choice}
    (hc : Sched.pickThread s.proc = some c) (ticks : UInt32) : Front (switchIn s c ticks) := by
  obtain ⟨hproc, hthread⟩ := switchIn_proc s c ticks
  have hnot : ¬ s.Running := by
    unfold State.Running
    rw [hs]
    exact nofun
  have hrun : (Regs.switchIn s c ticks).Running := by
    unfold State.Running
    rw [hproc]
    cases c <;> rfl
  obtain ⟨hone, hfront⟩ := dispatched_front (h.rest hnot) hc ticks
  constructor
  · rw [hproc, hthread]
    exact fun _ => hone
  · exact fun hr => absurd hrun hr
  · rw [hproc, hthread]
    exact fun _ _ _ => hfront
  · rw [hproc, show (dispatched s.proc ticks c).1.trapframe = s.proc.trapframe by cases c <;> rfl]
    exact MainPage.same h.page (sameEntries_dispatched hc ticks)
  · -- the page of the main thread is `p->trapframe` itself
    intro _ hsome
    rw [hthread]
    unfold Regs.switchIn at hsome
    dsimp only at hsome
    split at hsome
    · next hpage =>
      rcases pickThread_cases hc with ⟨rfl, _⟩ | ⟨t, rfl, hmain, _⟩
      · exact absurd rfl hpage
      · exact ⟨t, fun h0 => hpage (h0 ▸ h.page hmain), rfl⟩
    · exact absurd rfl hsome

end Front

/-! ## §2. Steps. -/

section Step

variable {kend : Pa} {s s' : State} {a : Act}

theorem otherStep_front (h : Front s) (hs : otherStep s a = some s') : Front s' := by
  cases a with
  | wakeup =>
    simp only [otherStep] at hs
    split at hs
    · next hsl =>
      cases hs
      have hnot : ¬ s.Running := by
        unfold State.Running
        rw [hsl]
        simp
      refine ⟨fun hrun => ?_, fun _ => h.rest hnot, fun hrun => ?_, h.page, fun hrun => ?_⟩ <;>
        cases hrun
    · cases hs
  | dispatch ticks =>
    simp only [otherStep] at hs
    split at hs
    · next hrun =>
      obtain ⟨c, hc, rfl⟩ := map_eq_some_iff.mp hs
      exact h.switchIn hrun hc ticks
    · cases hs
  | otherKalloc =>
    simp only [otherStep] at hs
    split at hs
    · cases hs
    · cases hs
      exact h.goto rfl rfl rfl fun hy he => ⟨hy, he⟩
  | otherKfree pa | otherWrite pa f =>
    simp only [otherStep] at hs
    split at hs
    · cases hs
      exact h.goto rfl rfl rfl fun hy he => ⟨hy, he⟩
    · cases hs
  | otherTid =>
    cases hs
    exact h.goto rfl rfl rfl fun hy he => ⟨hy, he⟩
  | _ => cases hs

theorem runThreads_front {prog : Kernel ThreadsResult} {r : State × After}
    (he : prog.ends (Fronts s.proc.trapframe s.proc.threads s.thread))
    (hr : runThreads kend s prog = some r) :
    ∃ q : ThreadsResult, Fronts s.proc.trapframe s.proc.threads s.thread q ∧ r.2 = q.after ∧
      r.1.proc = { s.proc with threads := q.threads } ∧ r.1.thread = q.thread ∧ r.1.ptf = s.ptf := by
  obtain ⟨⟨q, heap⟩, hrun, rfl⟩ := map_eq_some_iff.mp hr
  exact ⟨q, Prog.run_ends he hrun, rfl, rfl, rfl, rfl⟩

theorem afterPath_goes {t : Fin MAX_THREAD} {after : After} (hy : afterPath t after ≠ .yield)
    (he : afterPath t after ≠ .exit) : after ≠ .yields ∧ after ≠ .exits := by
  cases after with
  | returns v => exact ⟨nofun, nofun⟩
  | yields => exact absurd rfl hy
  | exits => exact absurd rfl he

section ThreadCalls

variable (h : Front s) (hrun : s.Running)
  (hfront : Fronted s.proc.threads s.thread)

include h hrun hfront

variable {t : Fin MAX_THREAD}

theorem callCreateThread_front (hs : callCreateThread kend s t = some s') : Front s' := by
  obtain ⟨r, hr, rfl⟩ := map_eq_some_iff.mp hs
  obtain ⟨q, hq, hafter, hproc, hthread, hptf⟩ :=
    runThreads_front (createThread_ends s.proc.trapframe (h.one hrun) hfront) hr
  have hinit : ∀ f, (initFrame s.proc.threads r.1 f).proc = r.1.proc ∧
      (initFrame s.proc.threads r.1 f).thread = r.1.thread ∧
      (initFrame s.proc.threads r.1 f).ptf = r.1.ptf := by
    intro f
    unfold initFrame
    split <;> exact ⟨rfl, rfl, rfl⟩
  obtain ⟨hp, ht, hf⟩ := hinit (newFrame s.frame.a0 s.frame.a1 s.frame.a2)
  refine h.table hrun hq (hp.trans hproc) (ht.trans hthread) (hf.trans hptf) fun hy he => ?_
  rw [← hafter]
  exact afterPath_goes hy he

theorem callJoinThread_front (hs : callJoinThread s t = some s') : Front s' := by
  obtain ⟨r, hr, rfl⟩ := map_eq_some_iff.mp hs
  obtain ⟨hone, hfronted⟩ := joinThread_front (h.one hrun) hfront hr
  have huse : CurrentInUse s.proc.threads s.thread := fun i hi => by
    rw [(hfront i hi).1]
    exact nofun
  have hpage : MainPage s.proc.trapframe r.threads :=
    MainPage.same h.page (sameEntries_joinThread huse hr)
  have hq : Fronts s.proc.trapframe s.proc.threads s.thread { r with thread := s.thread } :=
    ⟨hone, fun hy _ => hfronted hy, fun _ => hpage, .inl rfl⟩
  exact h.table hrun hq rfl rfl rfl fun hy he => afterPath_goes hy he

theorem callStopThread_front (hp : s.path ≠ .yield ∧ s.path ≠ .exit)
    (hs : callStopThread kend s t = some s') : Front s' := by
  unfold callStopThread at hs
  split at hs
  · cases hs
    exact h.goto rfl rfl rfl fun _ _ => hp
  · next tid htid =>
    obtain ⟨r, hr, rfl⟩ := map_eq_some_iff.mp hs
    obtain ⟨q, hq, hafter, hproc, hthread, hptf⟩ :=
      runThreads_front (threadCleanup_ends s.proc.trapframe tid (h.one hrun) hfront) hr
    refine h.table hrun hq hproc hthread hptf fun hy he => ?_
    rw [← hafter]
    have hne := afterPath_goes hy he
    cases hr2 : r.2 with
    | returns v => exact ⟨nofun, nofun⟩
    | yields => exact absurd (by rw [hr2]; rfl) hne.1
    | exits => exact absurd (by rw [hr2]; rfl) hne.2

theorem faultCleanup_front (hp : s.path ≠ .yield ∧ s.path ≠ .exit)
    (hs : faultCleanup kend s = some s') : Front s' := by
  unfold faultCleanup at hs
  split at hs
  · cases hs
    exact h.goto rfl rfl rfl fun _ _ => hp
  · next t ht =>
    obtain ⟨r, hr, rfl⟩ := map_eq_some_iff.mp hs
    obtain ⟨q, hq, hafter, hproc, hthread, hptf⟩ :=
      runThreads_front (threadCleanup_ends s.proc.trapframe _ (h.one hrun) hfront) hr
    cases hr2 : r.2 with
    | returns v =>
      refine h.table hrun hq hproc hthread hptf fun _ _ => ?_
      rw [← hafter, hr2]
      exact ⟨nofun, nofun⟩
    | yields => exact h.table hrun hq hproc hthread hptf fun hy _ => absurd rfl hy
    | exits => exact h.table hrun hq hproc hthread hptf fun _ he => absurd rfl he

end ThreadCalls

theorem runningStep_front (h : Front s) (hrun : s.Running)
    (hs : runningStep kend s a s.path = some s') : Front s' := by
  have hfront := h.fronted hrun
  unfold runningStep at hs
  split at hs
  iterate 4
    · next hp =>
      cases hs
      exact h.goto rfl rfl rfl fun _ _ => by rw [hp]; exact ⟨nofun, nofun⟩
  · -- fault
    next regs hp =>
      rw [hp] at hfront
      have htrap : Front (s.trapped regs) := h.goto rfl rfl rfl fun hy he => ⟨hy, he⟩
      split at hs
      · refine faultCleanup_front htrap hrun (hfront nofun nofun) ?_ hs
        show s.path ≠ .yield ∧ s.path ≠ .exit
        rw [hp]
        exact ⟨nofun, nofun⟩
      · cases hs
        exact h.goto rfl rfl rfl fun _ he => absurd rfl he
  · -- syscall
    next t hp =>
      cases hs
      exact h.goto rfl rfl rfl fun _ _ => by rw [hp]; exact ⟨nofun, nofun⟩
  iterate 2
    · -- serve and execRegs
      next hp =>
        split at hs
        · cases hs
          exact h.goto rfl rfl rfl fun _ _ => by rw [hp]; exact ⟨nofun, nofun⟩
        · cases hs
  · next t num hp =>
    rw [hp] at hfront
    split at hs
    · exact callCreateThread_front h hrun (hfront nofun nofun) hs
    · cases hs
  · next t num hp =>
    rw [hp] at hfront
    split at hs
    · exact callJoinThread_front h hrun (hfront nofun nofun) hs
    · cases hs
  · next t num hp =>
    rw [hp] at hfront
    split at hs
    · exact callStopThread_front h hrun (hfront nofun nofun) (by rw [hp]; exact ⟨nofun, nofun⟩) hs
    · cases hs
  iterate 2
    · -- store and usertrapret
      next hp =>
        cases hs
        exact h.goto rfl rfl rfl fun _ _ => by rw [hp]; exact ⟨nofun, nofun⟩
  iterate 2
    · cases hs
      exact h.goto rfl rfl rfl fun _ he => absurd rfl he
  · split at hs
    · cases hs
      exact h.goto rfl rfl rfl fun _ he => absurd rfl he
    · cases hs
  · -- the ways to leave the CPU
    cases hs
    exact h.switchOut hrun (by decide) _
  · split at hs
    · cases hs
      exact h.switchOut hrun (by decide) _
    · cases hs
  · next ticks hp =>
    cases hs
    have hout := h.switchOut hrun (by decide : ProcState.RUNNABLE ≠ .RUNNING) ticks
    exact ⟨nofun, fun _ => hout.rest nofun, nofun, hout.page, nofun⟩
  iterate 2
    · cases hs
      exact h.switchOut hrun (by decide) _
  · cases hs

theorem step_front (h : Front s) (hs : step kend s a = some s') : Front s' := by
  unfold step at hs
  split at hs
  · next s₁ hother =>
    cases hs
    exact otherStep_front h hother
  · split at hs
    · next hrun => exact runningStep_front h hrun hs
    · cases hs

/-- Every run: no condition on its steps. -/
theorem run_front {ok : State → Act → Prop} (h : RunWith kend ok s) : Front s := by
  refine Reachable.invariant Front (fun s => front_start) ?_ h
  intro s s' hi ⟨a, hs, _⟩
  exact step_front hi hs

end Step

/-! ## §3. exec. -/

/-- After exec, with its entry point and stack pointer. Who waits in the table has been entered by
the old program. -/
structure Replaced (s : State) (epc sp : UInt64) : Prop where
  entries : ∀ i, (s.proc.threads i).state ≠ .THREAD_RUNNABLE ∧
    (s.proc.threads i).state ≠ .THREAD_JOINED
  /-- The process leaves the CPU, and a scheduler picks it again. -/
  contexts : ∀ ticks ticks' c, Sched.pickThread (switchOut s .RUNNABLE ticks).proc = some c →
    (switchIn (switchOut s .RUNNABLE ticks) c ticks').frame.epc = epc ∧
      (switchIn (switchOut s .RUNNABLE ticks) c ticks').frame.sp = sp

def Alone (s : State) : Prop :=
  ∀ i, s.thread ≠ some i → (s.proc.threads i).state = .THREAD_FREE

section Exec

variable {kend : Pa} {s s' : State} {a1 epc sp : UInt64}

theorem step_execRegs (hs : step kend s (.execRegs a1 epc sp) = some s') :
    s.Running ∧ (∃ t, s.path = .call t SYS_exec) ∧ s'.proc = s.proc ∧ s'.thread = s.thread ∧
      s'.ptf = s.ptf ∧ s'.frame.epc = epc ∧ s'.frame.sp = sp := by
  unfold step at hs
  simp only [otherStep] at hs
  split at hs
  · next hrun =>
    unfold runningStep at hs
    split at hs <;> try contradiction
    next t num hact hp =>
      cases hact
      split at hs
      · next hnum =>
        cases hs
        refine ⟨hrun, ⟨t, by rw [hp, hnum]⟩, rfl, rfl, rfl, ?_, ?_⟩
        · show (update s.frames s.tf _ s.tf).epc = epc
          rw [update_self]
        · show (update s.frames s.tf _ s.tf).sp = sp
          rw [update_self]
      · cases hs
  · cases hs

section

variable (h : Front s) (hrun : s.Running) (hfront : Fronted s.proc.threads s.thread)
  (halone : Alone s)

include h hrun hfront halone

theorem Front.alone_main : (s.thread = none ∨ s.thread = some 0) ∧ s.ptf = none := by
  have hthread : s.thread = none ∨ s.thread = some 0 := by
    cases ht : s.thread with
    | none => exact .inl rfl
    | some t =>
      right
      rw [← ht]
      by_contra h0
      exact (hfront t ht).2 (halone 0 h0)
  refine ⟨hthread, ?_⟩
  by_contra hsome
  obtain ⟨i, hi, hcur⟩ := h.ptf hrun hsome
  rcases hthread with ht | ht
  · rw [ht] at hcur
    cases hcur
  · rw [ht] at hcur
    exact hi (Option.some.inj hcur).symm

theorem Front.alone_frames : restored s (saved s) = s.frames := by
  obtain ⟨hthread, hptf⟩ := h.alone_main hrun hfront halone
  have hsaved : saved s = s.frames := by
    unfold saved
    split
    · rfl
    · next t ht =>
      have ht0 : t = 0 := by
        rcases hthread with hnone | h0
        · rw [hnone] at ht
          cases ht
        · rw [h0] at ht
          exact (Option.some.inj ht).symm
      rw [if_neg]
      intro ⟨hfree, hpage⟩
      subst ht0
      exact hpage (h.page hfree)
  unfold restored
  rw [hptf, hsaved]

end

theorem chosenFrame_of_alone (h : Front s) (halone : Alone s)
    (hthread : s.thread = none ∨ s.thread = some 0) {ticks : UInt32} {c : Sched.Choice}
    (hc : Sched.pickThread (switchOut s .RUNNABLE ticks).proc = some c) :
    chosenFrame (switchOut s .RUNNABLE ticks).proc c = s.proc.trapframe := by
  have hsame : SameEntries s.proc.threads (switchOut s .RUNNABLE ticks).proc.threads :=
    sameEntries_parked _ _
  rcases pickThread_cases hc with ⟨rfl, _⟩ | ⟨t, rfl, _, huse⟩
  · rfl
  · have hinUse : (s.proc.threads t).state ≠ .THREAD_FREE := fun hf => huse ((hsame t).1.mpr hf)
    have hcur : s.thread = some t := by
      by_contra hne
      exact hinUse (halone t hne)
    have ht0 : t = 0 := by
      rcases hthread with hnone | h0
      · rw [hnone] at hcur
        cases hcur
      · rw [h0] at hcur
        exact (Option.some.inj hcur).symm
    show ((switchOut s .RUNNABLE ticks).proc.threads t).trapframe = _
    rw [(hsame t).2, ht0]
    exact h.page (ht0 ▸ hinUse)

theorem dispatch_of_alone (h : Front s) (hrun : s.Running)
    (hfront : Fronted s.proc.threads s.thread) (halone : Alone s) {ticks ticks' : UInt32}
    {c : Sched.Choice} (hc : Sched.pickThread (switchOut s .RUNNABLE ticks).proc = some c) :
    (switchIn (switchOut s .RUNNABLE ticks) c ticks').frame = s.frame := by
  have hthread := (h.alone_main hrun hfront halone).1
  have hchosen := chosenFrame_of_alone h halone hthread hc
  have htf : (switchOut s .RUNNABLE ticks).proc.trapframe = s.proc.trapframe := rfl
  have hproc := (switchIn_proc (switchOut s .RUNNABLE ticks) c ticks').1
  have htf' : (switchIn (switchOut s .RUNNABLE ticks) c ticks').tf = s.tf := by
    unfold State.tf
    rw [hproc]
    cases c <;> rfl
  unfold State.frame
  rw [htf']
  unfold switchIn
  dsimp only
  rw [if_neg (not_not.mpr (hchosen.trans htf.symm))]
  show restored s (saved s) s.tf = s.frames s.tf
  rw [h.alone_frames hrun hfront halone]

/-- **exec replaces the process** exactly if the thread that runs is the only
one. -/
theorem exec_replaces_iff {ok : State → Act → Prop} (h : RunWith kend ok s)
    (hs : step kend s (.execRegs a1 epc sp) = some s') : Replaced s' epc sp ↔ Alone s := by
  have hf := run_front h
  have hf' := step_front hf hs
  obtain ⟨hrun, ⟨t, hp⟩, hproc, hthread, _, hepc, hsp⟩ := step_execRegs hs
  have hfront : Fronted s.proc.threads s.thread :=
    hf.fronted hrun (by rw [hp]; exact nofun) (by rw [hp]; exact nofun)
  constructor
  · intro hrep i hi
    have hwaits := hrep.entries i
    rw [hproc] at hwaits
    cases hstate : (s.proc.threads i).state with
    | THREAD_FREE => rfl
    | THREAD_RUNNING => exact absurd (hf.one hrun i hstate) hi
    | THREAD_RUNNABLE => exact absurd hstate hwaits.1
    | THREAD_JOINED => exact absurd hstate hwaits.2
  · intro halone
    have hrun' : s'.Running := by rw [State.Running, hproc]; exact hrun
    have hfront' : Fronted s'.proc.threads s'.thread := by rw [hproc, hthread]; exact hfront
    have halone' : Alone s' := by
      unfold Alone
      rw [hproc, hthread]
      exact halone
    constructor
    · intro i
      by_cases hi : s'.thread = some i
      · rw [(hfront' i hi).1]
        exact ⟨nofun, nofun⟩
      · rw [halone' i hi]
        exact ⟨nofun, nofun⟩
    · intro ticks ticks' c hc
      rw [dispatch_of_alone hf' hrun' hfront' halone' hc]
      exact ⟨hepc, hsp⟩

end Exec

instance (s : State) : Decidable (Alone s) :=
  inferInstanceAs (Decidable (∀ _, _ → _))

/-- A process with one thread is about to commit an exec. -/
def execAlone : List Act :=
  [.dispatch 0, .usertrapret, .compute (callRegs 7 0 0 0), .ecall, .syscall]

theorem exec_replaces_alone :
    ∃ s s', RunWith 0x80000000 AnyStep s ∧
      step 0x80000000 s (.execRegs 0x4f00 0x40 0x4ef0) = some s' ∧ Replaced s' 0x40 0x4ef0 := by
  have hacts : ((runActs 0x80000000 AnyStep newProcess execAlone).any fun s =>
      Alone s ∧ (step 0x80000000 s (.execRegs 0x4f00 0x40 0x4ef0)).isSome) = true := by
    decide +kernel
  obtain ⟨s, hs, htest⟩ := exists_run_runActs start_newProcess hacts
  obtain ⟨halone, hsome⟩ := of_decide_eq_true htest
  obtain ⟨s', hstep⟩ := Option.isSome_iff_exists.mp hsome
  exact ⟨s, s', hs, hstep, (exec_replaces_iff hs hstep).mpr halone⟩

def execBeside : List Act :=
  makesThread ++ [.compute (callRegs 7 0 0 0), .ecall, .syscall]

/-- exec returns to the new program, and a timer interrupt comes. -/
def thenDispatch : List Act :=
  [.serve 0, .store, .usertrapret, .timer, .yield 0, .dispatch 0]

/-- The created thread of the old program is dispatched after exec, at its old
program counter. -/
theorem exec_leaves_thread :
    ∃ s s' s'', RunWith 0x80000000 AnyStep s ∧
      step 0x80000000 s (.execRegs 0x4f00 0x40 0x4ef0) = some s' ∧
      (s'.proc.threads 1).state = .THREAD_RUNNABLE ∧ ¬ Replaced s' 0x40 0x4ef0 ∧
      runActs 0x80000000 AnyStep s' thenDispatch = some s'' ∧ s''.Running ∧ s''.current = 1 ∧
      s''.frame.epc = 0x1000 ∧ s''.frame.sp = 0x8000 := by
  have hacts : ((runActs 0x80000000 AnyStep newProcess execBeside).any fun s =>
      (step 0x80000000 s (.execRegs 0x4f00 0x40 0x4ef0)).any fun s' =>
        decide ((s'.proc.threads 1).state = .THREAD_RUNNABLE) &&
        (runActs 0x80000000 AnyStep s' thenDispatch).any fun s'' =>
          s''.Running ∧ s''.current = 1 ∧ s''.frame.epc = 0x1000 ∧ s''.frame.sp = 0x8000) =
        true := by
    decide +kernel
  obtain ⟨s, hs, htest⟩ := exists_run_runActs start_newProcess hacts
  obtain ⟨s', hstep, htest⟩ := (Option.any_eq_true _ _).mp htest
  obtain ⟨hwaits, htest⟩ := Bool.and_eq_true_iff.mp htest
  obtain ⟨s'', hrun, htest⟩ := (Option.any_eq_true _ _).mp htest
  have hwaits := of_decide_eq_true hwaits
  exact ⟨s, s', s'', hs, hstep, hwaits, fun hrep => (hrep.entries 1).1 hwaits, hrun,
    of_decide_eq_true htest⟩

end Xv6.Regs
