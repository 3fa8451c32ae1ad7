/-
  Xv6.Mem.RunningThread — which thread of a process runs.

  The only THREAD_RUNNING entry of a process that has not started to exit is the
  one in `c->thread`, and a thread runs only with the main thread in the table.
-/
import Xv6.Mem.TableChanges

namespace Xv6.Mem

open Lib

/-! ## §1. The invariant. -/

/-- A process that has not started to exit. -/
def NotExiting (s : State) (p : Slot) : Prop :=
  (s.proc p).state ≠ .UNUSED ∧ (s.proc p).state ≠ .ZOMBIE ∧ ∀ status, s.path p ≠ .exit status

/-- What create_thread and thread_cleanup leave behind, unless they end in
`exit`. -/
def FrontLeft (r : ThreadsResult) : Prop :=
  r.after ≠ .exits →
    OneRunning r.threads r.thread ∧ (r.after ≠ .yields → Fronted r.threads r.thread)

structure FrontOk (s : State) (p : Slot) : Prop where
  one : OneRunning (s.proc p).threads (s.thread p)
  rest : (s.proc p).state ≠ .RUNNING → ∀ i, ((s.proc p).threads i).state ≠ .THREAD_RUNNING
  count : (s.proc p).runningThreadsCount = if (s.proc p).state = .RUNNING then 1 else 0
  front : (s.proc p).state = .RUNNING → s.path p ≠ .yield →
    Fronted (s.proc p).threads (s.thread p)

structure FrontInv (s : State) : Prop where
  targets : TargetsOk s
  live : ∀ p, NotExiting s p → FrontOk s p
  work : ∀ p prog, s.path p = .work (.threads prog) → prog.ends FrontLeft

section Invariant

variable {ld : Layout} {a : Act} {s s' : State} {q : Slot}

theorem Path.Plain.ne_yield {path : Path} (h : path.Plain) : path ≠ .yield := by
  intro e
  rw [e] at h
  exact h

theorem Path.Plain.ne_exit {path : Path} (h : path.Plain) (status : Int) : path ≠ .exit status := by
  intro e
  rw [e] at h
  exact h

theorem notExiting_of_running (hrun : (s.proc q).state = .RUNNING)
    (hpath : ∀ status, s.path q ≠ .exit status) : NotExiting s q :=
  ⟨by rw [hrun]; decide, by rw [hrun]; decide, hpath⟩

variable {thread : Option (Fin MAX_THREAD)} {r : ThreadsResult} {prog : Kernel ThreadsResult}

theorem Fronts.left {trapframe : Option Pa} {ts : ThreadTable} (h : Fronts trapframe ts thread r) :
    FrontLeft r := by
  intro hexits
  exact ⟨h.one, fun hyields => h.fronted hyields hexits⟩

theorem FrontOk.starts (h : FrontOk s q) (hp : s.InUser q)
    (hprog : prog = createThread (s.proc q).threads (s.proc q).trapframe (s.thread q) ∨
      ∃ tid, prog = threadCleanup (s.proc q).threads (s.thread q) tid) : prog.ends FrontLeft := by
  have hfront := h.front hp.1 (by rw [hp.2]; exact nofun)
  rcases hprog with rfl | ⟨tid, rfl⟩
  · exact Prog.ends_mono (createThread_ends _ h.one hfront) fun _ => Fronts.left
  · exact Prog.ends_mono (threadCleanup_ends none tid h.one hfront) fun _ => Fronts.left

theorem FrontOk.same (h : FrontOk s q) (hsame : SameTable s s' q)
    (hyield : s'.path q ≠ .yield → s.path q ≠ .yield) : FrontOk s' q where
  one := by
    rw [hsame.threads, hsame.thread]
    exact h.one
  rest := by
    rw [hsame.state, hsame.threads]
    exact h.rest
  count := by
    rw [hsame.count, hsame.state]
    exact h.count
  front hrun hpath := by
    rw [hsame.state] at hrun
    rw [hsame.threads, hsame.thread]
    exact h.front hrun (hyield hpath)

theorem frontOk_of_running (hstate : (s'.proc q).state = .RUNNING)
    (hcount : (s'.proc q).runningThreadsCount = 1)
    (hone : OneRunning (s'.proc q).threads (s'.thread q))
    (hfront : s'.path q ≠ .yield → Fronted (s'.proc q).threads (s'.thread q)) :
    FrontOk s' q where
  one := hone
  rest h := absurd hstate h
  count := by rw [hcount, if_pos hstate]
  front _ hpath := hfront hpath

theorem frontOk_of_resting (hstate : (s'.proc q).state ≠ .RUNNING)
    (hcount : (s'.proc q).runningThreadsCount = 0)
    (hrest : ∀ i, ((s'.proc q).threads i).state ≠ .THREAD_RUNNING) : FrontOk s' q where
  one i hi := absurd hi (hrest i)
  rest _ := hrest
  count := by rw [hcount, if_neg hstate]
  front h := absurd h hstate

theorem FrontOk.count_running (h : FrontOk s q) (hrun : (s.proc q).state = .RUNNING) :
    (s.proc q).runningThreadsCount = 1 := by
  rw [h.count, if_pos hrun]

theorem FrontOk.count_resting (h : FrontOk s q) (hrest : (s.proc q).state ≠ .RUNNING) :
    (s.proc q).runningThreadsCount = 0 := by
  rw [h.count, if_neg hrest]

theorem FrontOk.ends (h : FrontOk s q) (hrun : (s.proc q).state = .RUNNING)
    (hleft : FrontLeft r) (hproc : s'.proc q = { s.proc q with threads := r.threads })
    (hthread : s'.thread q = r.thread) (hpath : s'.path q = After.path r.after)
    (hq : NotExiting s' q) : FrontOk s' q := by
  have hexits : r.after ≠ .exits := by
    intro he
    rw [he] at hpath
    exact hq.2.2 0 hpath
  obtain ⟨hone, hfront⟩ := hleft hexits
  apply frontOk_of_running
  · rw [hproc]
    exact hrun
  · rw [hproc]
    exact h.count_running hrun
  · rw [hproc, hthread]
    exact hone
  · intro hy
    rw [hproc, hthread]
    refine hfront fun he => hy ?_
    rw [hpath, he]
    rfl

theorem joinThread_left {ts : ThreadTable} {tid : UInt32} (hone : OneRunning ts thread)
    (hfront : Fronted ts thread)
    (hr : joinThread ts thread tid = some r) : r.thread = thread ∧ FrontLeft r := by
  obtain ⟨hone', hfront'⟩ := joinThread_front hone hfront hr
  have hthread : r.thread = thread := by
    unfold joinThread at hr
    split at hr
    · obtain ⟨t, _, rfl⟩ := Option.map_eq_some_iff.mp hr
      rfl
    · cases hr
      rfl
  refine ⟨hthread, fun _ => ?_⟩
  rw [hthread]
  exact ⟨hone', hfront'⟩

/-- **One step keeps the running threads of all processes that have not
started to exit.** -/
theorem frontOk_step (hinv : FrontInv s) (hs : Step ld a s s') (hq : NotExiting s' q) :
    FrontOk s' q := by
  have ht := hinv.targets
  cases hs.tableChange ht q with
  | same h hpath =>
    have hok := hinv.live q ⟨by rw [← h.state]; exact hq.1, by rw [← h.state]; exact hq.2.1,
      by rw [← hpath]; exact hq.2.2⟩
    exact hok.same h (by rw [hpath]; exact id)
  | walks hrun hfrom h hpath =>
    have hok := hinv.live q (notExiting_of_running hrun hfrom.ne_exit)
    exact hok.same h fun _ => hfrom.ne_yield
  | starts prog hrun hfrom h hpath hprog | goesOn prog prog' hrun hfrom h hpath hstep =>
    have hok := hinv.live q (notExiting_of_running hrun (by rw [hfrom]; simp))
    exact hok.same h fun _ => by rw [hfrom]; simp
  | ends r hrun hfrom hproc hthread hpath =>
    have hok := hinv.live q (notExiting_of_running hrun (by rw [hfrom]; simp))
    exact hok.ends hrun (hinv.work q _ hfrom) hproc hthread hpath hq
  | joins tid r hrun hfrom hr hproc hthread hpath =>
    have hok := hinv.live q (notExiting_of_running hrun (by rw [hfrom]; simp))
    obtain ⟨hthread', hleft⟩ := joinThread_left hok.one (hok.front hrun (by rw [hfrom]; simp)) hr
    exact hok.ends hrun hleft hproc (hthread.trans hthread'.symm) hpath hq
  | taken pid hstate hproc hpath =>
    apply frontOk_of_resting
    · rw [hproc]
      simp [Proc.allocated]
    · rw [hproc]
      rfl
    · rw [hproc]
      exact fun _ => by simp [Proc.allocated, Thread.zero]
  | forked p r hw hdone hproc hthread hpath =>
    have hused : (s.proc q).state = .USED := ht.fits p (.child q) (by rw [hw]; rfl)
    have huser := ht.quiet q (.inr (.inl hused))
    have hok := hinv.live q ⟨by rw [hused]; decide, by rw [hused]; decide,
      by rw [huser]; simp⟩
    rcases r with _ | ⟨tf, image⟩
    · refine absurd ?_ hq.1
      rw [hproc]
      rfl
    · have hrest : (s.proc q).state ≠ .RUNNING := by rw [hused]; decide
      apply frontOk_of_resting
      · rw [hproc]
        simp [forked]
      · rw [hproc]
        exact hok.count_resting hrest
      · rw [hproc]
        exact hok.rest hrest
  | exits hrun hstate hpath => exact absurd hstate hq.2.1
  | reaped p hw hdone hstate hpath => exact absurd hstate hq.1
  | dispatched c ticks hstate hc hproc hthread hpath =>
    have hok := hinv.live q ⟨by rw [hstate]; decide, by rw [hstate]; decide,
      by rw [← hpath]; exact hq.2.2⟩
    have hrest : (s.proc q).state ≠ .RUNNING := by rw [hstate]; decide
    obtain ⟨hone, hfront⟩ := dispatched_front (hok.rest hrest) hc ticks
    have hcount := hok.count_resting hrest
    apply frontOk_of_running
    · rw [hproc]
      cases c <;> rfl
    · rw [hproc]
      cases c <;> simp [Xv6.dispatched, hcount]
    · rw [hproc, hthread]
      exact hone
    · rw [hproc, hthread]
      exact fun _ => hfront
  | leaves state ticks hrun hfrom hproc hstate hpath =>
    have hne : ∀ status, s.path q ≠ .exit status := by
      intro status he
      rw [he] at hpath
      exact hq.2.2 status hpath
    have hok := hinv.live q (notExiting_of_running hrun hne)
    have hcount := hok.count_running hrun
    apply frontOk_of_resting
    · rw [hproc]
      rcases hstate with rfl | rfl <;> simp [switchedOut]
    · rw [hproc]
      show (s.proc q).runningThreadsCount - 1 = 0
      omega
    · rw [hproc]
      exact parked_not_running hok.one
  | wakes hstate hproc hthread hpath =>
    have hok := hinv.live q ⟨by rw [hstate]; decide, by rw [hstate]; decide,
      by rw [← hpath]; exact hq.2.2⟩
    have hrest : (s.proc q).state ≠ .RUNNING := by rw [hstate]; decide
    apply frontOk_of_resting
    · rw [hproc]
      simp
    · rw [hproc]
      exact hok.count_resting hrest
    · rw [hproc]
      exact hok.rest hrest

theorem frontLeft_step (hinv : FrontInv s) (hs : Step ld a s s')
    (hw : s'.path q = .work (.threads prog)) : prog.ends FrontLeft := by
  -- a call that starts finds the process running in user mode
  have hstarts : s.InUser q → FrontOk s q := fun hp =>
    hinv.live q (notExiting_of_running hp.1 (by rw [hp.2]; exact nofun))
  rcases hs.threads_cases hw with h | ⟨prog₀, who, h, hstep⟩ | ⟨hp, hprog⟩ | ⟨tid, hp, _, hprog⟩
  · exact hinv.work q prog h
  · exact Prog.step_ends (hinv.work q prog₀ h) hstep
  · exact (hstarts hp).starts hp (.inl hprog)
  · exact (hstarts hp).starts hp (.inr ⟨tid, hprog⟩)

end Invariant

/-! ## §2. Runs. -/

theorem boot_front {ld : Layout} {n : Nat} {s : State} (h : boot ld n = some s) : FrontInv s := by
  obtain ⟨r, _, rfl⟩ := Option.map_eq_some_iff.mp h
  refine ⟨⟨?_, ?_, fun _ _ => rfl⟩, fun p hp => ?_, ?_⟩
  · intro p j hj
    cases hj
  · intro p p' j hj
    cases hj
  · by_cases h0 : p = 0
    · subst h0
      exact frontOk_of_resting nofun rfl fun _ => nofun
    · refine absurd ?_ hp.1
      show (if p = 0 then firstProc r.1 else Proc.init).state = .UNUSED
      rw [if_neg h0]
      rfl
  · intro p prog hw
    cases hw

/-- **In every run**, whatever is called. -/
theorem run_front {ld : Layout} {ok : State → Act → Prop} {s : State} (h : RunWith ld ok s) :
    FrontInv s := by
  refine Reachable.invariant FrontInv ?_ ?_ h
  · intro s ⟨n, hboot⟩
    exact boot_front hboot
  · intro s s' hinv ⟨a, hs, _⟩
    exact ⟨hinv.targets.step hs, fun p hp => frontOk_step hinv hs hp,
      fun p prog hw => frontLeft_step hinv hs hw⟩

/-! ## §3. What a step does to the table alone. -/

/-- The ways in which the table of a process that has not started to exit comes
from the table before. -/
inductive TableStep (s : State) (q : Slot) (ts' : ThreadTable) : Prop
  | same (hlive : NotExiting s q) (h : ts' = (s.proc q).threads)
  /-- The slot was taken by a fork. -/
  | zero (h : ts' = fun _ => Thread.zero)
  | ends (hlive : NotExiting s q) (r : ThreadsResult)
    (hfrom : s.path q = .work (.threads (.ret r))) (hafter : r.after ≠ .exits)
    (h : ts' = r.threads)
  | joins (hlive : NotExiting s q) (t : Fin MAX_THREAD) (tid : UInt32)
    (ht : ((s.proc q).threads t).state ≠ .THREAD_FREE)
    (htid : ∃ i, ((s.proc q).threads i).id = tid ∧
      ((s.proc q).threads i).state ≠ .THREAD_FREE)
    (h : ts' = Function.update (s.proc q).threads t
      { (s.proc q).threads t with join := tid, state := .THREAD_JOINED })
  | sets (hlive : NotExiting s q) (t : Fin MAX_THREAD) (st : ThreadState)
    (ht : ((s.proc q).threads t).state ≠ .THREAD_FREE) (hfree : st ≠ .THREAD_FREE)
    (hjoined : st ≠ .THREAD_JOINED)
    (h : ts' = Function.update (s.proc q).threads t
      { (s.proc q).threads t with state := st })

section TableStep

variable {ld : Layout} {a : Act} {s s' : State} {q : Slot}

theorem Step.tableStep (hs : Step ld a s s') (hinv : FrontInv s) (hq : NotExiting s' q) :
    TableStep s q (s'.proc q).threads := by
  cases hs.tableChange hinv.targets q with
  | same h hpath =>
    refine .same ⟨?_, ?_, ?_⟩ h.threads
    · rw [← h.state]
      exact hq.1
    · rw [← h.state]
      exact hq.2.1
    · rw [← hpath]
      exact hq.2.2
  | walks hrun hfrom h hpath =>
    exact .same (notExiting_of_running hrun hfrom.ne_exit) h.threads
  | starts prog hrun hfrom h hpath hprog | goesOn prog prog' hrun hfrom h hpath hstep =>
    exact .same (notExiting_of_running hrun (by rw [hfrom]; exact nofun)) h.threads
  | ends r hrun hfrom hproc hthread hpath =>
    refine .ends (notExiting_of_running hrun (by rw [hfrom]; exact nofun)) r hfrom ?_
      (by rw [hproc])
    intro he
    rw [he] at hpath
    exact hq.2.2 0 hpath
  | joins tid r hrun hfrom hr hproc hthread hpath =>
    have hlive := notExiting_of_running hrun (by rw [hfrom]; exact nofun)
    have hfront := (hinv.live q hlive).front hrun (by rw [hfrom]; exact nofun)
    unfold Xv6.joinThread at hr
    split at hr
    · next htid =>
      obtain ⟨t, ht, rfl⟩ := Option.map_eq_some_iff.mp hr
      refine .joins hlive t tid ?_ htid (by rw [hproc])
      rw [(hfront t ht).1]
      decide
    · cases hr
      exact .same hlive (by rw [hproc])
  | taken pid hstate hproc hpath => exact .zero (by rw [hproc]; rfl)
  | forked p r hw hdone hproc hthread hpath =>
    have hused : (s.proc q).state = .USED := hinv.targets.fits p (.child q) (by rw [hw]; rfl)
    have huser := hinv.targets.quiet q (.inr (.inl hused))
    match r with
    | none =>
      refine absurd ?_ hq.1
      rw [hproc]
      rfl
    | some (tf, image) =>
      exact .same ⟨by rw [hused]; decide, by rw [hused]; decide, by rw [huser]; exact nofun⟩
        (by rw [hproc]; rfl)
  | exits hrun hstate hpath => exact absurd hstate hq.2.1
  | reaped p hw hdone hstate hpath => exact absurd hstate hq.1
  | dispatched c ticks hstate hc hproc hthread hpath =>
    have hlive : NotExiting s q := ⟨by rw [hstate]; decide, by rw [hstate]; decide,
      by rw [← hpath]; exact hq.2.2⟩
    cases c with
    | mainOnly => exact .same hlive (by rw [hproc]; rfl)
    | thread t =>
      exact .sets hlive t .THREAD_RUNNING (by rw [pickThread_state hc]; decide) (by decide)
        (by decide) (by rw [hproc]; rfl)
  | leaves state ticks hrun hfrom hproc hstate hpath =>
    have hlive : NotExiting s q := by
      refine notExiting_of_running hrun fun status he => ?_
      rw [he] at hpath
      exact hq.2.2 status hpath
    have hthreads : (s'.proc q).threads = parked (s.proc q).threads (s.thread q) := by
      rw [hproc]
      rfl
    rw [hthreads]
    unfold parked
    split
    · exact .same hlive rfl
    · next t _ =>
      split
      · next hrun' =>
        exact .sets hlive t .THREAD_RUNNABLE (by rw [hrun']; decide) (by decide) (by decide)
          rfl
      · exact .same hlive rfl
  | wakes hstate hproc hthread hpath =>
    exact .same ⟨by rw [hstate]; decide, by rw [hstate]; decide, by rw [← hpath]; exact hq.2.2⟩
      (by rw [hproc])

end TableStep

end Xv6.Mem
