/-
  Xv6.Mem.TableChanges — what a step of the machine does to a thread table.

  `TargetsOk`: the slot that a fork is making and the slot that a wait is freeing
  belong to that call alone.
-/
import Xv6.Mem.Machine
import Xv6.Proc.TableOk

namespace Xv6.Mem

open Lib State Option

/-! ## §1. What a step does to a table. -/

structure SameTable (s s' : State) (q : Slot) : Prop where
  state : (s'.proc q).state = (s.proc q).state
  threads : (s'.proc q).threads = (s.proc q).threads
  count : (s'.proc q).runningThreadsCount = (s.proc q).runningThreadsCount
  thread : s'.thread q = s.thread q

/-- A path that is not in create_thread, thread_cleanup or exit, nor at a
yield. -/
def Path.Plain : Path → Prop
  | .user | .work (.image _) | .work (.child _ _) | .work (.reap _ _) => True
  | .work (.threads _) | .yield | .exit _ => False

inductive TableChange (ld : Layout) (s s' : State) (q : Slot) : Prop
  | same (h : SameTable s s' q) (hpath : s'.path q = s.path q)
  | walks (hrun : (s.proc q).state = .RUNNING) (hfrom : (s.path q).Plain) (h : SameTable s s' q)
    (hpath : (s'.path q).Plain ∨ ∃ status, s'.path q = .exit status)
  | starts (prog : Kernel ThreadsResult) (hrun : (s.proc q).state = .RUNNING)
    (hfrom : s.path q = .user) (h : SameTable s s' q) (hpath : s'.path q = .work (.threads prog))
    (hprog : prog = createThread (s.proc q).threads (s.proc q).trapframe (s.thread q) ∨
      ∃ tid, prog = threadCleanup (s.proc q).threads (s.thread q) tid)
  | goesOn (prog prog' : Kernel ThreadsResult) (hrun : (s.proc q).state = .RUNNING)
    (hfrom : s.path q = .work (.threads prog)) (h : SameTable s s' q)
    (hpath : s'.path q = .work (.threads prog'))
    (hstep : ∃ who, prog.step (kfreeOk ld.kend) (· + 1) who s.heap = some (prog', s'.heap))
  | ends (r : ThreadsResult) (hrun : (s.proc q).state = .RUNNING)
    (hfrom : s.path q = .work (.threads (.ret r)))
    (hproc : s'.proc q = { s.proc q with threads := r.threads }) (hthread : s'.thread q = r.thread)
    (hpath : s'.path q = After.path r.after)
  | joins (tid : UInt32) (r : ThreadsResult) (hrun : (s.proc q).state = .RUNNING)
    (hfrom : s.path q = .user)
    (hr : joinThread (s.proc q).threads (s.thread q) tid = some r)
    (hproc : s'.proc q = { s.proc q with threads := r.threads })
    (hthread : s'.thread q = s.thread q) (hpath : s'.path q = After.path r.after)
  | taken (pid : UInt32) (hstate : (s.proc q).state = .UNUSED)
    (hproc : s'.proc q = (s.proc q).allocated pid) (hpath : s'.path q = s.path q)
  | forked (p : Slot) (r : Option (Pa × Image)) (hw : s.path p = .work (.child q (.ret r)))
    (hdone : s'.path p = .user) (hproc : s'.proc q = forked (s.proc q) p r)
    (hthread : s'.thread q = s.thread q) (hpath : s'.path q = s.path q)
  | exits (hrun : (s.proc q).state = .RUNNING) (hstate : (s'.proc q).state = .ZOMBIE)
    (hpath : s'.path q = .user)
  | reaped (p : Slot) (hw : s.path p = .work (.reap q (.ret ()))) (hdone : s'.path p = .user)
    (hstate : (s'.proc q).state = .UNUSED) (hpath : s'.path q = s.path q)
  | dispatched (c : Sched.Choice) (ticks : UInt32) (hstate : (s.proc q).state = .RUNNABLE)
    (hc : Sched.pickThread (s.proc q) = some c)
    (hproc : s'.proc q = (dispatched (s.proc q) ticks c).1)
    (hthread : s'.thread q = (dispatched (s.proc q) ticks c).2) (hpath : s'.path q = s.path q)
  | leaves (state : ProcState) (ticks : UInt32) (hrun : (s.proc q).state = .RUNNING)
    (hfrom : (s.path q).preemptible = true)
    (hproc : s'.proc q = switchedOut (s.proc q) (s.thread q) state ticks)
    (hstate : state = .RUNNABLE ∨ state = .SLEEPING)
    (hpath : s'.path q = (s.path q).resumed)
  | wakes (hstate : (s.proc q).state = .SLEEPING)
    (hproc : s'.proc q = { s.proc q with state := .RUNNABLE })
    (hthread : s'.thread q = s.thread q) (hpath : s'.path q = s.path q)

/-! ## §2. Calls that work on another slot. -/

inductive Job where
  | child (np : Slot)
  | reap (pp : Slot)
  deriving DecidableEq

def Work.job : Work → Option Job
  | .image _ => none
  | .threads _ => none
  | .child np _ => some (.child np)
  | .reap pp _ => some (.reap pp)

def Path.job : Path → Option Job
  | .work w => w.job
  | .user | .yield | .exit _ => none

/-- The state of the slot that is worked on. -/
def Job.Fits (s : State) : Job → Prop
  | .child np => (s.proc np).state = .USED
  | .reap pp => (s.proc pp).state = .ZOMBIE

structure TargetsOk (s : State) : Prop where
  fits : ∀ p j, (s.path p).job = some j → j.Fits s
  alone : ∀ p p' j, (s.path p).job = some j → (s.path p').job = some j → p = p'
  /-- A slot that does not run yet, or no more, is in no call. -/
  quiet : ∀ p, (s.proc p).state = .UNUSED ∨ (s.proc p).state = .USED ∨
    (s.proc p).state = .ZOMBIE → s.path p = .user

section Steps

variable {ld : Layout} {a : Act} {s s' : State}

theorem sameTable {q : Slot} (hproc : s'.proc q = s.proc q)
    (hthread : s'.thread q = s.thread q) : SameTable s s' q :=
  ⟨by rw [hproc], by rw [hproc], by rw [hproc], hthread⟩

theorem TargetsOk.ne_child (h : TargetsOk s) {p np : Slot} {prog : Kernel (Option (Pa × Image))}
    (hrun : (s.proc p).state = .RUNNING) (hw : s.path p = .work (.child np prog)) : np ≠ p := by
  intro e
  have hused : (s.proc np).state = .USED := h.fits p (.child np) (by rw [hw]; rfl)
  rw [e, hrun] at hused
  cases hused

theorem reparented_same (p q : Slot) : (reparented s p q).state = (s.proc q).state ∧
      (reparented s p q).threads = (s.proc q).threads ∧
      (reparented s p q).runningThreadsCount = (s.proc q).runningThreadsCount := by
  unfold reparented
  split <;> exact ⟨rfl, rfl, rfl⟩

variable {p : Slot}

theorem tableChange_walks {path : Path} (hrun : (s.proc p).state = .RUNNING)
    (hfrom : (s.path p).Plain) (hpath : path.Plain ∨ ∃ status, path = .exit status) (q : Slot) :
    TableChange ld s (s.setPath p path) q := by
  by_cases hq : q = p
  · subst hq
    exact .walks hrun hfrom (sameTable rfl rfl) (by simpa using hpath)
  · exact .same (sameTable rfl rfl) (by simp [hq])

theorem Step.tableChange (hs : Step ld a s s') (htargets : TargetsOk s) (q : Slot) :
    TableChange ld s s' q := by
  cases hs with
  | @fork _ p np parent hp himage hnp =>
    have hne : np ≠ p := fun e => by
      rw [e, hp.1] at hnp
      cases hnp
    by_cases hqp : q = p
    · subst hqp
      refine .walks hp.1 (by rw [hp.2]; trivial) (sameTable ?_ rfl) ?_
      · simp [startFork, Ne.symm hne]
      · exact .inl (by simp [startFork, Path.Plain])
    · by_cases hq : q = np
      · subst hq
        exact .taken s.nextpid hnp (by simp [startFork]) (by simp [startFork, hqp])
      · exact .same (sameTable (by simp [startFork, hq]) rfl) (by simp [startFork, hqp])
  | @forkDone _ p np r hrun hw =>
    have hne : np ≠ p := htargets.ne_child hrun hw
    by_cases hqp : q = p
    · subst hqp
      refine .walks hrun (by rw [hw]; trivial) (sameTable ?_ rfl) (.inl (by simp [Path.Plain]))
      simp [Ne.symm hne]
    · by_cases hq : q = np
      · subst hq
        exact .forked p r hw (by simp) (by simp) rfl (by simp [hqp])
      · exact .same (sameTable (by simp [hq]) rfl) (by simp [hqp])
  | @createThread _ p hp =>
    by_cases hq : q = p
    · subst hq
      exact .starts _ hp.1 hp.2 (sameTable rfl rfl) (by simp) (.inl rfl)
    · exact .same (sameTable rfl rfl) (by simp [hq])
  | @threadCleanup _ p tid hp =>
    by_cases hq : q = p
    · subst hq
      exact .starts _ hp.1 hp.2 (sameTable rfl rfl) (by simp) (.inr ⟨tid, rfl⟩)
    · exact .same (sameTable rfl rfl) (by simp [hq])
  | @threadsDone _ p r hrun hw =>
    by_cases hq : q = p
    · subst hq
      exact .ends r hrun hw (by simp) (by simp) (by simp)
    · exact .same (sameTable (by simp [hq]) (by simp [hq])) (by simp [hq])
  | @joinThread _ p tid r hp hr =>
    by_cases hq : q = p
    · subst hq
      exact .joins tid r hp.1 hp.2 hr (by simp) rfl (by simp)
    · exact .same (sameTable (by simp [hq]) rfl) (by simp [hq])
  | growproc hp himage | exec hp himage htf | wait hp hchild hzombie hfree =>
    refine tableChange_walks hp.1 (by rw [hp.2]; trivial) (.inl ?_) q
    exact trivial
  | @imageDone _ p r hrun hw =>
    by_cases hq : q = p
    · subst hq
      refine .walks hrun (by rw [hw]; trivial) ?_ (.inl (by simp [Path.Plain]))
      cases r <;> exact ⟨by simp [withImage], by simp [withImage], by simp [withImage], rfl⟩
    · exact .same (sameTable (by simp [hq]) rfl) (by simp [hq])
  | callExit hp =>
    exact tableChange_walks hp.1 (by rw [hp.2]; trivial) (.inr ⟨_, rfl⟩) q
  | @exit _ p status ticks hrun hpath hinit =>
    by_cases hq : q = p
    · subst hq
      exact .exits hrun (by simp [exited, switchedOut]) (by simp [exited])
    · obtain ⟨h1, h2, h3⟩ := reparented_same (s := s) p q
      exact .same ⟨by simp [exited, hq, h1], by simp [exited, hq, h2], by simp [exited, hq, h3],
        by simp [exited, hq]⟩ (by simp [exited, hq])
  | @waitDone _ p pp hrun hw =>
    have hzombie : (s.proc pp).state = .ZOMBIE := htargets.fits p (.reap pp) (by rw [hw]; rfl)
    have hne : pp ≠ p := fun e => by
      rw [e, hrun] at hzombie
      cases hzombie
    by_cases hqp : q = p
    · subst hqp
      refine .walks hrun (by rw [hw]; trivial) (sameTable ?_ rfl) (.inl (by simp [reapDone, Path.Plain]))
      simp [reapDone, Ne.symm hne]
    · by_cases hq : q = pp
      · subst hq
        exact .reaped p hw (by simp [reapDone]) (by simp [reapDone, Proc.freed])
          (by simp [reapDone, hqp])
      · exact .same (sameTable (by simp [reapDone, hq]) rfl) (by simp [reapDone, hqp])
  | @effect _ p w w' heap hrun hw hstep =>
    by_cases hq : q = p
    · subst hq
      cases w with
      | threads prog =>
        obtain ⟨r, hr, he⟩ := map_eq_some_iff.mp hstep
        cases he
        exact .goesOn prog r.1 hrun hw (sameTable rfl rfl) (by simp) ⟨_, hr⟩
      | image prog | child np prog | reap pp prog =>
        obtain ⟨r, hr, he⟩ := map_eq_some_iff.mp hstep
        cases he
        exact .walks hrun (by rw [hw]; trivial) (sameTable rfl rfl)
          (.inl (by simp [Path.Plain]))
    · exact .same (sameTable rfl rfl) (by simp [hq])
  | @dispatch _ p c ticks hp hc =>
    by_cases hq : q = p
    · subst hq
      exact .dispatched c ticks hp hc (by simp) (by simp) rfl
    · exact .same (sameTable (by simp [hq]) (by simp [hq])) rfl
  | @leave _ p state ticks hrun hpath hstate =>
    by_cases hq : q = p
    · subst hq
      exact .leaves state ticks hrun hpath (by simp)
        (hstate.elim Or.inl fun h => .inr h.1) (by simp)
    · exact .same (sameTable (by simp [hq]) (by simp [hq])) (by simp [hq])
  | @wakeup _ p hp =>
    by_cases hq : q = p
    · subst hq
      exact .wakes hp (by simp) rfl rfl
    · exact .same (sameTable (by simp [hq]) rfl) rfl

theorem Work.step_job {who : Nat} {heap heap' : Heap Pa UInt32} {w w' : Work}
    (h : w.step ld who heap = some (w', heap')) : w'.job = w.job := by
  cases w <;> obtain ⟨r, _, he⟩ := map_eq_some_iff.mp h <;> cases he <;> rfl

theorem Step.path_job (hs : Step ld a s s') {j : Job} (h : (s'.path p).job = some j) :
    (s.path p).job = some j ∨ (∃ np, j = .child np ∧ a = .fork p np ∧ (s.proc np).state = .UNUSED ∧
        (s'.proc np).state = .USED) ∨
      ∃ pp, j = .reap pp ∧ a = .wait p pp ∧ (s.proc pp).state = .ZOMBIE ∧
        (s'.proc pp).state = .ZOMBIE ∧ ¬ s.Busy pp := by
  cases hs with
  | @fork _ p' np' parent hp himage hnp =>
    simp only [startFork, setPath_path, setProc_path] at h
    split at h
    · next hq =>
      cases h
      rw [hq]
      exact .inr (.inl ⟨np', rfl, rfl, hnp, by simp [startFork, Proc.allocated]⟩)
    · exact .inl h
  | @wait _ p' pp hp hchild hzombie hfree =>
    simp only [setPath_path] at h
    split at h
    · next hq =>
      cases h
      rw [hq]
      exact .inr (.inr ⟨pp, rfl, rfl, hzombie, hzombie, hfree⟩)
    · exact .inl h
  | @effect _ p' w w' heap hrun hw hstep =>
    simp only [setHeap_path, setPath_path] at h
    split at h
    · next hq =>
      rw [hq, hw]
      exact .inl ((Work.step_job hstep).symm.trans h)
    · exact .inl h
  | @threadsDone _ p' r hrun hw =>
    simp only [setPath_path, setThread_path, setProc_path] at h
    split at h
    · cases hr : r.after <;> rw [hr] at h <;> cases h
    · exact .inl h
  | @joinThread _ p' tid r hp hr =>
    simp only [setPath_path, setProc_path] at h
    split at h
    · cases hr : r.after <;> rw [hr] at h <;> cases h
    · exact .inl h
  | @leave _ p' state ticks hrun hpath hstate =>
    simp only [setPath_path, setThread_path, setProc_path] at h
    split at h
    · next hq =>
      rw [hq]
      cases hpp : s.path p' <;> rw [hpp] at h
      · cases h
      · exact .inl h
      · cases h
      · cases h
    · exact .inl h
  | dispatch hp hc | wakeup hp => exact .inl h
  | _ =>
    simp only [exited, reapDone, growWork, execWork, setPath_path, setThread_path,
      setProc_path] at h
    split at h
    · cases h
    · exact .inl h

theorem Step.threads_cases (hs : Step ld a s s') {prog : Kernel ThreadsResult}
    (h : s'.path p = .work (.threads prog)) :
    (s.path p = .work (.threads prog)) ∨
    (∃ prog₀ who, s.path p = .work (.threads prog₀) ∧
      prog₀.step (kfreeOk ld.kend) (· + 1) who s.heap = some (prog, s'.heap)) ∨
    (s.InUser p ∧ prog = Xv6.createThread (s.proc p).threads (s.proc p).trapframe (s.thread p)) ∨
    ∃ tid, s.InUser p ∧ a = .threadCleanup p tid ∧
      prog = Xv6.threadCleanup (s.proc p).threads (s.thread p) tid := by
  cases hs with
  | @createThread _ p' hp =>
    simp only [setPath_path] at h
    split at h
    · next hq =>
      cases h
      rw [hq]
      exact .inr (.inr (.inl ⟨hp, rfl⟩))
    · exact .inl h
  | @threadCleanup _ p' tid hp =>
    simp only [setPath_path] at h
    split at h
    · next hq =>
      cases h
      rw [hq]
      exact .inr (.inr (.inr ⟨tid, hp, rfl, rfl⟩))
    · exact .inl h
  | @effect _ p' w w' heap hrun hw hstep =>
    simp only [setHeap_path, setPath_path] at h
    split at h
    · next hq =>
      cases h
      rw [hq, hw]
      cases w with
      | threads prog₀ =>
        obtain ⟨r, hr, he⟩ := map_eq_some_iff.mp hstep
        cases he
        exact .inr (.inl ⟨prog₀, _, rfl, hr⟩)
      | image prog₀ | child np prog₀ | reap pp prog₀ =>
        obtain ⟨r, _, he⟩ := map_eq_some_iff.mp hstep
        cases he
    · exact .inl h
  | @threadsDone _ p' r hrun hw =>
    simp only [setPath_path, setThread_path, setProc_path] at h
    split at h
    · cases hr : r.after <;> rw [hr] at h <;> cases h
    · exact .inl h
  | @joinThread _ p' tid r hp hr =>
    simp only [setPath_path, setProc_path] at h
    split at h
    · cases hr : r.after <;> rw [hr] at h <;> cases h
    · exact .inl h
  | @leave _ p' state ticks hrun hpath hstate =>
    simp only [setPath_path, setThread_path, setProc_path] at h
    split at h
    · -- both hold the lock to their end
      cases hpp : s.path p' <;> rw [hpp] at h hpath <;> cases h
      cases hpath
    · exact .inl h
  | dispatch hp hc | wakeup hp => exact .inl h
  | _ =>
    simp only [startFork, exited, reapDone, growWork, execWork, setPath_path,
      setThread_path, setProc_path] at h
    split at h
    · cases h
    · exact .inl h

theorem TableChange.of_idle {q : Slot} (h : TableChange ld s s' q)
    (hq : (s.proc q).state = .USED ∨ (s.proc q).state = .ZOMBIE) :
    (s'.proc q).state = (s.proc q).state ∨
      ∃ p j, (s.path p).job = some j ∧ (j = .child q ∨ j = .reap q) ∧ s'.path p = .user := by
  cases h with
  | same h _ => exact .inl h.state
  | forked p r hw hdone => exact .inr ⟨p, .child q, by rw [hw]; rfl, .inl rfl, hdone⟩
  | reaped p hw hdone => exact .inr ⟨p, .reap q, by rw [hw]; rfl, .inr rfl, hdone⟩
  | _ => rcases hq with hq | hq <;> simp_all

theorem Step.fits (hs : Step ld a s s') (ht : TargetsOk s) {j : Job}
    (hold : (s.path p).job = some j) (hnew : (s'.path p).job = some j) : j.Fits s' := by
  -- a call that works on the slot and is done was this one
  have hdone : ∀ p', (s.path p').job = some j → s'.path p' ≠ .user := by
    intro p' hp' huser
    rw [ht.alone p p' j hold hp', huser] at hnew
    cases hnew
  have hfits := ht.fits p j hold
  cases j with
  | child np =>
    have hused : (s.proc np).state = .USED := hfits
    rcases (hs.tableChange ht np).of_idle (.inl hused) with h | ⟨p', j, hj, rfl | rfl, huser⟩
    · exact h.trans hused
    · exact absurd huser (hdone p' hj)
    · have hzombie : (s.proc np).state = .ZOMBIE := ht.fits p' _ hj
      rw [hused] at hzombie
      cases hzombie
  | reap pp =>
    have hzombie : (s.proc pp).state = .ZOMBIE := hfits
    rcases (hs.tableChange ht pp).of_idle (.inr hzombie) with h | ⟨p', j, hj, rfl | rfl, huser⟩
    · exact h.trans hzombie
    · have hused : (s.proc pp).state = .USED := ht.fits p' _ hj
      rw [hzombie] at hused
      cases hused
    · exact absurd huser (hdone p' hj)

theorem busy_of_job {p pp : Slot} (h : (s.path p).job = some (.reap pp)) : s.Busy pp := by
  unfold Path.job at h
  split at h
  · next w hw =>
    cases w <;> cases h
    exact ⟨p, _, hw, rfl⟩
  all_goals cases h

theorem TargetsOk.step (ht : TargetsOk s) (hs : Step ld a s s') : TargetsOk s' where
  fits p j hj := by
    rcases hs.path_job hj with hold | ⟨np, rfl, _, _, hused⟩ | ⟨pp, rfl, _, _, hzombie, _⟩
    · exact hs.fits ht hold hj
    · exact hused
    · exact hzombie
  alone p p' j hp hp' := by
    rcases hs.path_job hp with hold | ⟨np, rfl, ha, hun, _⟩ | ⟨pp, rfl, ha, _, _, hfree⟩
    · rcases hs.path_job hp' with hold' | ⟨np, rfl, _, hun, _⟩ | ⟨pp, rfl, _, _, _, hfree⟩
      · exact ht.alone p p' j hold hold'
      · have hused : (s.proc np).state = .USED := ht.fits p _ hold
        rw [hun] at hused
        cases hused
      · exact absurd (busy_of_job hold) hfree
    · rcases hs.path_job hp' with hold' | ⟨np', hj, ha', _⟩ | ⟨pp, hj, _⟩
      · have hused : (s.proc np).state = .USED := ht.fits p' _ hold'
        rw [hun] at hused
        cases hused
      · rw [ha] at ha'
        cases ha'
        rfl
      · cases hj
    · rcases hs.path_job hp' with hold' | ⟨np', hj, _⟩ | ⟨pp', hj, ha', _⟩
      · exact absurd (busy_of_job hold') hfree
      · cases hj
      · rw [ha] at ha'
        cases ha'
        rfl
  quiet p hp := by
    have hidle : ∀ {st : ProcState}, (s'.proc p).state = st → st ≠ .UNUSED → st ≠ .USED →
        st ≠ .ZOMBIE → s'.path p = .user := by
      intro st hst h1 h2 h3
      rw [hst] at hp
      rcases hp with h | h | h
      · exact absurd h h1
      · exact absurd h h2
      · exact absurd h h3
    have hrunning : (s'.proc p).state = .RUNNING → s'.path p = .user := fun h =>
      hidle h (by decide) (by decide) (by decide)
    cases hs.tableChange ht p with
    | same h hpath =>
      rw [hpath]
      rw [h.state] at hp
      exact ht.quiet p hp
    | walks hrun _ h _ | starts _ hrun _ h _ _ | goesOn _ _ hrun _ h _ _ =>
      exact hrunning (h.state.trans hrun)
    | ends r hrun _ hproc _ _ | joins tid r hrun _ _ hproc _ _ =>
      exact hrunning (by rw [hproc]; exact hrun)
    | taken pid hstate _ hpath =>
      rw [hpath]
      exact ht.quiet p (.inl hstate)
    | forked p' r hw _ _ _ hpath =>
      rw [hpath]
      exact ht.quiet p (.inr (.inl (ht.fits p' (.child p) (by rw [hw]; rfl))))
    | exits _ _ hpath => exact hpath
    | reaped p' hw _ _ hpath =>
      rw [hpath]
      exact ht.quiet p (.inr (.inr (ht.fits p' (.reap p) (by rw [hw]; rfl))))
    | dispatched c ticks _ _ hproc _ _ =>
      refine hrunning ?_
      rw [hproc]
      cases c <;> rfl
    | leaves state ticks _ _ hproc hstate _ =>
      have hst : (s'.proc p).state = state := by rw [hproc]; rfl
      rcases hstate with rfl | rfl
      · exact hidle hst (by decide) (by decide) (by decide)
      · exact hidle hst (by decide) (by decide) (by decide)
    | wakes _ hproc _ _ =>
      have hst : (s'.proc p).state = .RUNNABLE := by rw [hproc]
      exact hidle hst (by decide) (by decide) (by decide)

end Steps

end Xv6.Mem
