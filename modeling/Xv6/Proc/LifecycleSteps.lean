/-
  Xv6.Proc.LifecycleSteps — what a step of the lifecycle can do.
-/
import Xv6.Proc.Lifecycle

namespace Xv6.Lifecycle

open Lib State Function

/-! ## §1. The control flow of one path. -/

/-- The changes of the path of a running process `p` in a step from `s` to `s'`. -/
inductive Flow (s s' : State) (p : Slot) : Path → Path → Prop
  | move {a b : Path} (h : Move s p a b) : Flow s s' p a b
  | forkAlloc {np : Slot} (hu : s.state np = .UNUSED) (hs : s'.state np = .USED)
    (hb : s'.born np = s.nextBorn) (hl : s'.lock np = some p) (hfk : s'.forker np = s.born p) :
    Flow s s' p (.forkScan np) (.forkCopy np)
  | forkFail {np : Slot} : Flow s s' p (.forkCopy np) .user
  | forkCopied {np : Slot} : Flow s s' p (.forkCopy np) (.forkLink np)
  | forkLink {np : Slot} (hp : s'.parent np = some p) : Flow s s' p (.forkLink np) (.forkRun np)
  | forkRun {np : Slot} : Flow s s' p (.forkRun np) .user
  | enter {a b : Path} (h : Enter a b) (hw : s.waitLock = none) : Flow s s' p a b
  | reparent {status : Int} {i : Slot} (hc : s.parent i = some p) (hp : s'.parent i = s.initproc) :
    Flow s s' p (.reparent status i) (.reparentWake status i 0)
  | wakeup {k : Slot} {chan : Option Chan} {a b : Path} (h : Wakes s p a k chan b)
    (hk : k ≠ p → s.lock k = none ∧
      (s'.state k = .SLEEPING → (s'.proc k).chan ≠ chan)) : Flow s s' p a b
  | zombie {status : Int} (hz : s'.state p = .ZOMBIE) (hl : s'.lock p = some p) :
    Flow s s' p (.exitWake status NPROC) .exitSched
  | fails {a : Path} (h : Fails s p a) : Flow s s' p a .user
  | reap {addr havekids : Bool} {c : Slot} : Flow s s' p (.waitScan addr c havekids) .user
  | sleep {addr : Bool} (hl : s'.lock p = some p) : Flow s s' p (.waitSleep addr) (.waitSched addr)
  | sched {addr : Bool} (hs : s'.state p = .SLEEPING) (hc : (s'.proc p).chan = some (.proc p)) :
    Flow s s' p (.waitSched addr) (.asleep addr)

/-- The changes of the path of slot `p` that others make. -/
inductive Passive (s s' : State) (p : Slot) : Path → Path → Prop
  | alloc {a : Path} (hu : s.state p = .UNUSED) (hu' : s'.state p ≠ .UNUSED) :
    Passive s s' p a .user
  | free {a : Path} (hu : s'.state p = .UNUSED) : Passive s s' p a .dead
  | exitSched : Passive s s' p .exitSched .dead
  /-- The scheduler dispatches a sleeper that was woken. -/
  | resume {addr : Bool} (hr : s'.state p = .RUNNING) : Passive s s' p (.asleep addr) (.wait addr)

section Inversion

variable {s s' : State}

theorem wakeupSlot_awake (k : Slot) (chan : Option Chan) :
    (s.wakeupSlot k chan).state k = .SLEEPING → ((s.wakeupSlot k chan).proc k).chan ≠ chan := by
  unfold State.wakeupSlot
  split
  · intro h
    simp [State.setProc, State.state] at h
  · next hn => exact fun h hc => hn ⟨h, hc⟩

theorem path_of_goto {t : State} {p q : Slot} {a b : Path} (hpath : t.path = s.path)
    (hr : s.state p = .RUNNING) (hp : s.path p = a) (h : Flow s (t.goto p b) p a b) :
    (t.goto p b).path q = s.path q ∨
      (s.state q = .RUNNING ∧ Flow s (t.goto p b) q (s.path q) ((t.goto p b).path q)) ∨
      Passive s (t.goto p b) q (s.path q) ((t.goto p b).path q) := by
  by_cases hq : q = p
  · rw [hq, goto_path, if_pos rfl, hp]
    exact .inr (.inl ⟨hr, h⟩)
  · rw [goto_path, if_neg hq, hpath]
    exact .inl rfl

/-- **What a step does to paths.** -/
theorem Step.path_cases (h : Step s s') (q : Slot) : s'.path q = s.path q ∨
      (s.state q = .RUNNING ∧ Flow s s' q (s.path q) (s'.path q)) ∨
      Passive s s' q (s.path q) (s'.path q) := by
  cases h with
  | @userinit p hi hu hfirst =>
    rw [userinit_path]
    split
    · next hq => rw [hq]; exact .inr (.inr (.alloc hu (by simp)))
    · exact .inl rfl
  | @dispatch p hr hl =>
    rw [dispatch_path]
    split
    · next hq =>
      rw [hq]
      cases s.path p <;> first | exact .inl rfl | exact .inr (.inr (.resume (by simp)))
    · exact .inl rfl
  | yield hr hl hpre | kill hl => exact .inl rfl
  | move hr hp hm => exact path_of_goto rfl hr hp (.move hm)
  | @forkAlloc p np hr hp hl hu =>
    rw [goto_path, setLock_path, allocproc_path]
    split
    · next hq =>
      rw [hq, hp]
      refine .inr (.inl ⟨hr, .forkAlloc hu (by simp) ?_ (by simp) ?_⟩)
      · exact update_self np s.nextBorn s.born
      · exact update_self np (s.born p) s.forker
    · split
      · next hqn => rw [hqn]; exact .inr (.inr (.alloc hu (by simp)))
      · exact .inl rfl
  | @forkFail p np hr hp =>
    rw [goto_path, setLock_path, freeproc_path]
    split
    · next hq => rw [hq, hp]; exact .inr (.inl ⟨hr, .forkFail⟩)
    · split
      · next hqn => exact .inr (.inr (.free (by simp [hqn])))
      · exact .inl rfl
  | forkCopied hr hp tf pt => exact path_of_goto rfl hr hp .forkCopied
  | forkLink hr hp hw => exact path_of_goto rfl hr hp (.forkLink (by simp))
  | forkRun hr hp hl => exact path_of_goto rfl hr hp .forkRun
  | enter hr hp he hw => exact path_of_goto rfl hr hp (.enter he hw)
  | reparent hr hp hc => exact path_of_goto rfl hr hp (.reparent hc (by simp))
  | @wakeup p k chan a b hr hp hw hk hl =>
    refine path_of_goto (wakeupSlot_path s k chan) hr hp (.wakeup hw (fun _ => ⟨hl, ?_⟩))
    exact wakeupSlot_awake k chan
  | wakeupSelf hr hp hw => exact path_of_goto rfl hr hp (.wakeup hw (fun h => absurd rfl h))
  | @zombie p status hr hp hl =>
    rw [zombie_path]
    split
    · next hq =>
      rw [hq, hp]
      exact .inr (.inl ⟨hr, .zombie (by simp) (by simp)⟩)
    · exact .inl rfl
  | @exitSched p hp =>
    rw [goto_path, setLock_path]
    split
    · next hq => rw [hq, hp]; exact .inr (.inr .exitSched)
    · exact .inl rfl
  | waitFails hr hp hf => exact path_of_goto rfl hr hp (.fails hf)
  | @waitReap p c addr havekids hr hp hc hl hz =>
    rw [reap_path]
    split
    · next hq => rw [hq, hp]; exact .inr (.inl ⟨hr, .reap⟩)
    · split
      · next hqc => exact .inr (.inr (.free (by simp [hqc])))
      · exact .inl rfl
  | waitSleep hr hp hl => exact path_of_goto rfl hr hp (.sleep (by simp))
  | @waitSched p addr hr hp =>
    refine path_of_goto rfl hr hp (.sched (by simp) ?_)
    simp [State.setProc, State.goto, State.setLock]

/-! ## §2. The states of the slots. -/

inductive Change (s s' : State) (i : Slot) : ProcState → ProcState → Prop
  | init (hn : s.initproc = none) (hi : s'.initproc = some i) (hp : s'.path i = .user)
    (hb : s'.born i = s.nextBorn) (hnb : s'.nextBorn = s.nextBorn + 1) :
    Change s s' i .UNUSED .RUNNABLE
  | alloc {p : Slot} (hr : s.state p = .RUNNING) (hf : s.path p = .forkScan i)
    (hp : s'.path i = .user) (hb : s'.born i = s.nextBorn)
    (hnb : s'.nextBorn = s.nextBorn + 1) : Change s s' i .UNUSED .USED
  | forkFail {p : Slot} {a : ProcState} (hf : s.path p = .forkCopy i) (hf' : s'.path p = .user)
    (hp : i ≠ p → s'.path i = .dead) (hn : s'.parent i = none) : Change s s' i a .UNUSED
  | forkRun {p : Slot} {a : ProcState} (hr : s.state p = .RUNNING) (hf : s.path p = .forkRun i)
    (hf' : s'.path p = .user) (hp : i ≠ p → s'.path i = s.path i) : Change s s' i a .RUNNABLE
  | dispatch (hp : s'.path i = (s.path i).resume) : Change s s' i .RUNNABLE .RUNNING
  | yield (hp : s'.path i = s.path i) : Change s s' i .RUNNING .RUNNABLE
  | wakeup (hp : s'.path i = s.path i) : Change s s' i .SLEEPING .RUNNABLE
  | zombie {status : Int} (hf : s.path i = .exitWake status NPROC) (hp : s'.path i = .exitSched) :
    Change s s' i .RUNNING .ZOMBIE
  | reap {p : Slot} {addr havekids : Bool} (hf : s.path p = .waitScan addr i havekids)
    (hl : s.lock i = none) (hp : s'.path i = .dead) (hn : s'.parent i = none) :
    Change s s' i .ZOMBIE .UNUSED
  | sleep {addr : Bool} (hf : s.path i = .waitSched addr) (hp : s'.path i = .asleep addr) :
    Change s s' i .RUNNING .SLEEPING

theorem wakeupSlot_state (k : Slot) (chan : Option Chan) (q : Slot) :
    (s.wakeupSlot k chan).state q = s.state q ∨
      (s.state q = .SLEEPING ∧ (s.wakeupSlot k chan).state q = .RUNNABLE) := by
  unfold State.wakeupSlot
  split
  · next h =>
    rw [setProc_state]
    split
    · next hq => exact .inr ⟨hq ▸ h.1, rfl⟩
    · exact .inl rfl
  · exact .inl rfl

section

variable (h : Step s s')

include h

/-- **What a step does to states.** -/
theorem Step.state_cases (q : Slot) :
    s'.state q = s.state q ∨ Change s s' q (s.state q) (s'.state q) := by
  cases h with
  | @userinit p hi hu hfirst =>
    rw [userinit_state]
    split
    · next hq =>
      rw [hq, hu]
      refine .inr (.init hi rfl (by simp) ?_ rfl)
      show update s.born p s.nextBorn p = s.nextBorn
      rw [update_self]
    · exact .inl rfl
  | @dispatch p hr hl =>
    rw [dispatch_state]
    split
    · next hq => rw [hq, hr]; exact .inr (.dispatch (by simp))
    · exact .inl rfl
  | @yield p hr hl hpre =>
    rw [setProc_state]
    split
    · next hq => rw [hq, hr]; exact .inr (.yield rfl)
    · exact .inl rfl
  | @kill k hl =>
    rw [killSlot_state]
    split
    · next hq => rw [hq.1, hq.2]; exact .inr (.wakeup rfl)
    · exact .inl rfl
  | move hr hp hm | enter hr hp he hw | wakeupSelf hr hp hw | exitSched hp | waitFails hr hp hf
  | waitSleep hr hp hl => exact .inl rfl
  | @forkAlloc p np hr hp hl hu =>
    rw [goto_state, setLock_state, allocproc_state]
    split
    · next hq =>
      have hne : np ≠ p := by
        intro he
        rw [he, hr] at hu
        exact absurd hu (by simp)
      rw [hq, hu]
      refine .inr (.alloc hr hp (by simp [hne]) ?_ rfl)
      show update s.born np s.nextBorn np = s.nextBorn
      rw [update_self]
    · exact .inl rfl
  | @forkFail p np hr hp =>
    rw [goto_state, setLock_state, freeproc_state]
    split
    · next hq =>
      rw [hq]
      exact .inr (.forkFail hp (by simp) (fun hne => by simp [hne]) (by simp))
    · exact .inl rfl
  | @forkRun p np hr hp hl =>
    rw [goto_state, setProc_state]
    split
    · next hq => rw [hq]; exact .inr (.forkRun hr hp (by simp) (fun hne => by simp [hne]))
    · exact .inl rfl
  | @forkCopied p i | @forkLink p i | @reparent p i =>
    left
    simp only [goto_state, setLock_state, setProc_state]
    split
    · next hq => rw [hq]; rfl
    · rfl
  | @wakeup p k chan a b hr hp hw hk hl =>
    rw [goto_state]
    rcases wakeupSlot_state k chan q with hs | ⟨hs, hs'⟩
    · exact .inl hs
    · have hq : q ≠ p := by
        intro he
        rw [he, hr] at hs
        exact absurd hs (by simp)
      rw [hs, hs']
      exact .inr (.wakeup (by simp [hq]))
  | @zombie p status hr hp hl =>
    rw [zombie_state]
    split
    · next hq => rw [hq, hr]; exact .inr (.zombie hp (by simp))
    · exact .inl rfl
  | @waitReap p c addr havekids hr hp hc hl hz =>
    rw [reap_state]
    split
    · next hq =>
      have hne : c ≠ p := by
        intro he
        rw [he, hr] at hz
        exact absurd hz (by simp)
      rw [hq, hz]
      exact .inr (.reap hp hl (by simp [hne]) (by simp))
    · exact .inl rfl
  | @waitSched p addr hr hp =>
    rw [goto_state, setLock_state, setProc_state]
    split
    · next hq => rw [hq, hr]; exact .inr (.sleep hp (by simp))
    · exact .inl rfl

/-! ## §3. Parents and numbers. -/

/-- **What a step does to parent pointers.** -/
theorem Step.parent_cases (i : Slot) : s'.parent i = s.parent i ∨
      (∃ p, s.path p = .forkLink i ∧ s.state p = .RUNNING ∧ s.waitLock = none ∧
        s'.path p = .forkRun i ∧ s'.parent i = some p) ∨
      (∃ p status, s.path p = .reparent status i ∧ s.parent i = some p ∧
        s'.path p = .reparentWake status i 0 ∧ s'.parent i = s.initproc) ∨
      (s'.parent i = none ∧ s'.state i = .UNUSED) := by
  cases h with
  | userinit hi hu hfirst | dispatch hr hl | kill hl | forkAlloc hr hp hl hu
  | wakeup hr hp hw hk hl | zombie hr hp hl => exact .inl (by simp)
  | yield hr hl hpre | forkCopied hr hp tf pt | forkRun hr hp hl | waitSched hr hp =>
    exact .inl (setProc_parent_eq _ _ _ rfl)
  | move hr hp hm | enter hr hp he hw | wakeupSelf hr hp hw | exitSched hp | waitFails hr hp hf
  | waitSleep hr hp hl => exact .inl rfl
  | @forkFail p np hr hp =>
    by_cases hi : i = np
    · exact .inr (.inr (.inr (by simp [hi])))
    · exact .inl (by simp [hi])
  | @forkLink p np hr hp hw =>
    by_cases hi : i = np
    · exact .inr (.inl ⟨p, hi ▸ hp, hr, hw, by simp [hi], by simp [hi]⟩)
    · exact .inl (by simp [hi])
  | @reparent p j status hr hp hc =>
    by_cases hi : i = j
    · exact .inr (.inr (.inl ⟨p, status, hi ▸ hp, hi ▸ hc, by simp [hi], by simp [hi]⟩))
    · exact .inl (by simp [hi])
  | @waitReap p c addr havekids hr hp hc hl hz =>
    by_cases hi : i = c
    · exact .inr (.inr (.inr (by simp [hi])))
    · exact .inl (by simp [hi])

/-- **What a step does to numbers**: only a slot that gets a process changes. -/
theorem Step.born_cases (i : Slot) : (s'.born i = s.born i ∧ s'.forker i = s.forker i) ∨
      (s.state i = .UNUSED ∧ s'.born i = s.nextBorn ∧ s'.nextBorn = s.nextBorn + 1 ∧
        ∀ j, j ≠ i → s'.born j = s.born j ∧ s'.forker j = s.forker j) := by
  have halloc : ∀ (p : Slot) (f : Nat) (t : State), s.state p = .UNUSED →
      t.born = (s.allocproc p f).born → t.forker = (s.allocproc p f).forker →
      t.nextBorn = s.nextBorn + 1 →
      (t.born i = s.born i ∧ t.forker i = s.forker i) ∨
        (s.state i = .UNUSED ∧ t.born i = s.nextBorn ∧ t.nextBorn = s.nextBorn + 1 ∧
          ∀ j, j ≠ i → t.born j = s.born j ∧ t.forker j = s.forker j) := by
    intro p f t hu hb hf hn
    have hborn : ∀ j, t.born j = if j = p then s.nextBorn else s.born j := by
      intro j
      rw [hb]
      exact update_apply _ _ _ _
    have hfork : ∀ j, t.forker j = if j = p then f else s.forker j := by
      intro j
      rw [hf]
      exact update_apply _ _ _ _
    by_cases hi : i = p
    · refine .inr ⟨hi ▸ hu, by rw [hborn, if_pos hi], hn, fun j hj => ?_⟩
      rw [hborn, hfork, if_neg (hi ▸ hj), if_neg (hi ▸ hj)]
      exact ⟨rfl, rfl⟩
    · rw [hborn, hfork, if_neg hi, if_neg hi]
      exact .inl ⟨rfl, rfl⟩
  cases h with
  | userinit hi hu hfirst | forkAlloc hr hp hl hu => exact halloc _ _ _ hu rfl rfl rfl
  | wakeup hr hp hw hk hl =>
    refine .inl ?_
    unfold State.wakeupSlot
    split <;> exact ⟨rfl, rfl⟩
  | dispatch | yield | kill | move | forkFail | forkCopied | forkLink | forkRun | enter
  | reparent | wakeupSelf | zombie | exitSched | waitFails | waitReap | waitSleep | waitSched =>
    exact .inl ⟨rfl, rfl⟩

theorem Step.nextBorn_cases : s'.nextBorn = s.nextBorn ∨ (s'.nextBorn = s.nextBorn + 1 ∧
        ∃ i, s.state i = .UNUSED ∧ s'.state i ≠ .UNUSED ∧ ∀ j, j ≠ i → s'.state j = s.state j) := by
  cases h with
  | @userinit p hi hu hfirst =>
    exact .inr ⟨rfl, p, hu, by simp, fun j hj => by simp [hj]⟩
  | @forkAlloc p np hr hp hl hu =>
    exact .inr ⟨rfl, np, hu, by simp, fun j hj => by simp [hj]⟩
  | wakeup hr hp hw hk hl =>
    refine .inl ?_
    unfold State.wakeupSlot
    split <;> rfl
  | dispatch | yield | kill | move | forkFail | forkCopied | forkLink | forkRun | enter
  | reparent | wakeupSelf | zombie | exitSched | waitFails | waitReap | waitSleep | waitSched =>
    exact .inl rfl

theorem Step.initproc_cases : s'.initproc = s.initproc ∨
      (s.initproc = none ∧ ∃ p, s'.initproc = some p ∧ s.state p = .UNUSED ∧
        s'.state p = .RUNNABLE ∧ s'.born p = s.nextBorn) := by
  cases h with
  | @userinit p hi hu hfirst =>
    refine .inr ⟨hi, p, rfl, hu, by simp, ?_⟩
    show update s.born p s.nextBorn p = s.nextBorn
    rw [update_self]
  | wakeup hr hp hw hk hl =>
    refine .inl ?_
    unfold State.wakeupSlot
    split <;> rfl
  | dispatch | yield | kill | move | forkAlloc | forkFail | forkCopied | forkLink | forkRun | enter
  | reparent | wakeupSelf | zombie | exitSched | waitFails | waitReap | waitSleep | waitSched =>
    exact .inl rfl

/-! ## §4. Locks and channels. -/

/-- **What a step does to the lock of a slot.** -/
theorem Step.lock_cases (i : Slot) : s'.lock i = s.lock i ∨ s.lock i = none ∨
      (∃ p, s.path p = .forkCopy i) ∨ s.path i = .exitSched ∨
      ∃ addr, s.path i = .waitSched addr ∧ s'.path i = .asleep addr := by
  have hset : ∀ (t : State) (p : Slot) (holder : Option Slot), t.lock = s.lock →
      s.lock p = none → (t.setLock p holder).lock i = s.lock i ∨ s.lock i = none := by
    intro t p holder ht hp
    rw [setLock_lock, ht]
    split
    · next hi => exact .inr (hi ▸ hp)
    · exact .inl rfl
  cases h with
  | @forkAlloc p np hr hp hl hu =>
    rcases hset (s.allocproc np (s.born p)) np (some p) rfl hl with h | h
    · exact .inl h
    · exact .inr (.inl h)
  | @zombie p status hr hp hl =>
    rw [zombie_lock]
    split
    · next hi => exact .inr (.inl (hi ▸ hl))
    · exact .inl rfl
  | @waitSleep p addr hr hp hl =>
    rcases hset (s.setWaitLock none) p (some p) rfl hl with h | h
    · exact .inl h
    · exact .inr (.inl h)
  | @forkFail p np hr hp =>
    by_cases hi : i = np
    · exact .inr (.inr (.inl ⟨p, hi ▸ hp⟩))
    · exact .inl (by simp [hi, State.freeproc])
  | @forkCopied p np hr hp tf pt =>
    by_cases hi : i = np
    · exact .inr (.inr (.inl ⟨p, hi ▸ hp⟩))
    · exact .inl (by simp [hi])
  | @exitSched p hp =>
    by_cases hi : i = p
    · exact .inr (.inr (.inr (.inl (hi ▸ hp))))
    · exact .inl (by simp [hi])
  | @waitSched p addr hr hp =>
    by_cases hi : i = p
    · exact .inr (.inr (.inr (.inr ⟨addr, hi ▸ hp, by simp [hi]⟩)))
    · exact .inl (by simp [hi])
  | wakeup hr hp hw hk hl => exact .inl (by simp)
  | userinit | dispatch | yield | kill | move | forkLink | forkRun | enter | reparent | wakeupSelf
  | waitFails | waitReap => exact .inl rfl

theorem Step.chan_of_sleeping {i : Slot} (hi : s.state i = .SLEEPING)
    (hi' : s'.state i = .SLEEPING) (hfork : ∀ p, (s.path p = .forkCopy i) → False) :
    (s'.proc i).chan = (s.proc i).chan := by
  have hset : ∀ (t : State) (k : Slot) (r : Proc), t.proc = s.proc → (k = i → r.chan = (s.proc i).chan) →
      ((t.setProc k r).proc i).chan = (s.proc i).chan := by
    intro t k r ht hr
    show (update t.proc k r i).chan = _
    rw [update_apply, ht]
    split
    · next hk => exact hr hk.symm
    · rfl
  cases h with
  | @userinit p hin hu hfirst =>
    have hne : i ≠ p := by
      intro he
      rw [he, hu] at hi
      exact absurd hi (by simp)
    simp [State.userinit, State.allocproc, State.setProc, State.goto, hne]
  | @dispatch p hr hl | @waitSched p addr hr hp =>
    refine hset s p _ rfl (fun he => ?_)
    rw [he, hi] at hr
    exact absurd hr (by simp)
  | yield | kill | forkCopied | forkLink | forkRun | reparent | zombie =>
    exact hset s _ _ rfl (fun he => by rw [he])
  | @forkAlloc p np hr hp hl hu =>
    refine hset s np _ rfl (fun he => ?_)
    rw [he, hi] at hu
    exact absurd hu (by simp)
  | @forkFail p np hr hp =>
    refine hset s np _ rfl (fun he => ?_)
    exact (hfork p (he ▸ hp)).elim
  | @wakeup p k chan a b hr hp hw hk hl =>
    show ((s.wakeupSlot k chan).proc i).chan = _
    unfold State.wakeupSlot
    split
    · exact hset s _ _ rfl (fun he => by rw [he])
    · rfl
  | @waitReap p c addr havekids hr hp hc hl hz =>
    refine hset s c _ rfl (fun he => ?_)
    rw [he, hi] at hz
    exact absurd hz (by simp)
  | move | enter | wakeupSelf | exitSched | waitFails | waitSleep => rfl

end

end Inversion

end Xv6.Lifecycle
