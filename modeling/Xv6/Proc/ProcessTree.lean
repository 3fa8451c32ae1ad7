/-
  Xv6.Proc.ProcessTree — the parent pointers of the process table form a tree.

  A parent is older than its child when `fork_core` links the two, and initproc,
  which inherits orphans, is older than everybody.
-/
import Xv6.Proc.LifecycleSteps
import Xv6.Proc.Ancestors

namespace Xv6.Lifecycle

open Lib State

/-! ## §1. The invariant. -/

def Live (st : ProcState) : Prop := st = .SLEEPING ∨ st = .RUNNABLE ∨ st = .RUNNING

/-- Where the path of a slot can stand, given its state. -/
def Fits : ProcState → Path → Prop
  | .UNUSED, path => path = .dead
  | .USED, path => path = .user
  | .SLEEPING, path => ∃ addr, path = .asleep addr
  | .RUNNABLE, path => path ≠ .dead ∧ path ≠ .exitSched
  | .RUNNING, path => path ≠ .dead ∧ path ≠ .exitSched ∧ ∀ addr, path ≠ .asleep addr
  | .ZOMBIE, path => path = .dead ∨ path = .exitSched

/-- The child that a path in `fork_core` is making. -/
def Path.forking : Path → Option Slot
  | .forkCopy np | .forkLink np | .forkRun np => some np
  | _ => none

def Path.exiting : Path → Bool
  | .exit _ | .reparent _ _ | .reparentWake _ _ _ | .exitWake _ _ => true
  | _ => false

/-- How many slots the loop of `reparent` has dealt with. -/
def Path.clearedTo : Path → Nat
  | .reparent _ i => i
  | .reparentWake _ i _ => i + 1
  | .exitWake _ _ => NPROC
  | _ => 0

structure TreeInv (s : State) : Prop where
  fits : ∀ p, Fits (s.state p) (s.path p)
  -- before userinit
  blank : s.initproc = none → s.nextBorn = 0 ∧ ∀ i, s.state i = .UNUSED
  init : ∀ p, s.initproc = some p → Live (s.state p) ∧ s.born p = 0
  positive : ∀ p i, s.initproc = some p → i ≠ p → s.state i ≠ .UNUSED → 0 < s.born i
  numbered : ∀ i, s.state i ≠ .UNUSED → s.born i < s.nextBorn
  -- fork_core
  forked : ∀ p np, (s.path p).forking = some np → s.state np = .USED ∧ s.born p < s.born np
  forkers : ∀ p q np, (s.path p).forking = some np → (s.path q).forking = some np → p = q
  -- exit
  notInit : ∀ p, (s.path p).exiting = true → s.initproc ≠ some p
  orphaned : ∀ p (i : Slot), i < (s.path p).clearedTo → s.parent i ≠ some p
  -- the tree
  live : ∀ i q, s.parent i = some q → Live (s.state q)
  present : ∀ i q, s.parent i = some q → s.state i ≠ .UNUSED
  older : ∀ i q, s.parent i = some q → s.born q < s.born i

theorem live_ne_unused {st : ProcState} (h : Live st) : st ≠ .UNUSED := by
  rcases h with rfl | rfl | rfl <;> simp

/-! ## §2. Facts about single steps. -/

section Steps

variable {s s' : State}

variable {i p : Slot}

theorem born_eq (hs : Step s s') (hi : s.state i ≠ .UNUSED) :
    s'.born i = s.born i ∧ s'.forker i = s.forker i := by
  rcases hs.born_cases i with h | ⟨hu, _⟩
  · exact h
  · exact absurd hu hi

theorem born_new (hs : Step s s') (hi : s.state i = .UNUSED)
    (hi' : s'.state i ≠ .UNUSED) (hforked : ∀ p, s.state p = .RUNNING → (s.path p).forking ≠ some i) :
    s'.born i = s.nextBorn ∧ s'.nextBorn = s.nextBorn + 1 := by
  rcases hs.state_cases i with h | h
  · exact absurd (h.trans hi) hi'
  · rw [hi] at h
    generalize hst : s'.state i = st at h
    cases h with
    | init _ _ _ hb hnb | alloc _ _ _ hb hnb => exact ⟨hb, hnb⟩
    | forkFail => exact absurd hst hi'
    | @forkRun p _ hr hf => exact absurd (by rw [hf]; rfl) (hforked p hr)

variable {a b : Path}

theorem Flow.forking_cases {np : Slot} (h : Flow s s' p a b) (hb : b.forking = some np) :
    (s.state np = .UNUSED ∧ s'.state np = .USED ∧ s'.born np = s.nextBorn ∧
        s'.lock np = some p ∧ s'.forker np = s.born p) ∨
      (a.forking = some np ∧ b ≠ .user) := by
  cases h with
  | move hm => cases hm <;> exact absurd hb (by simp [Path.forking])
  | forkAlloc hu hs hbn hl hfk =>
    obtain rfl := Option.some.inj hb
    exact .inl ⟨hu, hs, hbn, hl, hfk⟩
  | forkCopied | forkLink => exact .inr ⟨hb, by simp⟩
  | enter he => cases he <;> exact absurd hb (by simp [Path.forking])
  | wakeup hw => cases hw <;> exact absurd hb (by simp [Path.forking])
  | forkFail | forkRun | reparent | zombie | fails | reap | sleep | sched =>
    exact absurd hb (by simp [Path.forking])

theorem Flow.exiting_cases (h : Flow s s' p a b)
    (hb : b.exiting = true) : a.exiting = true ∨ s.initproc ≠ some p := by
  cases h with
  | move hm =>
    cases hm with
    | exit hi => exact .inr hi
    | reparentSkip | reparentNext | reparentDone => exact .inl rfl
    | fork | forkSkip | forkNone | wait | waitSkip | waitBusy | waitSleep =>
      exact absurd hb (by simp [Path.exiting])
  | enter he =>
    cases he with
    | exit => exact .inl rfl
    | wait => exact absurd hb (by simp [Path.exiting])
  | reparent => exact .inl rfl
  | wakeup hw => cases hw <;> exact .inl rfl
  | forkAlloc | forkFail | forkCopied | forkLink | forkRun | zombie | fails | reap | sleep | sched =>
    exact absurd hb (by simp [Path.exiting])

theorem Flow.cleared_cases (h : Flow s s' p a b) (hi : i < b.clearedTo) :
    i < a.clearedTo ∨ s.parent i ≠ some p ∨ s'.parent i = s.initproc := by
  cases h with
  | move hm =>
    cases hm with
    | @reparentSkip _ j hp =>
      have hij : i.val < j.val + 1 := hi
      by_cases he : i = j
      · exact .inr (.inl (he ▸ hp))
      · left
        show i.val < j.val
        have : i.val ≠ j.val := fun hv => he (Fin.ext hv)
        omega
    | reparentNext | reparentDone => exact .inl hi
    | fork | forkSkip | forkNone | exit | wait | waitSkip | waitBusy | waitSleep =>
      exact absurd hi (by simp [Path.clearedTo])
  | enter he => cases he <;> exact absurd hi (by simp [Path.clearedTo])
  | @reparent status j hc hp =>
    have hij : i.val < j.val + 1 := hi
    by_cases he : i = j
    · exact .inr (.inr (he ▸ hp))
    · left
      show i.val < j.val
      have : i.val ≠ j.val := fun hv => he (Fin.ext hv)
      omega
  | wakeup hw => cases hw <;> exact .inl hi
  | forkAlloc | forkFail | forkCopied | forkLink | forkRun | zombie | fails | reap | sleep | sched =>
    exact absurd hi (by simp [Path.clearedTo])

theorem Passive.target (h : Passive s s' p a b) :
    b = .user ∨ b = .dead ∨ ∃ addr, b = .wait addr := by
  cases h with
  | alloc => exact .inl rfl
  | free | exitSched => exact .inr (.inl rfl)
  | resume => exact .inr (.inr ⟨_, rfl⟩)

theorem Flow.fits_running (h : Flow s s' p a b)
    (hr : s'.state p = .RUNNING) : Fits .RUNNING b := by
  cases h with
  | move hm => cases hm <;> exact ⟨by simp, by simp, by simp⟩
  | enter hen => cases hen <;> exact ⟨by simp, by simp, by simp⟩
  | wakeup hw => cases hw <;> exact ⟨by simp, by simp, by simp⟩
  | zombie hz => rw [hr] at hz; exact absurd hz (by simp)
  | sched hsl => rw [hr] at hsl; exact absurd hsl (by simp)
  | forkAlloc | forkFail | forkCopied | forkLink | forkRun | reparent | fails | reap | sleep =>
    exact ⟨by simp, by simp, by simp⟩

theorem exiting_of_clearedTo {path : Path} (h : i < path.clearedTo) :
    path.exiting = true := by
  cases path <;> first | rfl | exact absurd h (by simp [Path.clearedTo])

end Steps

/-! ## §3. The invariant is kept. -/

section Keep

variable {s s' : State}

theorem live_step (h : TreeInv s) (hs : Step s s') {q : Slot} (hq : Live (s.state q)) :
    Live (s'.state q) ∨ ∃ status, s.path q = .exitWake status NPROC := by
  rcases hs.state_cases q with he | hc
  · exact .inl (he ▸ hq)
  · generalize hst : s'.state q = st at hc
    generalize hst0 : s.state q = st0 at hc hq
    cases hc with
    | @forkFail p _ hf =>
      have hused := (h.forked p q (by rw [hf]; rfl)).1
      rw [hst0] at hused
      rw [hused] at hq
      exact absurd hq (by simp [Live])
    | zombie hf => exact .inr ⟨_, hf⟩
    | reap | alloc => exact absurd hq (by simp [Live])
    | init | forkRun | dispatch | yield | wakeup | sleep => exact .inl (by simp [Live])

theorem fits_step (h : TreeInv s) (hs : Step s s') (q : Slot) : Fits (s'.state q) (s'.path q) := by
  have hfit := h.fits q
  rcases hs.state_cases q with he | hc
  · -- the state stays: a running path stays away from the ends
    rw [he]
    rcases hs.path_cases q with hp | ⟨hr, hf⟩ | hpas
    · rw [hp]; exact hfit
    · rw [hr]
      exact hf.fits_running (he.trans hr)
    · generalize hb : s'.path q = b at hpas
      generalize ha : s.path q = a at hpas hfit
      cases hpas with
      | alloc hu hu' => exact absurd (he.trans hu) hu'
      | free hu =>
        rw [he] at hu
        rw [hu]
        rfl
      | exitSched =>
        generalize s.state q = st at hfit
        cases st with
        | ZOMBIE => exact .inl rfl
        | UNUSED | USED | SLEEPING => exact absurd hfit (by simp [Fits])
        | RUNNABLE => exact absurd rfl hfit.2
        | RUNNING => exact absurd rfl hfit.2.1
      | resume hr =>
        rw [he] at hr
        rw [hr]
        exact ⟨by simp, by simp, by simp⟩
  · generalize hst : s'.state q = st at hc
    generalize hst0 : s.state q = st0 at hc hfit
    cases hc with
    | init _ _ hp => rw [hp]; exact ⟨by simp, by simp⟩
    | alloc _ _ hp => exact hp
    | @forkFail p _ hf hf' hp =>
      by_cases hqp : q = p
      · -- a slot does not fork itself: it is older than its child
        subst hqp
        exact absurd (h.forked q q (by rw [hf]; rfl)).2 (Nat.lt_irrefl _)
      · exact hp hqp
    | @forkRun p _ hr hf hf' hp =>
      have hused := (h.forked p q (by rw [hf]; rfl)).1
      have hqp : q ≠ p := by
        intro he
        rw [he, hr] at hused
        exact absurd hused (by simp)
      rw [hst0] at hused
      rw [hused] at hfit
      rw [hp hqp, hfit]
      exact ⟨by simp, by simp⟩
    | dispatch hp =>
      rw [hp]
      generalize s.path q = a at hfit
      cases a <;> first
        | exact absurd rfl hfit.1
        | exact absurd rfl hfit.2
        | exact ⟨by simp [Path.resume], by simp [Path.resume], by simp [Path.resume]⟩
    | yield hp => rw [hp]; exact ⟨hfit.1, hfit.2.1⟩
    | wakeup hp =>
      obtain ⟨addr, ha⟩ := hfit
      rw [hp, ha]
      exact ⟨by simp, by simp⟩
    | zombie _ hp => exact .inr hp
    | reap _ _ hp => exact hp
    | sleep _ hp => exact ⟨_, hp⟩

variable {p np : Slot}

theorem used_step (h : TreeInv s) (hs : Step s s')
    (hp : (s.path p).forking = some np) (hp' : s'.path p ≠ .user) : s'.state np = .USED := by
  have hused := (h.forked p np hp).1
  rcases hs.state_cases np with he | hc
  · exact he.trans hused
  · rw [hused] at hc
    generalize hst : s'.state np = st at hc
    cases hc with
    | @forkFail q _ hf hf' | @forkRun q _ _ hf hf' =>
      obtain rfl := h.forkers q p np (by rw [hf]; rfl) hp
      exact absurd hf' hp'

theorem forking_step (hs : Step s s') (hp' : (s'.path p).forking = some np) :
    ((s.path p).forking = some np ∧ s'.path p ≠ .user) ∨
      (s.state p = .RUNNING ∧ s.state np = .UNUSED ∧ s'.state np = .USED ∧
        s'.born np = s.nextBorn ∧ s'.lock np = some p ∧ s'.forker np = s.born p) := by
  rcases hs.path_cases p with he | ⟨hr, hf⟩ | hpas
  · rw [he] at hp' ⊢
    refine .inl ⟨hp', fun hu => ?_⟩
    rw [hu] at hp'
    exact absurd hp' (by simp [Path.forking])
  · rcases hf.forking_cases hp' with hnew | hold
    · exact .inr ⟨hr, hnew⟩
    · exact .inl hold
  · rcases hpas.target with hb | hb | ⟨_, hb⟩ <;> rw [hb] at hp' <;>
      exact absurd hp' (by simp [Path.forking])

theorem live_of_path {st : ProcState} {path : Path} (h : Fits st path) (hd : path ≠ .dead)
    (hx : path ≠ .exitSched) (hu : path ≠ .user) : Live st := by
  cases st with
  | SLEEPING => exact .inl rfl
  | RUNNABLE => exact .inr (.inl rfl)
  | RUNNING => exact .inr (.inr rfl)
  | UNUSED => exact absurd h hd
  | USED => exact absurd h hu
  | ZOMBIE => exact absurd h (by simp [Fits, hd, hx])

theorem TreeInv.live_of_forking (h : TreeInv s)
    (hp : (s.path p).forking = some np) : Live (s.state p) := by
  refine live_of_path (h.fits p) ?_ ?_ ?_ <;> intro he <;> rw [he] at hp <;>
    exact absurd hp (by simp [Path.forking])

theorem TreeInv.live_of_exiting (h : TreeInv s)
    (hp : (s.path p).exiting = true) : Live (s.state p) := by
  refine live_of_path (h.fits p) ?_ ?_ ?_ <;> intro he <;> rw [he] at hp <;>
    exact absurd hp (by simp [Path.exiting])

theorem forked_step (h : TreeInv s) (hs : Step s s') (p np : Slot)
    (hp' : (s'.path p).forking = some np) :
    s'.state np = .USED ∧ s'.born p < s'.born np := by
  rcases forking_step hs hp' with ⟨hp, hne⟩ | ⟨hr, _, hs', hb, _, _⟩
  · obtain ⟨hused, hlt⟩ := h.forked p np hp
    refine ⟨used_step h hs hp hne, ?_⟩
    rw [(born_eq hs (live_ne_unused (h.live_of_forking hp))).1,
      (born_eq hs (by rw [hused]; simp)).1]
    exact hlt
  · have hpu : s.state p ≠ .UNUSED := by rw [hr]; simp
    rw [(born_eq hs hpu).1, hb]
    exact ⟨hs', h.numbered p hpu⟩

theorem forkers_step (h : TreeInv s) (hs : Step s s') (p q np : Slot)
    (hp' : (s'.path p).forking = some np) (hq' : (s'.path q).forking = some np) : p = q := by
  rcases forking_step hs hp' with ⟨hp, _⟩ | ⟨_, hu, _, _, hl, _⟩
  · rcases forking_step hs hq' with ⟨hq, _⟩ | ⟨_, hu, _⟩
    · exact h.forkers p q np hp hq
    · rw [(h.forked p np hp).1] at hu
      exact absurd hu (by simp)
  · rcases forking_step hs hq' with ⟨hq, _⟩ | ⟨_, _, _, _, hl', _⟩
    · rw [(h.forked q np hq).1] at hu
      exact absurd hu (by simp)
    · exact Option.some.inj (hl.symm.trans hl')

theorem initproc_step (hs : Step s s') (hp : s.initproc = some p) :
    s'.initproc = some p := by
  rcases hs.initproc_cases with he | ⟨hn, _⟩
  · exact he.trans hp
  · rw [hp] at hn
    exact absurd hn (by simp)

section

variable (h : TreeInv s) (hs : Step s s')

include h hs

theorem notInit_step (p : Slot) (hp' : (s'.path p).exiting = true) : s'.initproc ≠ some p := by
  -- in `s` the process is live and not initproc
  have hold : Live (s.state p) ∧ s.initproc ≠ some p := by
    rcases hs.path_cases p with he | ⟨hr, hf⟩ | hpas
    · rw [he] at hp'
      exact ⟨h.live_of_exiting hp', h.notInit p hp'⟩
    · refine ⟨.inr (.inr hr), ?_⟩
      rcases hf.exiting_cases hp' with hold | hnew
      · exact h.notInit p hold
      · exact hnew
    · rcases hpas.target with hb | hb | ⟨_, hb⟩ <;> rw [hb] at hp' <;>
        exact absurd hp' (by simp [Path.exiting])
  rcases hs.initproc_cases with he | ⟨_, q, hq, hu, _⟩
  · rw [he]
    exact hold.2
  · rw [hq]
    intro hqp
    rw [Option.some.inj hqp] at hu
    exact absurd hu (live_ne_unused hold.1)

theorem orphaned_step (p i : Slot) (hi : i < (s'.path p).clearedTo) : s'.parent i ≠ some p := by
  intro hpar
  have hexit := exiting_of_clearedTo hi
  -- initproc never hands its children over
  have hinit : s.initproc ≠ some p := by
    intro hp
    exact notInit_step h hs p hexit (initproc_step hs hp)
  have hs0 : s.parent i ≠ some p := by
    rcases hs.path_cases p with he | ⟨_, hf⟩ | hpas
    · rw [he] at hi
      exact h.orphaned p i hi
    · rcases hf.cleared_cases hi with hold | hne | hgiven
      · exact h.orphaned p i hold
      · exact hne
      · exact absurd (hgiven.symm.trans hpar) hinit
    · rcases hpas.target with hb | hb | ⟨_, hb⟩ <;> rw [hb] at hi <;>
        exact absurd hi (by simp [Path.clearedTo])
  rcases hs.parent_cases i with he | ⟨q, _, _, _, hq', hq⟩ | ⟨q, _, _, _, _, hq⟩ | ⟨hn, _⟩
  · exact hs0 (he.symm.trans hpar)
  · obtain rfl := Option.some.inj (hq.symm.trans hpar)
    rw [hq'] at hi
    exact absurd hi (by simp [Path.clearedTo])
  · exact hinit (hq.symm.trans hpar)
  · rw [hn] at hpar
    exact absurd hpar (by simp)

theorem blank_step (hn' : s'.initproc = none) : s'.nextBorn = 0 ∧ ∀ i, s'.state i = .UNUSED := by
  have hn : s.initproc = none := by
    cases hp : s.initproc with
    | none => rfl
    | some p => rw [initproc_step hs hp] at hn'; exact absurd hn' (by simp)
  obtain ⟨hnb, hall⟩ := h.blank hn
  have hall' : ∀ i, s'.state i = .UNUSED := by
    intro i
    rcases hs.state_cases i with he | hc
    · exact he.trans (hall i)
    · rw [hall i] at hc
      generalize hst : s'.state i = st at hc
      cases hc with
      | init _ hi => rw [hi] at hn'; exact absurd hn' (by simp)
      | @alloc p hr | @forkRun p _ hr => rw [hall p] at hr; exact absurd hr (by simp)
      | forkFail => rfl
  refine ⟨?_, hall'⟩
  rcases hs.nextBorn_cases with he | ⟨_, i, _, hi, _⟩
  · exact he.trans hnb
  · exact absurd (hall' i) hi

end

theorem nextBorn_le (hs : Step s s') : s.nextBorn ≤ s'.nextBorn := by
  rcases hs.nextBorn_cases with he | ⟨he, _⟩
  · exact Nat.le_of_eq he.symm
  · omega

theorem TreeInv.not_forking_unused (h : TreeInv s) {i : Slot} (hi : s.state i = .UNUSED)
    (p : Slot) (_ : s.state p = .RUNNING) : (s.path p).forking ≠ some i := by
  intro hf
  rw [(h.forked p i hf).1] at hi
  exact absurd hi (by simp)

section

variable (h : TreeInv s) (hs : Step s s')

include h hs

theorem numbered_step (i : Slot) (hi' : s'.state i ≠ .UNUSED) : s'.born i < s'.nextBorn := by
  by_cases hi : s.state i = .UNUSED
  · obtain ⟨hb, hnb⟩ := born_new hs hi hi' (h.not_forking_unused hi)
    omega
  · rw [(born_eq hs hi).1]
    exact Nat.lt_of_lt_of_le (h.numbered i hi) (nextBorn_le hs)

theorem init_step (p : Slot) (hp' : s'.initproc = some p) : Live (s'.state p) ∧ s'.born p = 0 := by
  rcases hs.initproc_cases with he | ⟨hn, q, hq, _, hst, hb⟩
  · rw [he] at hp'
    obtain ⟨hl, hb⟩ := h.init p hp'
    refine ⟨?_, (born_eq hs (live_ne_unused hl)).1.trans hb⟩
    rcases live_step h hs hl with hl' | ⟨status, hx⟩
    · exact hl'
    · exact absurd hp' (h.notInit p (by rw [hx]; rfl))
  · obtain rfl := Option.some.inj (hq.symm.trans hp')
    rw [hst, hb]
    exact ⟨.inr (.inl rfl), (h.blank hn).1⟩

theorem positive_step (p i : Slot) (hp' : s'.initproc = some p)
    (hne : i ≠ p) (hi' : s'.state i ≠ .UNUSED) : 0 < s'.born i := by
  rcases hs.initproc_cases with he | ⟨hn, q, hq, _⟩
  · rw [he] at hp'
    by_cases hi : s.state i = .UNUSED
    · -- initproc has number 0, so the next number is positive
      rw [(born_new hs hi hi' (h.not_forking_unused hi)).1]
      obtain ⟨hl, hb⟩ := h.init p hp'
      have := h.numbered p (live_ne_unused hl)
      omega
    · rw [(born_eq hs hi).1]
      exact h.positive p i hp' hne hi
  · -- the step is `userinit`, which fills one slot only
    obtain rfl := Option.some.inj (hq.symm.trans hp')
    obtain ⟨_, hall⟩ := h.blank hn
    rcases hs.state_cases i with he | hc
    · exact absurd (he.trans (hall i)) hi'
    · rw [hall i] at hc
      generalize hst : s'.state i = st at hc
      cases hc with
      | init _ hi => exact absurd (Option.some.inj (hi.symm.trans hq)) hne
      | @alloc r hr | @forkRun r _ hr => rw [hall r] at hr; exact absurd hr (by simp)
      | forkFail => exact absurd hst hi'

end

theorem present_keep (hs : Step s s') {i q : Slot} (hi : s.state i ≠ .UNUSED)
    (hpar : s'.parent i = some q) : s'.state i ≠ .UNUSED := by
  rcases hs.state_cases i with he | hc
  · rw [he]
    exact hi
  · intro hu
    rw [hu] at hc
    generalize s.state i = st at hc
    cases hc with
    | forkFail _ _ _ hn | reap _ _ _ hn => rw [hn] at hpar; exact absurd hpar (by simp)

section

variable (h : TreeInv s) (hs : Step s s') (i q : Slot) (hpar : s'.parent i = some q)

include h hs i q hpar

theorem present_step : s'.state i ≠ .UNUSED := by
  rcases hs.parent_cases i with he | ⟨p, _, _, _, hp', _⟩ | ⟨p, _, _, hp, _, _⟩ | ⟨hn, _⟩
  · exact present_keep hs (h.present i q (he.symm.trans hpar)) hpar
  · rw [(forked_step h hs p i (by rw [hp']; rfl)).1]
    simp
  · exact present_keep hs (h.present i p hp) hpar
  · rw [hn] at hpar
    exact absurd hpar (by simp)

theorem parent_live_step : Live (s'.state q) := by
  rcases hs.parent_cases i with he | ⟨p, hp, hr, _, _, hq⟩ | ⟨p, _, _, _, _, hq⟩ | ⟨hn, _⟩
  · have hpar0 := he.symm.trans hpar
    rcases live_step h hs (h.live i q hpar0) with hl | ⟨status, hx⟩
    · exact hl
    · -- at the end of exit() there are no children left
      refine absurd hpar0 (h.orphaned q i ?_)
      rw [hx]
      exact i.isLt
  · obtain rfl := Option.some.inj (hq.symm.trans hpar)
    rcases live_step h hs (.inr (.inr hr)) with hl | ⟨status, hx⟩
    · exact hl
    · rw [hp] at hx
      exact absurd hx (by simp)
  · exact (init_step h hs q (initproc_step hs (hq.symm.trans hpar))).1
  · rw [hn] at hpar
    exact absurd hpar (by simp)

theorem older_step : s'.born q < s'.born i := by
  rcases hs.parent_cases i with he | ⟨p, _, _, _, hp', hq⟩ | ⟨p, _, _, hp, _, hq⟩ | ⟨hn, _⟩
  · have hpar0 := he.symm.trans hpar
    rw [(born_eq hs (live_ne_unused (h.live i q hpar0))).1,
      (born_eq hs (h.present i q hpar0)).1]
    exact h.older i q hpar0
  · obtain rfl := Option.some.inj (hq.symm.trans hpar)
    exact (forked_step h hs p i (by rw [hp']; rfl)).2
  · have hinit := hq.symm.trans hpar
    rw [(init_step h hs q (initproc_step hs hinit)).2]
    refine positive_step h hs q i (initproc_step hs hinit) ?_ (present_step h hs i q hpar)
    -- initproc has no parent: it would have to be older than number 0
    rintro rfl
    have := h.older i p hp
    rw [(h.init i hinit).2] at this
    omega
  · rw [hn] at hpar
    exact absurd hpar (by simp)

end

end Keep

theorem treeInv_step {s s' : State} (h : TreeInv s) (hs : Step s s') : TreeInv s' where
  fits := fits_step h hs
  blank := blank_step h hs
  init := init_step h hs
  positive := positive_step h hs
  numbered := numbered_step h hs
  forked := forked_step h hs
  forkers := forkers_step h hs
  notInit := notInit_step h hs
  orphaned := orphaned_step h hs
  live := parent_live_step h hs
  present := present_step h hs
  older := older_step h hs

theorem treeInv_init : TreeInv init where
  fits _ := rfl
  blank _ := ⟨rfl, fun _ => rfl⟩
  init _ hp := absurd hp (by simp [init])
  positive _ _ hp := absurd hp (by simp [init])
  numbered _ hi := absurd rfl hi
  forked _ _ hp := absurd hp (by simp [init, Path.forking])
  forkers _ _ _ hp := absurd hp (by simp [init, Path.forking])
  notInit _ hp := absurd hp (by simp [init, Path.exiting])
  orphaned _ _ hi := absurd hi (by simp [init, Path.clearedTo])
  live _ _ hp := absurd hp (by simp [init, parent, Proc.init])
  present _ _ hp := absurd hp (by simp [init, parent, Proc.init])
  older _ _ hp := absurd hp (by simp [init, parent, Proc.init])

theorem run_treeInv {s : State} (h : Run s) : TreeInv s :=
  h.invariant TreeInv (fun _ hs => by rw [hs]; exact treeInv_init)
    (fun _ _ hi hs => treeInv_step hi hs)

/-! ## §4. The tree. -/

def forkedState : State :=
  let s1 := (init.userinit 0).dispatch 0
  let s2 := (s1.goto 0 (.forkScan 0)).goto 0 (.forkScan 1)
  let s3 := ((s2.allocproc 1 (s2.born 0)).setLock 1 (some 0)).goto 0 (.forkCopy 1)
  let s4 := ((s3.setProc 1 { s3.proc 1 with
    sz := (s3.proc 0).sz, trapframe := some 0, pagetable := some ⟨0, fun _ => none⟩ }).setLock 1
      none).goto 0 (.forkLink 1)
  let s5 := (s4.setProc 1 { s4.proc 1 with parent := some 0 }).goto 0 (.forkRun 1)
  (s5.setProc 1 { s5.proc 1 with state := .RUNNABLE }).goto 0 .user

theorem run_forkedState : Run forkedState := by
  have h0 : Run init := .start rfl
  have h1 := h0.next (@Step.userinit _ 0 rfl rfl (fun j hj => absurd hj (Fin.not_lt_zero j)))
  have h2 := h1.next (@Step.dispatch _ 0 rfl rfl)
  have h3 := (h2.next (@Step.move _ 0 _ _ rfl rfl .fork)).next
    (@Step.move _ 0 _ _ rfl rfl (@Move.forkSkip _ _ 0 rfl (by decide)))
  have h4 := h3.next (@Step.forkAlloc _ 0 1 rfl rfl rfl rfl)
  have h5 := h4.next (@Step.forkCopied _ 0 1 rfl rfl 0 ⟨0, fun _ => none⟩)
  exact (h5.next (@Step.forkLink _ 0 1 rfl rfl rfl)).next (@Step.forkRun _ 0 1 rfl rfl rfl)

end Xv6.Lifecycle
