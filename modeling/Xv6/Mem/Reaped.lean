/-
  Xv6.Mem.Reaped — a reaped process has given back all its memory.

  `exit` leaves the thread table alone and `freeproc` does not look at it: the trapframe
  pages of threads that are left over are lost.
-/
import Xv6.Mem.NoDoubleFree

namespace Xv6.Mem

open Lib Function Multiset

variable {ld : Layout} {s s' : State} {own own' : Slot → Multiset Pa} {a : Act}

/-! ## §1. The condition. -/

/-- The created threads, those outside entry 0, are all cleaned up. -/
def NoThreadLeft (threads : ThreadTable) : Prop :=
  ∀ i, i ≠ 0 → (threads i).state = .THREAD_FREE

instance (threads : ThreadTable) : Decidable (NoThreadLeft threads) :=
  inferInstanceAs (Decidable (∀ _, _))

/-- thread_cleanup spares the main thread, and `exit` finds no other thread. -/
def CleanExit (s : State) : Act → Prop
  | .threadCleanup p tid => SparesMain (s.proc p).threads tid
  | .exit p _ => NoThreadLeft (s.proc p).threads
  | _ => True

instance (s : State) : (a : Act) → Decidable (CleanExit s a)
  | .threadCleanup .. => inferInstanceAs (Decidable (SparesMain _ _))
  | .exit .. => inferInstanceAs (Decidable (NoThreadLeft _))
  | .fork .. | .createThread .. | .joinThread .. | .growproc .. | .exec .. | .callExit ..
  | .wait .. | .goOn .. | .dispatch .. | .leave .. | .wakeup .. => inferInstanceAs (Decidable True)

theorem CleanExit.spares (h : CleanExit s a) : Spares s a := by
  cases a <;> first | exact h | trivial

theorem NoThreadLeft.threadPages {threads : ThreadTable} (h : NoThreadLeft threads) :
    threadPages threads = 0 := by
  refine Finset.sum_eq_zero fun i _ => ?_
  by_cases hi : i = 0
  · rw [hi, threadPage_main]
  · exact threadPage_free (h i hi)

theorem NoThreadLeft.parked {threads : ThreadTable} (h : NoThreadLeft threads)
    (thread : Option (Fin MAX_THREAD)) : NoThreadLeft (parked threads thread) := by
  intro i hi
  unfold Xv6.parked
  cases thread with
  | none => exact h i hi
  | some t =>
    dsimp only
    split
    · next hrun =>
      have hti : i ≠ t := fun e => by
        rw [← e, h i hi] at hrun
        cases hrun
      rw [update_of_ne hti]
      exact h i hi
    · exact h i hi

/-! ## §2. What a step does to states and numbers. -/

/-- What a step can do to the state and the threads of slot `q`. -/
inductive SlotChange (s s' : State) (a : Act) (q : Slot) : Prop
  | same (hstate : (s'.proc q).state = (s.proc q).state)
    (hthreads : (s'.proc q).threads = (s.proc q).threads)
  | live (hl : Live (s.proc q).state) (hl' : Live (s'.proc q).state)
  | taken (p : Slot) (ha : a = .fork p q) (hst : (s.proc q).state = .UNUSED)
    (hst' : (s'.proc q).state = .USED)
  | forked (p : Slot) (r : Option (Pa × Image)) (hw : s.path p = .work (.child q (.ret r)))
    (hr : s'.proc q = forked (s.proc q) p r)
  | exits (status : Int) (ha : a = .exit q status) (hst' : (s'.proc q).state = .ZOMBIE)
    (hl : Live (s.proc q).state)
    (hthreads : (s'.proc q).threads = parked (s.proc q).threads (s.thread q))
  | reaped (p : Slot) (hw : s.path p = .work (.reap q (.ret ()))) (hs' : s' = reapDone s p q)

theorem Step.slotChange (hs : Step ld a s s') (q : Slot) : SlotChange s s' a q := by
  cases hs with
  | @fork _ p np parent hp himage hnp =>
    by_cases hq : q = np
    · subst hq
      exact .taken p rfl hnp (by simp [startFork, Proc.allocated])
    · exact .same (by simp [startFork, hq]) (by simp [startFork, hq])
  | @forkDone _ p np r hrun hw =>
    by_cases hq : q = np
    · subst hq
      exact .forked p r hw (by simp)
    · exact .same (by simp [hq]) (by simp [hq])
  | createThread hp | threadCleanup hp | growproc hp himage | exec hp himage htf | callExit hp
  | wait hp hchild hzombie hfree | effect hrun hw hstep => exact .same rfl rfl
  | @threadsDone _ p r hrun hw =>
    by_cases hq : q = p
    · subst hq
      exact .live (.inr (.inr hrun)) (.inr (.inr (by simp [hrun])))
    · exact .same (by simp [hq]) (by simp [hq])
  | @joinThread _ p tid r hp hr =>
    by_cases hq : q = p
    · subst hq
      exact .live (.inr (.inr hp.1)) (.inr (.inr (by simp [hp.1])))
    · exact .same (by simp [hq]) (by simp [hq])
  | @imageDone _ p r hrun hw =>
    by_cases hq : q = p
    · subst hq
      exact .same (by cases r <;> simp [withImage]) (by cases r <;> simp [withImage])
    · exact .same (by simp [hq]) (by simp [hq])
  | @exit _ p status ticks hrun hpath hinit =>
    have hrep : ∀ q, (reparented s p q).state = (s.proc q).state ∧
        (reparented s p q).threads = (s.proc q).threads := fun q => by
      unfold reparented
      split <;> exact ⟨rfl, rfl⟩
    by_cases hq : q = p
    · subst hq
      exact .exits status rfl (by simp [exited, switchedOut]) (.inr (.inr hrun))
        (by simp [exited, switchedOut, (hrep q).2])
    · exact .same (by simp [exited, hq, (hrep q).1]) (by simp [exited, hq, (hrep q).2])
  | @waitDone _ p pp hrun hw =>
    by_cases hq : q = pp
    · subst hq
      exact .reaped p hw rfl
    · exact .same (by simp [reapDone, hq]) (by simp [reapDone, hq])
  | @dispatch _ p c ticks hp hc =>
    by_cases hq : q = p
    · subst hq
      refine .live (.inr (.inl hp)) (.inr (.inr ?_))
      cases c <;> simp [dispatched]
    · exact .same (by simp [hq]) (by simp [hq])
  | @leave _ p state ticks hrun hpath hstate =>
    by_cases hq : q = p
    · subst hq
      refine .live (.inr (.inr hrun)) ?_
      simp only [State.setThread_proc, State.setPath_proc, State.setProc_proc, if_pos]
      exact hstate.elim (fun e => .inr (.inl e)) fun e => .inl e.1
    · exact .same (by simp [hq]) (by simp [hq])
  | @wakeup _ p hp =>
    by_cases hq : q = p
    · subst hq
      exact .live (.inl hp) (.inr (.inl (by simp)))
    · exact .same (by simp [hq]) (by simp [hq])

theorem Step.numbers (hs : Step ld a s s') :
    ((∀ p np, a ≠ .fork p np) ∧ s'.born = s.born ∧ s'.nextBorn = s.nextBorn ∧
        s'.reaped = s.reaped) ∨
      (∃ p np, a = .fork p np ∧ (s.proc np).state = .UNUSED ∧ s'.reaped = s.reaped ∧
        s'.born = update s.born np s.nextBorn ∧ s'.nextBorn = s.nextBorn + 1) ∨
      ∃ p pp, s.path p = .work (.reap pp (.ret ())) ∧ s' = reapDone s p pp := by
  cases hs with
  | @fork _ p np parent hp himage hnp => exact .inr (.inl ⟨p, np, rfl, hnp, rfl, rfl, rfl⟩)
  | @waitDone _ p pp hrun hw => exact .inr (.inr ⟨p, pp, hw, rfl⟩)
  | _ => exact .inl ⟨nofun, rfl, rfl, rfl⟩

/-! ## §3. Invariants. -/

def ZombiesClean (s : State) : Prop :=
  ∀ q, (s.proc q).state = .ZOMBIE → NoThreadLeft (s.proc q).threads

theorem step_zombiesClean (h : ZombiesClean s) (hs : Step ld a s s') (hok : CleanExit s a) :
    ZombiesClean s' := by
  intro q hz
  cases hs.slotChange q with
  | same hstate hthreads => exact hthreads ▸ h q (hstate ▸ hz)
  | live hl hl' =>
    rw [hz] at hl'
    exact absurd hl' (by decide)
  | taken p ha hst hst' =>
    rw [hz] at hst'
    cases hst'
  | forked p r hw hr =>
    rw [hr] at hz
    cases r <;> cases hz
  | exits status ha hst' hl hthreads =>
    subst ha
    rw [hthreads]
    exact NoThreadLeft.parked hok _
  | reaped p hw hs' =>
    subst hs'
    simp [reapDone, Proc.freed] at hz

/-- Numbers tell processes apart, and those of reaped ones are not used again. -/
structure Numbered (s : State) : Prop where
  pos : 0 < s.nextBorn
  range : ∀ q, (s.proc q).state ≠ .UNUSED → 0 < s.born q ∧ s.born q < s.nextBorn
  inj : ∀ q q', (s.proc q).state ≠ .UNUSED → (s.proc q').state ≠ .UNUSED →
    s.born q = s.born q' → q = q'
  gone : ∀ b ∈ s.reaped, 0 < b ∧ b < s.nextBorn ∧
    ∀ q, (s.proc q).state ≠ .UNUSED → s.born q ≠ b

theorem Step.used_before {q : Slot} (hs : Step ld a s s') (howns : Owns s own)
    (hne : (s'.proc q).state ≠ .UNUSED) (hfork : ∀ p, a ≠ .fork p q) :
    (s.proc q).state ≠ .UNUSED := by
  cases hs.slotChange q with
  | same hstate _ => exact hstate ▸ hne
  | live hl _ | exits _ _ _ hl _ =>
    intro he
    rw [he] at hl
    exact absurd hl (by decide)
  | taken p ha _ _ => exact absurd ha (hfork p)
  | forked p r hw _ =>
    rw [show (s.proc q).state = .USED from (howns.busy p _ hw).1]
    exact nofun
  | reaped p hw _ =>
    rw [show (s.proc q).state = .ZOMBIE from (howns.busy p _ hw).1]
    exact nofun

theorem step_numbered (h : Numbered s) (hs : Step ld a s s') (howns : Owns s own) :
    Numbered s' := by
  rcases hs.numbers with ⟨ha, hborn, hnext, hreaped⟩ |
      ⟨p, np, ha, hnp, hreaped, hborn, hnext⟩ | ⟨p, pp, hw, rfl⟩
  · have hused : ∀ q, (s'.proc q).state ≠ .UNUSED → (s.proc q).state ≠ .UNUSED := fun q hq =>
      hs.used_before howns hq fun p => ha p q
    constructor
    · exact hnext ▸ h.pos
    · intro q hq
      rw [hborn, hnext]
      exact h.range q (hused q hq)
    · intro q q' hq hq' he
      rw [hborn] at he
      exact h.inj q q' (hused q hq) (hused q' hq') he
    · intro b hb
      rw [hreaped] at hb
      rw [hborn, hnext]
      obtain ⟨hpos, hlt, hgone⟩ := h.gone b hb
      exact ⟨hpos, hlt, fun q hq => hgone q (hused q hq)⟩
  · -- fork: the new number is above all others
    have hself : s'.born np = s.nextBorn := by rw [hborn, update_self]
    have hold : ∀ q, q ≠ np → (s'.proc q).state ≠ .UNUSED →
        (s.proc q).state ≠ .UNUSED ∧ s'.born q = s.born q := by
      intro q hne hq
      refine ⟨hs.used_before howns hq fun p' he => ?_, by rw [hborn, update_of_ne hne]⟩
      rw [ha] at he
      injection he with _ he
      exact hne he.symm
    have hlt : ∀ q, q ≠ np → (s'.proc q).state ≠ .UNUSED →
        0 < s'.born q ∧ s'.born q < s.nextBorn := by
      intro q hne hq
      rw [(hold q hne hq).2]
      exact h.range q (hold q hne hq).1
    have hpos := h.pos
    constructor
    · omega
    · intro q hq
      by_cases hne : q = np
      · rw [hne, hself]
        omega
      · have := hlt q hne hq
        omega
    · intro q q' hq hq' he
      by_cases hne : q = np <;> by_cases hne' : q' = np
      · rw [hne, hne']
      · have := hlt q' hne' hq'
        rw [← he, hne, hself] at this
        omega
      · have := hlt q hne hq
        rw [he, hne', hself] at this
        omega
      · obtain ⟨hu, hb⟩ := hold q hne hq
        obtain ⟨hu', hb'⟩ := hold q' hne' hq'
        rw [hb, hb'] at he
        exact h.inj q q' hu hu' he
    · intro b hb
      rw [hreaped] at hb
      obtain ⟨hb0, hbn, hgone⟩ := h.gone b hb
      refine ⟨hb0, by omega, fun q hq => ?_⟩
      by_cases hne : q = np
      · rw [hne, hself]
        omega
      · rw [(hold q hne hq).2]
        exact hgone q (hold q hne hq).1
  · have hproc : ∀ q, (reapDone s p pp).proc q =
        if q = pp then (s.proc pp).freed else s.proc q := fun q => by simp [reapDone]
    have hused : ∀ q, ((reapDone s p pp).proc q).state ≠ .UNUSED →
        q ≠ pp ∧ (s.proc q).state ≠ .UNUSED := by
      intro q hq
      rw [hproc q] at hq
      split at hq
      · exact absurd rfl hq
      · next hne => exact ⟨hne, hq⟩
    have hzombie : (s.proc pp).state ≠ .UNUSED := by
      rw [show (s.proc pp).state = .ZOMBIE from (howns.busy p _ hw).1]
      simp
    constructor
    · exact h.pos
    · exact fun q hq => h.range q (hused q hq).2
    · exact fun q q' hq hq' he => h.inj q q' (hused q hq).2 (hused q' hq').2 he
    · intro b hb
      rcases List.mem_append.mp hb with hb | hb
      · obtain ⟨hpos, hlt, hgone⟩ := h.gone b hb
        exact ⟨hpos, hlt, fun q hq => hgone q (hused q hq).2⟩
      · cases List.mem_singleton.mp hb
        obtain ⟨hpos, hlt⟩ := h.range pp hzombie
        refine ⟨hpos, hlt, fun q hq he => ?_⟩
        exact (hused q hq).1 (h.inj q pp (hused q hq).2 hzombie he)

/-- A page that is owed is owned by a slot with that number, or was taken
before there were processes. -/
def Charged (s : State) (own : Slot → Multiset Pa) : Prop :=
  ∀ b pa, Owed s.heap.trace b pa → b = 0 ∨ ∃ q, s.born q = b ∧ pa ∈ own q

theorem Step.born_eq {q : Slot} {pa : Pa} (hs : Step ld a s s') (howns : Owns s own)
    (hpa : pa ∈ own q) : s'.born q = s.born q := by
  rcases hs.numbers with ⟨_, hborn, _⟩ | ⟨p, np, _, hnp, _, hborn, _⟩ | ⟨p, pp, _, rfl⟩
  · rw [hborn]
  · have hne : q ≠ np := by
      rintro rfl
      rw [howns.own_unused hnp] at hpa
      exact notMem_zero pa hpa
    rw [hborn, update_of_ne hne]
  · rfl

theorem step_charged (h : Charged s own) (hz : ZombiesClean s) (hs : Step ld a s s')
    (howns : Owns s own) (hshift : Shift s s' own own') : Charged s' own' := by
  cases hshift with
  | still hheap hown =>
    intro b pa howed
    rw [hheap] at howed
    refine (h b pa howed).imp_right fun ⟨q, hq, hpa⟩ => ⟨q, ?_, hown ▸ hpa⟩
    rw [hs.born_eq howns hpa, hq]
  | moves q o hown hm hborn =>
    rw [hown]
    unfold Charged
    rw [hborn]
    -- the other slots own what they owned
    have hkeep : ∀ b pa, (b = 0 ∨ ∃ q, s.born q = b ∧ pa ∈ own q) → (pa ∈ own q → pa ∈ o) →
        b = 0 ∨ ∃ q', s.born q' = b ∧ pa ∈ update own q o q' := by
      intro b pa howner hpass
      refine howner.imp_right fun ⟨q', hq', hpa⟩ => ⟨q', hq', ?_⟩
      by_cases hqq : q' = q
      · subst hqq
        rw [update_self]
        exact hpass hpa
      · rwa [update_of_ne hqq]
    intro b pa howed
    cases hm with
    | quiet _ ht ho =>
      rw [ht] at howed
      exact hkeep b pa (h b pa howed) fun hpa => ho ▸ hpa
    | alloc r _ ht ho =>
      rw [ht] at howed
      rcases owed_alloc howed with ⟨rfl, rfl⟩ | howed
      · refine .inr ⟨q, rfl, ?_⟩
        rw [update_self, ho]
        exact mem_cons_self _ _
      · exact hkeep b pa (h b pa howed) fun hpa => ho ▸ mem_cons_of_mem hpa
    | free r _ ht ho =>
      rw [ht] at howed
      obtain ⟨hne, howed⟩ := owed_free howed
      refine hkeep b pa (h b pa howed) fun hpa => ?_
      rw [ho] at hpa
      exact (mem_cons.mp hpa).resolve_left hne
  | reaps pp hheap hown hzombie hleft =>
    intro b pa howed
    rw [hheap] at howed
    refine (h b pa howed).imp_right fun ⟨q, hq, hpa⟩ => ⟨q, ?_, ?_⟩
    · rw [hs.born_eq howns hpa, hq]
    · have hne : q ≠ pp := by
        rintro rfl
        rw [hleft, (hz q hzombie).threadPages] at hpa
        exact notMem_zero pa hpa
      rwa [hown, update_of_ne hne]

/-! ## §4. Runs. -/

theorem boot_charged {n : Nat} (h : boot ld n = some s) (own : Slot → Multiset Pa) :
    Charged s own := by
  obtain ⟨⟨r, heap⟩, hrun, he⟩ := Option.map_eq_some_iff.mp h
  subst he
  obtain ⟨_, _, hzero⟩ := Prog.run_wp
    (fun h _ => ∀ b pa, Owed h.trace b pa → b = 0)
    (fun h h' own own' hi hm b pa howed => by
      cases hm with
      | quiet _ ht _ => exact hi b pa (ht ▸ howed)
      | alloc r _ ht _ =>
        rw [ht] at howed
        rcases owed_alloc howed with ⟨hb, _⟩ | howed
        · exact hb
        · exact hi b pa howed
      | free r _ ht _ =>
        rw [ht] at howed
        exact hi b pa (owed_free howed).2)
    (bootProg_wp ld n 0)
    (fun b pa ⟨l₁, l₂, htr, _⟩ => absurd htr (kinit_no_alloc ld b pa l₁ l₂)) hrun
  exact fun b pa howed => .inl (hzero b pa howed)

theorem boot_numbered {n : Nat} (h : boot ld n = some s) : Numbered s := by
  obtain ⟨⟨r, heap⟩, _, he⟩ := Option.map_eq_some_iff.mp h
  subst he
  have hfirst : ∀ q, ((firstState r heap).proc q).state ≠ .UNUSED → q = 0 := by
    intro q hq
    by_contra hne
    exact hq (by simp [firstState, hne, Proc.init])
  constructor
  · exact Nat.zero_lt_two
  · exact fun _ _ => ⟨Nat.zero_lt_one, Nat.one_lt_two⟩
  · intro q q' hq hq' _
    rw [hfirst q hq, hfirst q' hq']
  · intro b hb
    cases hb

theorem boot_zombiesClean {n : Nat} (h : boot ld n = some s) : ZombiesClean s := by
  obtain ⟨⟨r, heap⟩, _, he⟩ := Option.map_eq_some_iff.mp h
  subst he
  intro q hz
  have hproc : (firstState r heap).proc q = if q = 0 then firstProc r else Proc.init := rfl
  rw [hproc] at hz
  split at hz <;> cases hz

structure CleanInv (s : State) (own : Slot → Multiset Pa) : Prop where
  inv : Inv s own
  zombies : ZombiesClean s
  numbered : Numbered s
  charged : Charged s own

theorem run_cleanInv (h : RunWith ld CleanExit s) : ∃ own, CleanInv s own := by
  refine Reachable.invariant (fun s => ∃ own, CleanInv s own) ?_ ?_ h
  · rintro s ⟨n, hn⟩
    obtain ⟨own, hinv⟩ := boot_owns hn
    exact ⟨own, hinv, boot_zombiesClean hn, boot_numbered hn, boot_charged hn own⟩
  · rintro s s' ⟨own, hc⟩ ⟨a, hs, hok⟩
    obtain ⟨own', hinv', hshift⟩ := step_inv hc.inv hs hok.spares
    exact ⟨own', hinv', step_zombiesClean hc.zombies hs hok,
      step_numbered hc.numbered hs hc.inv.1,
      step_charged hc.charged hc.zombies hs hc.inv.1 hshift⟩

theorem CleanInv.nothing_owed (h : CleanInv s own) {b : Nat} (hb : b ∈ s.reaped) (pa : Pa) :
    ¬ Owed s.heap.trace b pa := by
  intro howed
  obtain ⟨hpos, _, hgone⟩ := h.numbered.gone b hb
  rcases h.charged b pa howed with h0 | ⟨q, hq, hpa⟩
  · omega
  · refine hgone q (fun hun => ?_) hq
    rw [h.inv.1.own_unused hun] at hpa
    exact notMem_zero pa hpa

/-- Every page taken for the process `b` was given back. -/
def AllReturned (s : State) (b : Nat) : Prop :=
  ∀ l₁ l₂ pa, s.heap.trace = l₁ ++ .alloc b pa :: l₂ →
    .free pa ∈ l₂ ∧ ((∀ who, .alloc who pa ∉ l₂) → pa ∈ s.heap.free)

/-- **A reaped process has returned all its memory**, as long as every `exit`
finds the created threads cleaned up. -/
theorem reaped_memory_returned (ld : Layout) (s : State) (h : RunWith ld CleanExit s) :
    ∀ b ∈ s.reaped, AllReturned s b := by
  obtain ⟨own, hc⟩ := run_cleanInv h
  intro b hb l₁ l₂ pa htr
  have hfree : .free pa ∈ l₂ := by
    by_contra hno
    exact hc.nothing_owed hb pa ⟨l₁, l₂, htr, hno⟩
  refine ⟨hfree, fun hnot => hc.inv.2.returned pa ?_⟩
  obtain ⟨l, l', rfl⟩ := List.append_of_mem hfree
  refine ⟨l₁ ++ .alloc b pa :: l, l', by rw [htr]; simp, fun who hw => hnot who ?_⟩
  exact List.mem_append_right _ (List.mem_cons_of_mem _ hw)

/-! ## §5. Threads that are left over. -/

/-- The child makes a thread and exits; init waits for it. -/
def threadLeft : List Call :=
  [.dispatch 0, .fork 0 1, .leave 0, .dispatch 1, .createThread 1, .exit 1 0, .dispatch 0,
    .wait 0 1]

/-- The page of the thread's trapframe is never freed. -/
theorem thread_trapframe_lost :
    ∃ s, RunWith smallLayout AnyCall s ∧ ∃ b ∈ s.reaped, ¬ AllReturned s b := by
  have hcalls : ((bootCalls smallLayout AnyCall threadLeft).any fun s =>
      2 ∈ s.reaped ∧ ∃ pa ∈ freerange smallLayout.kend, Owed s.heap.trace 2 pa) = true := by
    decide +kernel
  obtain ⟨s, hs, htest⟩ :=
    exists_run_bootCalls (fun _ _ => trivial) (fun _ _ _ => trivial) hcalls
  obtain ⟨hreaped, pa, _, l₁, l₂, htr, hno⟩ := of_decide_eq_true htest
  exact ⟨s, hs, 2, hreaped, fun hall => hno (hall l₁ l₂ pa htr).1⟩

/-- The child stops its thread before it exits. -/
def threadStopped : List Call :=
  [.dispatch 0, .createThread 0, .fork 0 1, .leave 0, .dispatch 1, .createThread 1,
    .threadCleanup 1 4, .leave 1, .dispatch 1, .exit 1 0, .dispatch 0, .wait 0 1]

theorem reaped_memory_returned_threadStopped :
    ∃ s, RunWith smallLayout CleanExit s ∧ 2 ∈ s.reaped ∧ ∀ b ∈ s.reaped, AllReturned s b := by
  have hcalls : ((bootCalls smallLayout CleanExit threadStopped).any fun s =>
      2 ∈ s.reaped) = true := by
    decide +kernel
  obtain ⟨s, hs, htest⟩ :=
    exists_run_bootCalls (fun _ _ => trivial) (fun _ _ _ => trivial) hcalls
  exact ⟨s, hs, of_decide_eq_true htest, reaped_memory_returned smallLayout s hs⟩

/-! ## §6. The pages of all processes. -/

/-- The free list and the pages that the records of all slots lead to. -/
def allPages (s : State) : Multiset Pa := s.heap.free + ∑ q, recordPages (s.proc q)

theorem Shift.conserve (h : Shift s s' own own') (hz : ZombiesClean s) :
    (s'.heap.free : Multiset Pa) + ∑ q, own' q = s.heap.free + ∑ q, own q := by
  cases h with
  | still hheap hown => rw [hheap, hown]
  | moves q o hown hm hborn =>
    rw [hown, Finset.sum_update_of_mem (Finset.mem_univ q), Finset.sdiff_singleton_eq_erase,
      ← Finset.add_sum_erase _ own (Finset.mem_univ q), ← add_assoc, ← add_assoc, hm.conserve]
  | reaps pp hheap hown hzombie hleft =>
    -- `freeproc` has left nothing, since no thread was left
    have hnone : own pp = 0 := hleft.trans (hz pp hzombie).threadPages
    rw [hheap, hown, ← hnone, update_eq_self]

theorem Owns.allPages (h : Owns s own) (hidle : ∀ q, ¬ s.Busy q) :
    allPages s = s.heap.free + ∑ q, own q := by
  unfold Mem.allPages
  rw [Finset.sum_congr rfl fun q _ => (h.idle q (hidle q)).1.symm]

/-- **No page is lost and none appears**: whatever calls have run since boot, interleaved in any
way and failing at any allocation, the same pages are there once no call is under way. -/
theorem pages_conserved (ld : Layout) (n : Nat) (s₀ s : State) (hboot : boot ld n = some s₀)
    (h : Reachable (· = s₀) (fun s s' => ∃ a, Step ld a s s' ∧ CleanExit s a) s)
    (hidle : ∀ q, ¬ s.Busy q) : allPages s = allPages s₀ := by
  have hrun : ∃ own, Inv s own ∧ ZombiesClean s ∧
      (s.heap.free : Multiset Pa) + ∑ q, own q = allPages s₀ := by
    refine Reachable.invariant (fun s => ∃ own, Inv s own ∧ ZombiesClean s ∧
      (s.heap.free : Multiset Pa) + ∑ q, own q = allPages s₀) ?_ ?_ h
    · rintro s rfl
      obtain ⟨own, hinv⟩ := boot_owns hboot
      obtain ⟨⟨r, heap⟩, _, he⟩ := Option.map_eq_some_iff.mp hboot
      refine ⟨own, hinv, boot_zombiesClean hboot, (hinv.1.allPages ?_).symm⟩
      rintro q ⟨p, w, hw, _⟩
      rw [← he] at hw
      cases hw
    · rintro s s' ⟨own, hinv, hz, hsum⟩ ⟨a, hs, hok⟩
      obtain ⟨own', hinv', hshift⟩ := step_inv hinv hs hok.spares
      exact ⟨own', hinv', step_zombiesClean hz hs hok, (hshift.conserve hz).trans hsum⟩
  obtain ⟨own, hinv, _, hsum⟩ := hrun
  exact (hinv.1.allPages hidle).trans hsum

theorem pages_conserved_threadStopped :
    ∃ n s₀ s, boot smallLayout n = some s₀ ∧ 2 ∈ s.reaped ∧ allPages s = allPages s₀ := by
  have hcalls : ((bootCalls smallLayout CleanExit threadStopped).any fun s =>
      2 ∈ s.reaped ∧ nobodyWorks s) = true := by
    decide +kernel
  obtain ⟨s, hs, htest⟩ :=
    exists_run_bootCalls (fun _ _ => trivial) (fun _ _ _ => trivial) hcalls
  obtain ⟨hreaped, hidle⟩ := of_decide_eq_true htest
  obtain ⟨s₀, ⟨n, hboot⟩, hrun⟩ := Reachable.exists_start hs
  exact ⟨n, s₀, s, hboot, hreaped,
    pages_conserved smallLayout n s₀ s hboot hrun (not_busy_of_nobodyWorks hidle)⟩

end Xv6.Mem
