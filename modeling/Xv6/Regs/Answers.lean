/-
  Xv6.Regs.Answers — what join_thread and stop_thread leave in a0.

  A call that finds a thread ends with `yield(); usertrapret()` and does not come
  back to `syscall`, which writes a0: the caller resumes with its own argument there.
-/
import Xv6.Regs.Faults

namespace Xv6.Regs

open Lib Function Option

/-! ## §1. The calls. -/

section Calls

variable (s : State) (a : Act) (t : Fin MAX_THREAD)

def State.tid : UInt32 := s.frame.a0.toUInt32

def HasTarget : Prop :=
  ∃ i, (s.proc.threads i).id = s.tid ∧ (s.proc.threads i).state ≠ .THREAD_FREE ∧
    match a with
    | .stopThread => i ≠ t
    | _ => True

/-- No live thread has it, and stop_thread finds no entry at all. -/
def NoTarget : Prop :=
  match a with
  | .stopThread => s.tid ≠ -1 ∧ ∀ i, (s.proc.threads i).id ≠ s.tid
  | _ => ∀ i, (s.proc.threads i).id = s.tid → (s.proc.threads i).state = .THREAD_FREE

def isCreate : Act → Bool
  | .createThread => true
  | _ => false

def Away : Prop :=
  (s.Running → s.current = t → s.path.inKernel = true) ∧
    (isCreate a = true → (s.proc.threads t).state ≠ .THREAD_FREE)

instance : Decidable (Away s a t) := inferInstanceAs (Decidable (_ ∧ _))

/-- Thread `t`, which has been away since `s`, is about to enter user mode. -/
structure BackIn (kend : Pa) (t : Fin MAX_THREAD) (s s' : State) : Prop where
  run : Reachable (· = s) (fun s s' => ∃ a, step kend s a = some s' ∧ Kept s a ∧ Away s a t) s'
  running : s'.Running
  path : s'.path = .ret
  current : s'.current = t

/-- **What the calls promise**, for a call in `s` that has left `s₁` and a caller
that is back in `s₂`. -/
structure Documented (s₁ s₂ : State) : Prop where
  found : HasTarget s a t → s₂.frame.a0 = 0
  missing : (∀ i, (s.proc.threads i).id = s.tid → (s.proc.threads i).state = .THREAD_FREE) →
    s₂.frame.a0 = -1 ∧ s₁.proc.threads = s.proc.threads

end Calls

/-! ## §2. The way of a result. -/

/-- The result `v` is on its way to thread `t`, or has arrived. -/
def Answered (t : Fin MAX_THREAD) (v : UInt64) (s : State) : Prop :=
  s.path = .result t v ∨ s.path.maker ≠ some t ∧ (s.last t).a0 = v

section Steps

variable {kend : Pa} {s s' : State} {a : Act} {t u : Fin MAX_THREAD} {v : UInt64}
  {num : Int}

/-- The kernel works for `u`, or takes `u` out of user mode. -/
def WorksFor (s : State) (u : Fin MAX_THREAD) : Prop :=
  s.path.maker = some u ∨ s.path.inKernel = false ∧ u = s.current

theorem afterPath_worksFor (hp : s.path.maker = some t) {after : After}
    (h : (afterPath t after).maker = some u) : WorksFor s u := by
  rw [← afterPath_maker h]
  exact .inl hp

theorem initFrame_other {old : ThreadTable} (h : (old u).state ≠ .THREAD_FREE) (f : Trapframe) :
    (initFrame old s f).last u = s.last u := by
  unfold initFrame
  split
  · rfl
  · next i hi =>
    refine update_of_ne ?_ _ _
    rintro rfl
    unfold newEntry at hi
    have hfree := List.find?_some hi
    exact h (of_decide_eq_true hfree).1

theorem trapped_worksFor {regs regs' : Trapframe} (hp : s.path = .user regs) :
    ¬ WorksFor s u → (s.trapped regs').last u = s.last u := by
  intro hno
  refine update_of_ne ?_ _ _
  rintro rfl
  exact hno (.inr ⟨by rw [hp]; rfl, rfl⟩)

theorem faultCleanup_quiet (hs : faultCleanup kend s = some s') :
    s'.path.maker = none ∧ s'.last = s.last := by
  unfold faultCleanup at hs
  split at hs
  · cases hs
    exact ⟨rfl, rfl⟩
  · obtain ⟨⟨s₁, after⟩, hthreads, rfl⟩ := map_eq_some_iff.mp hs
    obtain ⟨r, _, he⟩ := map_eq_some_iff.mp hthreads
    cases he
    cases r.1.after <;> exact ⟨rfl, rfl⟩

theorem runningStep_worksFor (hs : runningStep kend s a s.path = some s')
    (hu : isCreate a = true → (s.proc.threads u).state ≠ .THREAD_FREE) :
    (s'.path.maker = some u → WorksFor s u) ∧ (¬ WorksFor s u → s'.last u = s.last u) := by
  have hsame : ∀ {t}, s.path.maker = some t → t = u → WorksFor s u := by
    rintro t ht rfl
    exact .inl ht
  have hset : ∀ {t} f, s.path.maker = some t → ¬ WorksFor s u → update s.last t f u = s.last u := by
    intro t f ht hno
    exact update_of_ne (fun he => hno (hsame ht he.symm)) _ _
  unfold runningStep at hs
  split at hs
  case h_2 | h_3 =>
    cases hs
    exact ⟨nofun, trapped_worksFor (by assumption)⟩
  case h_4 regs hp =>
    cases hs
    refine ⟨fun h => .inr ⟨by rw [hp]; rfl, (Option.some.inj h).symm⟩, trapped_worksFor hp⟩
  case h_5 regs hp =>
    split at hs
    · obtain ⟨hmaker, hlast⟩ := faultCleanup_quiet hs
      rw [hmaker, hlast]
      exact ⟨nofun, trapped_worksFor hp⟩
    · cases hs
      exact ⟨nofun, trapped_worksFor hp⟩
  case h_6 t hp =>
    cases hs
    exact ⟨fun h => hsame (by rw [hp]; rfl) (Option.some.inj h), fun _ => rfl⟩
  case h_7 v t num hp =>
    split at hs <;> cases hs
    exact ⟨fun h => hsame (by rw [hp]; rfl) (Option.some.inj h), fun _ => rfl⟩
  case h_8 a1 epc sp t num hp =>
    have ht : s.path.maker = some t := by rw [hp]; rfl
    split at hs <;> cases hs
    exact ⟨fun h => .inl h, hset _ ht⟩
  case h_9 t num hp =>
    split at hs
    · obtain ⟨⟨s₁, after⟩, hthreads, rfl⟩ := map_eq_some_iff.mp hs
      obtain ⟨r, _, he⟩ := map_eq_some_iff.mp hthreads
      cases he
      exact ⟨afterPath_worksFor (by rw [hp]; rfl), fun _ => initFrame_other (hu rfl) _⟩
    · cases hs
  case h_10 t num hp =>
    split at hs
    · obtain ⟨r, _, rfl⟩ := map_eq_some_iff.mp hs
      exact ⟨afterPath_worksFor (by rw [hp]; rfl), fun _ => rfl⟩
    · cases hs
  case h_11 t num hp =>
    split at hs
    · unfold callStopThread at hs
      split at hs
      · cases hs
        exact ⟨fun h => hsame (by rw [hp]; rfl) (Option.some.inj h), fun _ => rfl⟩
      · obtain ⟨⟨s₁, after⟩, hthreads, rfl⟩ := map_eq_some_iff.mp hs
        obtain ⟨r, _, he⟩ := map_eq_some_iff.mp hthreads
        cases he
        exact ⟨afterPath_worksFor (by rw [hp]; rfl), fun _ => rfl⟩
    · cases hs
  case h_12 t w hp =>
    cases hs
    exact ⟨nofun, hset _ (by rw [hp]; rfl)⟩
  case h_18 =>
    split at hs <;> cases hs
    exact ⟨fun h => .inl h, fun _ => rfl⟩
  case h_16 =>
    split at hs <;> cases hs
    exact ⟨nofun, fun _ => rfl⟩
  case h_17 | h_20 | h_21 =>
    cases hs
    exact ⟨fun h => .inl h, fun _ => rfl⟩
  case h_22 => cases hs
  all_goals
    cases hs
    exact ⟨nofun, fun _ => rfl⟩

/-- **One step**, before the thread is back. -/
theorem answered_step (h : Answered t v s) (hs : step kend s a = some s') (haway : Away s a t) :
    Answered t v s' := by
  unfold step at hs
  split at hs
  · next hother =>
    cases hs
    obtain ⟨hpath, hlast⟩ := otherStep_path hother
    rw [Answered, hpath, hlast]
    exact h
  · split at hs
    · next hrun =>
      rcases h with hp | ⟨hno, hlast⟩
      · -- from the result there is only the way to `ret`
        rw [hp] at hs
        cases a with
        | store =>
          cases hs
          refine .inr ⟨nofun, ?_⟩
          show (update s.last t _ t).a0 = v
          rw [update_self]
        | preempt ticks =>
          cases hs
          exact .inl hp
        | _ => cases hs
      · obtain ⟨hmaker, hkeeps⟩ := runningStep_worksFor hs haway.2
        have hidle : ¬ WorksFor s t := by
          rintro (hp | ⟨hk, ht⟩)
          · exact hno hp
          · rw [haway.1 hrun ht.symm] at hk
            cases hk
        refine .inr ⟨fun hp => hidle (hmaker hp), ?_⟩
        rw [hkeeps hidle, hlast]
    · cases hs

/-! ## §3. Calls that find nothing. -/

theorem joinThread_missing (hp : s.path = .call t num) (hno : NoTarget s .joinThread)
    (hs : step kend s .joinThread = some s') :
    s'.path = .result t (-1) ∧ s'.proc.threads = s.proc.threads := by
  change (if s.Running then runningStep kend s .joinThread s.path else none) = some s' at hs
  rw [hp] at hs
  split at hs
  · change (if num = SYS_join_thread then callJoinThread s t else none) = some s' at hs
    split at hs
    · obtain ⟨r, hr, rfl⟩ := map_eq_some_iff.mp hs
      unfold joinThread at hr
      rw [if_neg (by rintro ⟨i, hi, hlive⟩; exact hlive (hno i hi))] at hr
      cases hr
      exact ⟨rfl, rfl⟩
    · cases hs
  · cases hs

theorem stopThread_missing (hp : s.path = .call t num) (hno : NoTarget s .stopThread)
    (hs : step kend s .stopThread = some s') :
    s'.path = .result t (-1) ∧ s'.proc.threads = s.proc.threads := by
  obtain ⟨htid, hnone⟩ := hno
  have hfind : findThread s.proc.threads s.tid = none := by
    refine List.find?_eq_none.mpr fun i _ => ?_
    simpa using hnone i
  change (if s.Running then runningStep kend s .stopThread s.path else none) = some s' at hs
  rw [hp] at hs
  split at hs
  · change (if num = SYS_stop_thread then callStopThread kend s t else none) = some s' at hs
    split at hs
    · have htarget : stopTarget s.proc.threads s.thread s.tid = some s.tid := if_neg htid
      unfold callStopThread at hs
      rw [show s.frame.a0.toUInt32 = s.tid from rfl, htarget] at hs
      obtain ⟨⟨s₁, after⟩, hthreads, rfl⟩ := map_eq_some_iff.mp hs
      obtain ⟨r, hr, he⟩ := map_eq_some_iff.mp hthreads
      unfold threadCleanup at hr
      rw [hfind] at hr
      cases hr
      cases he
      refine ⟨?_, rfl⟩
      show Path.result t (ofInt (if s.tid = -1 then 0 else -1)) = _
      rw [if_neg htid]
      rfl
    · cases hs
  · cases hs

theorem kept_of_noTarget (ha : a = .joinThread ∨ a = .stopThread) (hno : NoTarget s a) :
    Kept s a := by
  rcases ha with rfl | rfl
  · exact ⟨nofun, nofun⟩
  · refine ⟨nofun, fun tid htid i hi => ?_⟩
    change (if s.tid = -1 then _ else some s.tid) = some tid at htid
    rw [if_neg hno.1] at htid
    cases htid
    exact absurd (findThread_eq_some hi) (hno.2 i)

end Steps

theorem backIn_runActs {kend : Pa} {t : Fin MAX_THREAD} {s : State} {acts : List Act}
    (test : State → Bool) (h : ((Lib.runActs (stepIf (step kend) fun s a => Kept s a ∧ Away s a t) s
      acts).any fun s => (s.Running ∧ s.path = .ret ∧ s.current = t) ∧ test s) = true) :
    ∃ s', BackIn kend t s s' ∧ test s' = true := by
  obtain ⟨s', hs', htest⟩ := (any_eq_true _ _).mp h
  obtain ⟨⟨hrun, hpath, hcur⟩, ht⟩ := of_decide_eq_true htest
  exact ⟨s', ⟨Reachable.runIf (.start rfl) hs', hrun, hpath, hcur⟩, ht⟩

end Xv6.Regs
