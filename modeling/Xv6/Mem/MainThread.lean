/-
  Xv6.Mem.MainThread — cleaning up the main thread.

  thread_cleanup ends the process only if the id of the entry is 1, which nexttid hands out
  once: the main thread of any other process has another id.
-/
import Xv6.Mem.RunningThread
import Xv6.Mem.NoDoubleFree

namespace Xv6.Mem

open Lib Function Prog

/-! ## §1. The functions of the table. -/

def MainLast (ts : ThreadTable) : Prop :=
  (ts 0).state = .THREAD_FREE → ∀ i, (ts i).state = .THREAD_FREE

section Tables

variable {ts : ThreadTable} {thread : Option (Fin MAX_THREAD)}

theorem MainLast.of_main (h : (ts 0).state ≠ .THREAD_FREE) : MainLast ts :=
  fun hfree => absurd hfree h

theorem MainLast.update (h : MainLast ts) {t : Fin MAX_THREAD}
    (ht : (ts t).state ≠ .THREAD_FREE) {r : Thread} (hr : r.state ≠ .THREAD_FREE) :
    MainLast (update ts t r) := by
  apply MainLast.of_main
  have hmain : (ts 0).state ≠ .THREAD_FREE := fun hfree => ht (h hfree t)
  rw [update_apply]
  split
  · exact hr
  · exact hmain

theorem addMainThread_main (trapframe : Option Pa) :
    (addMainThread ts trapframe thread).ends fun r => (r.1 0).state ≠ .THREAD_FREE := by
  unfold addMainThread
  split
  · intro id
    show (update ts 0 _ 0).state ≠ .THREAD_FREE
    rw [update_self]
    exact nofun
  · next hmain => exact hmain

theorem createThread_main (trapframe : Option Pa) :
    (createThread ts trapframe thread).ends fun r => (r.threads 0).state ≠ .THREAD_FREE := by
  unfold createThread
  refine (ends_bind _ _).mpr (ends_mono (addMainThread_main trapframe) ?_)
  intro r hmain
  dsimp only
  split
  · exact hmain
  · next i hi =>
    -- the new thread goes to a free entry, so not to entry 0
    have h0 : 0 ≠ i := fun e => hmain (e ▸ firstFree_eq_some hi)
    refine (ends_bind _ _).mpr fun id => ?_
    refine (ends_bind _ _).mpr fun page => ?_
    cases page with
    | none => exact trivial
    | some page =>
      show (update r.1 i _ 0).state ≠ .THREAD_FREE
      rw [update_of_ne h0]
      exact hmain

variable {tid : UInt32}

theorem findThread_id {i : Fin MAX_THREAD} (h : findThread ts tid = some i) :
    (ts i).id = tid := of_decide_eq_true (List.find?_some (p := fun i => (ts i).id = tid) h)

/-- **When entry 0 is cleaned up, the process exits just if the id is 1.** -/
theorem threadCleanup_exits_iff (h0 : findThread ts tid = some 0)
    (hmain : (ts 0).state ≠ .THREAD_FREE) :
    (threadCleanup ts thread tid).ends fun r => r.after = .exits ↔ tid = 1 := by
  have hid := findThread_id h0
  unfold threadCleanup
  rw [h0]
  dsimp only
  rw [if_pos hmain]
  refine (ends_bind _ _).mpr (kfreeTrapframe_ends _ ?_)
  split
  · next h1 =>
    refine (ends_bind _ _).mpr (freeOthers_ends _ ?_)
    show After.exits = .exits ↔ tid = 1
    rw [← hid]
    simp [h1]
  · next h1 =>
    show After.yields = .exits ↔ tid = 1
    rw [← hid]
    simp [h1]

theorem threadCleanup_main (h : MainLast ts)
    (hone : findThread ts tid = some 0 → (ts 0).state ≠ .THREAD_FREE → tid = 1) :
    (threadCleanup ts thread tid).ends fun r => r.after ≠ .exits → MainLast r.threads := by
  cases hi : findThread ts tid with
  | none =>
    unfold threadCleanup
    rw [hi]
    exact fun _ => h
  | some i =>
    by_cases hfree : (ts i).state = .THREAD_FREE
    · unfold threadCleanup
      rw [hi]
      dsimp only
      rw [if_neg (not_not_intro hfree)]
      exact fun _ => h
    · by_cases h0 : i = 0
      · -- the main thread: its id is 1
        subst h0
        refine ends_mono (threadCleanup_exits_iff hi hfree) ?_
        exact fun r hr hexits => absurd (hr.mpr (hone hi hfree)) hexits
      · -- another thread: the main thread stays
        have hmain : (ts 0).state ≠ .THREAD_FREE := fun hm => hfree (h hm i)
        unfold threadCleanup
        rw [hi]
        dsimp only
        rw [if_pos hfree]
        refine (ends_bind _ _).mpr (kfreeTrapframe_ends _ ?_)
        split
        · exact (ends_bind _ _).mpr (freeOthers_ends _ fun hexits => absurd rfl hexits)
        · refine fun _ => MainLast.of_main ?_
          show (freedTable ts i 0).state ≠ .THREAD_FREE
          rw [freedTable_ne (Ne.symm h0)]
          split
          · exact nofun
          · exact hmain

end Tables

/-! ## §2. Steps and runs. -/

/-- thread_cleanup finds the main thread only under the id 1. -/
def MainIsOne (s : State) : Act → Prop
  | .threadCleanup p tid =>
    findThread (s.proc p).threads tid = some 0 →
      ((s.proc p).threads 0).state ≠ .THREAD_FREE → tid = 1
  | _ => True

structure MainOk (s : State) : Prop where
  last : ∀ p, NotExiting s p → MainLast (s.proc p).threads
  work : ∀ p prog, s.path p = .work (.threads prog) →
    prog.ends fun r => r.after ≠ .exits → MainLast r.threads

section Steps

variable {ld : Layout} {a : Act} {s s' : State} {q : Slot}

theorem mainLast_step (h : MainOk s) (hstep : TableStep s q (s'.proc q).threads) :
    MainLast (s'.proc q).threads := by
  cases hstep with
  | same hq he =>
    rw [he]
    exact h.last q hq
  | zero he =>
    rw [he]
    exact fun _ _ => rfl
  | ends hq r hfrom hafter he =>
    rw [he]
    exact h.work q _ hfrom hafter
  | joins hq t tid ht htid he =>
    rw [he]
    exact (h.last q hq).update ht nofun
  | sets hq t st ht hfree hjoined he =>
    rw [he]
    exact (h.last q hq).update ht hfree

theorem mainWork_step (h : MainOk s) (hs : Step ld a s s') (hone : MainIsOne s a)
    {prog : Kernel ThreadsResult} (hw : s'.path q = .work (.threads prog)) :
    prog.ends fun r => r.after ≠ .exits → MainLast r.threads := by
  have hstarts : s.InUser q → MainLast (s.proc q).threads := fun hp =>
    h.last q (notExiting_of_running hp.1 (by rw [hp.2]; exact nofun))
  rcases hs.threads_cases hw with hp | ⟨prog₀, who, hp, hstep⟩ | ⟨_, rfl⟩ | ⟨tid, hp, rfl, rfl⟩
  · exact h.work q prog hp
  · exact step_ends (h.work q prog₀ hp) hstep
  · exact ends_mono (createThread_main _) fun r hmain _ => MainLast.of_main hmain
  · exact threadCleanup_main (hstarts hp) hone

end Steps

theorem boot_main {ld : Layout} {n : Nat} {s : State} (h : boot ld n = some s) : MainOk s := by
  obtain ⟨r, _, rfl⟩ := Option.map_eq_some_iff.mp h
  constructor
  · intro p _ _ i
    show ((if p = 0 then firstProc r.1 else Proc.init).threads i).state = .THREAD_FREE
    split <;> rfl
  · intro p prog hw
    cases hw

theorem run_main {ld : Layout} {s : State} (h : RunWith ld MainIsOne s) : MainOk s := by
  refine Reachable.invariant_with FrontInv MainOk (fun _ => run_front) ?_ ?_ h
  · intro s ⟨n, hboot⟩
    exact boot_main hboot
  · intro s s' hfront _ hinv ⟨a, hs, hone⟩
    exact ⟨fun p hp => mainLast_step hinv (hs.tableStep hfront hp),
      fun p prog hw => mainWork_step hinv hs hone hw⟩

/-- **Cleaning up the main thread ends the process**, if it is always done under the id 1: a process
that has not started to exit and has a free entry 0 has no thread at all. In general it does just if
the id is 1. -/
theorem main_cleanup_exits {ld : Layout} {s : State} (h : RunWith ld MainIsOne s) (p : Slot) :
    (NotExiting s p → ((s.proc p).threads 0).state = .THREAD_FREE →
      ∀ i, ((s.proc p).threads i).state = .THREAD_FREE) ∧
    (NotExiting s p → Sched.pickThread (s.proc p) = some .mainOnly →
      ∀ i, ((s.proc p).threads i).state = .THREAD_FREE) ∧
    ∀ tid, findThread (s.proc p).threads tid = some 0 →
      ((s.proc p).threads 0).state ≠ .THREAD_FREE →
      (threadCleanup (s.proc p).threads (s.thread p) tid).ends fun r =>
        r.after = .exits ↔ tid = 1 := by
  have hlast := (run_main h).last p
  refine ⟨hlast, fun hp hpick => hlast hp ?_, fun tid => threadCleanup_exits_iff⟩
  unfold Sched.pickThread at hpick
  split at hpick
  · assumption
  · obtain ⟨t, _, he⟩ := Option.map_eq_some_iff.mp hpick
    cases he

instance (s : State) : (a : Act) → Decidable (MainIsOne s a)
  | .threadCleanup .. => inferInstanceAs (Decidable (_ → _ → _))
  | .fork .. | .createThread .. | .joinThread .. | .growproc .. | .exec .. | .callExit .. | .exit ..
  | .wait .. | .goOn .. | .dispatch .. | .leave .. | .wakeup .. => inferInstanceAs (Decidable True)

def firstThreads : List Call := [.dispatch 0, .fork 0 1, .leave 0, .dispatch 1, .createThread 1]

theorem main_cleanup_exits_firstThreads : ∃ s, RunWith smallLayout MainIsOne s ∧ NotExiting s 1 ∧
    ((s.proc 1).threads 1).state = .THREAD_RUNNABLE ∧
    (threadCleanup (s.proc 1).threads (s.thread 1) 1).ends fun r => r.after = .exits := by
  have hcalls : ((bootCalls smallLayout MainIsOne firstThreads).any fun s =>
      inUser s 1 ∧ ((s.proc 1).threads 1).state = .THREAD_RUNNABLE ∧
        findThread (s.proc 1).threads 1 = some 0 ∧
        ((s.proc 1).threads 0).state ≠ .THREAD_FREE) = true := by
    decide +kernel
  obtain ⟨s, hs, htest⟩ :=
    exists_run_bootCalls (fun _ _ => trivial) (fun _ _ _ => trivial) hcalls
  obtain ⟨huser, hother, hfind, hmain⟩ := of_decide_eq_true htest
  have hp := inUser_iff huser
  refine ⟨s, hs, notExiting_of_running hp.1 (by rw [hp.2]; exact nofun), hother, ?_⟩
  exact Prog.ends_mono ((main_cleanup_exits hs 1).2.2 1 hfind hmain) fun r hr => hr.mpr rfl

/-- The main thread of the second process that makes a thread, number 3, stops itself, and thread 4
is there. -/
theorem main_cleanup_goes_on : ∃ s, RunWith smallLayout AnyCall s ∧ NotExiting s 1 ∧
    ((s.proc 1).threads 0).state = .THREAD_FREE ∧
    ((s.proc 1).threads 1).state = .THREAD_RUNNABLE ∧
    Sched.pickThread (s.proc 1) = some .mainOnly := by
  have hcalls : ((bootCalls smallLayout AnyCall (mainStops ++ [.leave 1])).any fun s =>
      (s.proc 1).state = .RUNNABLE ∧ (s.path 1).isUser ∧
        ((s.proc 1).threads 0).state = .THREAD_FREE ∧
        ((s.proc 1).threads 1).state = .THREAD_RUNNABLE ∧
        Sched.pickThread (s.proc 1) = some .mainOnly) = true := by
    decide +kernel
  obtain ⟨s, hs, htest⟩ :=
    exists_run_bootCalls (fun _ _ => trivial) (fun _ _ _ => trivial) hcalls
  obtain ⟨hstate, huser, htable⟩ := of_decide_eq_true htest
  refine ⟨s, hs, ⟨by rw [hstate]; decide, by rw [hstate]; decide, ?_⟩, htable⟩
  rw [Path.eq_user huser]
  exact nofun

end Xv6.Mem
