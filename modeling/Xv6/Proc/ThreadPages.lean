/-
  Xv6.Proc.ThreadPages — the trapframe pages in the thread table.

  Entry 0 is the main thread, whose trapframe is `p->trapframe` and belongs to the process.
-/
import Xv6.Proc.Threads

namespace Xv6

open Lib Function Finset

/-! ## §1. The pages of the table. -/

def threadPage (i : Fin MAX_THREAD) (t : Thread) : Multiset Pa :=
  if i = 0 ∨ t.state = .THREAD_FREE then 0 else t.trapframe.elim 0 fun page => {page}

def threadPages (threads : ThreadTable) : Multiset Pa := ∑ i, threadPage i (threads i)

theorem threadPage_main (t : Thread) : threadPage 0 t = 0 := if_pos (.inl rfl)

variable {i : Fin MAX_THREAD} {t : Thread} {threads : ThreadTable}

theorem threadPage_free (h : t.state = .THREAD_FREE) : threadPage i t = 0 := if_pos (.inr h)

theorem threadPage_congr {t t' : Thread}
    (hs : t'.state = .THREAD_FREE ↔ t.state = .THREAD_FREE) (ht : t'.trapframe = t.trapframe) :
    threadPage i t' = threadPage i t := by
  unfold threadPage
  simp only [hs, ht]

theorem threadPages_congr {threads threads' : ThreadTable}
    (h : ∀ i, threadPage i (threads' i) = threadPage i (threads i)) :
    threadPages threads' = threadPages threads := sum_congr rfl fun i _ => h i

section

variable (threads : ThreadTable) (i : Fin MAX_THREAD)

theorem threadPages_update (t : Thread) :
    threadPages (update threads i t) + threadPage i (threads i) =
      threadPages threads + threadPage i t := by
  have hsum : threadPages (update threads i t) =
      ∑ j, update (fun j => threadPage j (threads j)) i (threadPage i t) j := by
    refine sum_congr rfl fun j _ => ?_
    by_cases hj : j = i
    · subst hj
      rw [update_self, update_self]
    · rw [update_of_ne hj, update_of_ne hj]
  rw [hsum, sum_update_of_mem (mem_univ i), sdiff_singleton_eq_erase,
    threadPages, ← add_sum_erase _ _ (mem_univ i)]
  abel

theorem threadPages_update_state (hs : t.state = .THREAD_FREE ↔ (threads i).state = .THREAD_FREE)
    (ht : t.trapframe = (threads i).trapframe) :
    threadPages (update threads i t) = threadPages threads := by
  have e := threadPages_update threads i t
  rw [threadPage_congr hs ht] at e
  exact add_right_cancel e

theorem inUse_update_self (h : t.state ≠ .THREAD_FREE) : (update threads i t i).state ≠ .THREAD_FREE := by
  rw [update_self]
  exact h

end

/-! ## §2. The functions of the table. -/

/-- `c->thread`, if there is one, is an entry in use. -/
def CurrentInUse (threads : ThreadTable) (thread : Option (Fin MAX_THREAD)) : Prop :=
  ∀ t, thread = some t → (threads t).state ≠ .THREAD_FREE

/-- All pages are in the table, and a caller that goes on in user mode still has its entry. -/
def ThreadsPost (r : ThreadsResult) (own : Multiset Pa) : Prop :=
  own = threadPages r.threads ∧ (∀ v, r.after = .returns v → CurrentInUse r.threads r.thread)

theorem firstFree_eq_some (h : firstFree threads = some i) : (threads i).state = .THREAD_FREE := by
  have := List.find?_some h
  exact of_decide_eq_true this

theorem findThread_eq_some {tid : UInt32}
    (h : findThread threads tid = some i) : (threads i).id = tid := by
  have := List.find?_some h
  exact of_decide_eq_true this

section

variable (threads : ThreadTable) (trapframe : Option Pa) (thread : Option (Fin MAX_THREAD))
  (hcur : CurrentInUse threads thread)

include hcur

/-- After the first `if`, entry 0 is in use. -/
theorem addMainThread_spec : (addMainThread threads trapframe thread).wp
      (fun r own => own = threadPages r.1 ∧ (r.1 0).state ≠ .THREAD_FREE ∧ CurrentInUse r.1 r.2)
      (threadPages threads) := by
  unfold addMainThread
  split
  · intro id
    refine ⟨?_, ?_, ?_⟩
    · have e := threadPages_update threads 0
        { state := .THREAD_RUNNING, id := id, join := 0, trapframe := trapframe }
      rw [threadPage_main, threadPage_main] at e
      exact (add_right_cancel e).symm
    · exact inUse_update_self threads 0 nofun
    · intro t ht
      cases ht
      exact inUse_update_self threads 0 nofun
  · next hmain => exact ⟨rfl, hmain, hcur⟩

theorem createThread_spec :
    (createThread threads trapframe thread).wp ThreadsPost (threadPages threads) := by
  unfold createThread
  rw [Prog.wp_bind]
  refine Prog.wp_mono (addMainThread_spec threads trapframe thread hcur) ?_
  rintro ⟨ts, th⟩ own ⟨hown, hmain, hcur⟩
  dsimp only
  cases hfree : firstFree ts with
  | none => exact ⟨hown, fun _ _ => hcur⟩
  | some i =>
    have hi := firstFree_eq_some hfree
    have hne : i ≠ 0 := fun h0 => hmain (h0 ▸ hi)
    intro id
    refine ⟨trivial, fun page => ⟨?_, fun v _ t ht => ?_⟩⟩
    · have e := threadPages_update ts i
        { state := .THREAD_RUNNABLE, id := id, join := 0, trapframe := some page }
      rw [threadPage_free hi, add_zero] at e
      rw [hown, e, threadPage, if_neg (by simp [hne])]
      exact (Multiset.singleton_add page _).symm.trans (add_comm _ _)
    · -- the caller's entry is not the free one
      have hti : t ≠ i := fun he => hcur t ht (he ▸ hi)
      show (update ts i _ t : Thread).state ≠ _
      rw [update_of_ne hti]
      exact hcur t ht

end

theorem threadPages_wakeJoined (threads : ThreadTable) (id : UInt32) :
    threadPages (wakeJoined threads id) = threadPages threads := by
  refine threadPages_congr fun i => ?_
  unfold wakeJoined
  split
  · next h => exact threadPage_congr (by simp [h.1]) rfl
  · rfl

theorem kfreeTrapframe_spec (t : Thread) (frame : Multiset Pa) :
    (kfreeTrapframe t).wp (fun _ own => own = frame)
      ((t.trapframe.elim 0 fun page => {page}) + frame) := by
  unfold kfreeTrapframe
  cases t.trapframe with
  | none => trivial
  | some page => exact ⟨frame, Multiset.singleton_add page frame, rfl⟩

/-- The thread that thread_cleanup finds is not the main thread: it is neither
entry 0 nor thread 1. -/
def SparesMain (threads : ThreadTable) (tid : UInt32) : Prop :=
  ∀ i, findThread threads tid = some i → (threads i).state ≠ .THREAD_FREE → i ≠ 0 ∧ tid ≠ 1

instance (threads : ThreadTable) (tid : UInt32) : Decidable (SparesMain threads tid) :=
  inferInstanceAs (Decidable (∀ _, _))

theorem threadCleanup_spec (threads : ThreadTable) (thread : Option (Fin MAX_THREAD))
    (tid : UInt32) (hcur : CurrentInUse threads thread) (hmain : SparesMain threads tid) :
    (threadCleanup threads thread tid).wp ThreadsPost (threadPages threads) := by
  unfold threadCleanup
  cases hfind : findThread threads tid with
  | none => exact ⟨rfl, fun _ _ => hcur⟩
  | some i =>
    dsimp only
    split
    · next hstate =>
      obtain ⟨hi, htid⟩ := hmain i hfind hstate
      have hid : (threads i).id ≠ 1 := by
        rw [findThread_eq_some hfind]
        exact htid
      have e := threadPages_update threads i { threads i with state := .THREAD_FREE }
      rw [threadPage_free (t := { threads i with state := .THREAD_FREE }) rfl, add_zero,
        threadPage, if_neg (by simp [hi, hstate]), add_comm] at e
      rw [Prog.wp_bind, ← e]
      refine Prog.wp_mono (kfreeTrapframe_spec (threads i) _) ?_
      intro _ own hown
      rw [if_neg hid]
      exact ⟨hown.trans (threadPages_wakeJoined _ _).symm, fun _ h => by cases h⟩
    · exact ⟨rfl, fun _ h => by cases h⟩

theorem threadPages_joinThread {thread : Option (Fin MAX_THREAD)}
    {tid : UInt32} {r : ThreadsResult} (hcur : CurrentInUse threads thread)
    (h : joinThread threads thread tid = some r) :
    threadPages r.threads = threadPages threads ∧
      ((∃ v, r.after = .returns v) → r.threads = threads) := by
  unfold joinThread at h
  split at h
  · cases thread with
    | none => cases h
    | some t =>
      cases h
      refine ⟨threadPages_update_state threads t ?_ rfl, fun ⟨v, hv⟩ => by cases hv⟩
      have := hcur t rfl
      simp [this]
  · cases h
    exact ⟨rfl, fun _ => rfl⟩

theorem threadPages_parked (threads : ThreadTable) (thread : Option (Fin MAX_THREAD)) :
    threadPages (parked threads thread) = threadPages threads := by
  unfold parked
  cases thread with
  | none => rfl
  | some t =>
    dsimp only
    split
    · next h => exact threadPages_update_state threads t (by simp [h]) rfl
    · rfl

theorem nextRunnable_state {k : Nat} {i t : Fin MAX_THREAD}
    (h : Sched.nextRunnable threads k i = some t) : (threads t).state = .THREAD_RUNNABLE := by
  induction k generalizing i with
  | zero => cases h
  | succ k ih =>
    unfold Sched.nextRunnable at h
    dsimp only at h
    split at h
    · next hrun =>
      cases h
      exact hrun
    · exact ih h

theorem pickThread_state {p : Proc} {t : Fin MAX_THREAD}
    (h : Sched.pickThread p = some (.thread t)) : (p.threads t).state = .THREAD_RUNNABLE := by
  unfold Sched.pickThread at h
  split at h
  · cases h
  · obtain ⟨t', ht', he⟩ := Option.map_eq_some_iff.mp h
    cases he
    exact nextRunnable_state ht'

theorem threadPages_dispatched {p : Proc} (ticks : UInt32) {c : Sched.Choice}
    (h : Sched.pickThread p = some c) :
    threadPages (dispatched p ticks c).1.threads = threadPages p.threads ∧
      CurrentInUse (dispatched p ticks c).1.threads (dispatched p ticks c).2 := by
  cases c with
  | mainOnly => exact ⟨rfl, fun t ht => by cases ht⟩
  | thread t =>
    have hrun := pickThread_state h
    refine ⟨threadPages_update_state p.threads t (by simp [hrun]) rfl, fun t' ht' => ?_⟩
    cases ht'
    exact inUse_update_self p.threads t nofun

end Xv6
