/-
  Xv6.Proc.TableOk — what the functions of the thread table keep.

  Whoever frees entry 0 yields before it does anything else; so create_thread, when it
  enters the main thread as THREAD_RUNNING, finds nobody else running.
-/
import Xv6.Proc.ThreadPages

namespace Xv6

open Lib Function Prog

/-! ## §1. Tables. -/

/-- Distinct ids below `n`, and nobody waits for a thread that is gone. -/
structure TableOk (ts : ThreadTable) (n : Nat) : Prop where
  below : ∀ i, (ts i).state ≠ .THREAD_FREE → (ts i).id.toNat < n
  distinct : ∀ i j, (ts i).state ≠ .THREAD_FREE → (ts j).state ≠ .THREAD_FREE →
    (ts i).id = (ts j).id → i = j
  joins : ∀ i, (ts i).state = .THREAD_JOINED →
    ∃ j, (ts j).state ≠ .THREAD_FREE ∧ (ts j).id = (ts i).join

/-- The only THREAD_RUNNING entry is `thread`. -/
def OneRunning (ts : ThreadTable) (thread : Option (Fin MAX_THREAD)) : Prop :=
  ∀ i, (ts i).state = .THREAD_RUNNING → thread = some i

/-- A thread runs only while the main thread is in the table. -/
def Fronted (ts : ThreadTable) (thread : Option (Fin MAX_THREAD)) : Prop :=
  ∀ i, thread = some i → (ts i).state = .THREAD_RUNNING ∧ (ts 0).state ≠ .THREAD_FREE

def MainPage (trapframe : Option Pa) (ts : ThreadTable) : Prop :=
  (ts 0).state ≠ .THREAD_FREE → (ts 0).trapframe = trapframe

section Tables

variable {ts ts' : ThreadTable} {thread : Option (Fin MAX_THREAD)} {n m : Nat}
  {i : Fin MAX_THREAD}

theorem tableOk_zero : TableOk (fun _ => Thread.zero) n where
  below _ h := absurd rfl h
  distinct _ _ h := absurd rfl h
  joins _ h := by cases h

theorem TableOk.mono (h : TableOk ts n) (hnm : n ≤ m) : TableOk ts m where
  below i hi := lt_of_lt_of_le (h.below i hi) hnm
  distinct := h.distinct
  joins := h.joins

theorem TableOk.setState (h : TableOk ts n) (hi : (ts i).state ≠ .THREAD_FREE) {st : ThreadState}
    (hfree : st ≠ .THREAD_FREE) (hjoined : st ≠ .THREAD_JOINED) :
    TableOk (update ts i { ts i with state := st }) n := by
  have hsame : ∀ j, (update ts i { ts i with state := st } j).id = (ts j).id ∧
      (update ts i { ts i with state := st } j).join = (ts j).join ∧
      ((update ts i { ts i with state := st } j).state ≠ .THREAD_FREE ↔
        (ts j).state ≠ .THREAD_FREE) ∧
      ((update ts i { ts i with state := st } j).state = .THREAD_JOINED →
        (ts j).state = .THREAD_JOINED) := by
    intro j
    by_cases hj : j = i
    · rw [hj, update_self]
      exact ⟨rfl, rfl, ⟨fun _ => hi, fun _ => hfree⟩, fun e => absurd e hjoined⟩
    · rw [update_of_ne hj]
      exact ⟨rfl, rfl, Iff.rfl, id⟩
  refine ⟨fun j hj => ?_, fun j k hj hk he => ?_, fun j hj => ?_⟩
  · rw [(hsame j).1]
    exact h.below j ((hsame j).2.2.1.mp hj)
  · rw [(hsame j).1, (hsame k).1] at he
    exact h.distinct j k ((hsame j).2.2.1.mp hj) ((hsame k).2.2.1.mp hk) he
  · obtain ⟨k, hk, he⟩ := h.joins j ((hsame j).2.2.2 hj)
    exact ⟨k, (hsame k).2.2.1.mpr hk, by rw [(hsame k).1, (hsame j).2.1, he]⟩

variable {t : Thread} {j : Fin MAX_THREAD} {trapframe : Option Pa}

theorem TableOk.fill (h : TableOk ts n) (hi : (ts i).state = .THREAD_FREE)
    (hn : n ≤ t.id.toNat) (hjoined : t.state ≠ .THREAD_JOINED) :
    TableOk (update ts i t) (t.id.toNat + 1) where
  below j hj := by
    by_cases hji : j = i
    · rw [hji, update_self]
      omega
    · rw [update_of_ne hji] at hj ⊢
      have := h.below j hj
      omega
  distinct j k hj hk he := by
    by_cases hji : j = i <;> by_cases hki : k = i
    · rw [hji, hki]
    · -- the new id is not below `n`
      rw [hji, update_self, update_of_ne hki] at he
      rw [update_of_ne hki] at hk
      have := h.below k hk
      rw [← he] at this
      omega
    · rw [hki, update_self, update_of_ne hji] at he
      rw [update_of_ne hji] at hj
      have := h.below j hj
      rw [he] at this
      omega
    · rw [update_of_ne hji] at hj he
      rw [update_of_ne hki] at hk he
      exact h.distinct j k hj hk he
  joins j hj := by
    by_cases hji : j = i
    · rw [hji, update_self] at hj
      exact absurd hj hjoined
    · rw [update_of_ne hji] at hj ⊢
      obtain ⟨k, hk, he⟩ := h.joins j hj
      have hki : k ≠ i := fun e => hk (e ▸ hi)
      exact ⟨k, by rw [update_of_ne hki]; exact hk,
        by rw [update_of_ne hki]; exact he⟩

theorem TableOk.join (h : TableOk ts n) {t : Fin MAX_THREAD} {tid : UInt32}
    (ht : (ts t).state ≠ .THREAD_FREE)
    (htid : ∃ j, (ts j).id = tid ∧ (ts j).state ≠ .THREAD_FREE) :
    TableOk (update ts t { ts t with join := tid, state := .THREAD_JOINED }) n := by
  have hid : ∀ j, (update ts t { ts t with join := tid, state := .THREAD_JOINED } j).id =
      (ts j).id := by
    intro j
    rw [update_apply]
    split
    · next hj => rw [hj]
    · rfl
  have hfree : ∀ j, (update ts t { ts t with join := tid, state := .THREAD_JOINED } j).state =
      .THREAD_FREE ↔ (ts j).state = .THREAD_FREE := by
    intro j
    rw [update_apply]
    split
    · next hj =>
      rw [hj]
      exact ⟨fun hf => (by cases hf), fun hf => absurd hf ht⟩
    · exact Iff.rfl
  refine ⟨fun j hj => ?_, fun j k hj hk he => ?_, fun j hj => ?_⟩
  · rw [hid]
    exact h.below j fun hf => hj ((hfree j).mpr hf)
  · rw [hid, hid] at he
    exact h.distinct j k (fun hf => hj ((hfree j).mpr hf)) (fun hf => hk ((hfree k).mpr hf)) he
  · by_cases hjt : j = t
    · obtain ⟨k, hk, hku⟩ := htid
      refine ⟨k, fun hf => hku ((hfree k).mp hf), ?_⟩
      rw [hid, hk, hjt, update_self]
    · rw [update_of_ne hjt] at hj ⊢
      obtain ⟨k, hk, he⟩ := h.joins j hj
      exact ⟨k, fun hf => hk ((hfree k).mp hf), by rw [hid, he]⟩

/-- The table that thread_cleanup leaves when it frees entry `i`. -/
def freedTable (ts : ThreadTable) (i : Fin MAX_THREAD) : ThreadTable :=
  wakeJoined (update ts i { ts i with state := .THREAD_FREE }) (ts i).id

theorem freedTable_self : (freedTable ts i i).state = .THREAD_FREE := by
  simp [freedTable, wakeJoined]

theorem freedTable_ne (hj : j ≠ i) : freedTable ts i j =
      if (ts j).state = .THREAD_JOINED ∧ (ts j).join = (ts i).id then
        { ts j with join := 0, state := .THREAD_RUNNABLE }
      else ts j := by
  unfold freedTable wakeJoined
  rw [update_of_ne hj]

theorem freedTable_id (j : Fin MAX_THREAD) : (freedTable ts i j).id = (ts j).id := by
  by_cases hj : j = i
  · subst hj
    simp [freedTable, wakeJoined]
  · rw [freedTable_ne hj]
    split <;> rfl

theorem freedTable_inUse (h : (freedTable ts i j).state ≠ .THREAD_FREE) :
    j ≠ i ∧ (ts j).state ≠ .THREAD_FREE := by
  have hj : j ≠ i := fun e => h (e ▸ freedTable_self)
  refine ⟨hj, fun hf => h ?_⟩
  rw [freedTable_ne hj, if_neg fun hc => by rw [hf] at hc; cases hc.1]
  exact hf

theorem freedTable_running (h : (freedTable ts i j).state = .THREAD_RUNNING) :
    (ts j).state = .THREAD_RUNNING := by
  have hj : j ≠ i := fun e => by
    rw [e, freedTable_self] at h
    cases h
  rw [freedTable_ne hj] at h
  split at h
  · cases h
  · exact h

/-- The threads that waited for the freed one are woken up; the others wait
for a thread that stays. -/
theorem TableOk.freed (h : TableOk ts n) : TableOk (freedTable ts i) n where
  below j hj := by
    rw [freedTable_id]
    exact h.below j (freedTable_inUse hj).2
  distinct j k hj hk he := by
    rw [freedTable_id, freedTable_id] at he
    exact h.distinct j k (freedTable_inUse hj).2 (freedTable_inUse hk).2 he
  joins j hj := by
    have hji : j ≠ i := (freedTable_inUse (by rw [hj]; decide)).1
    rw [freedTable_ne hji] at hj ⊢
    split at hj
    · cases hj
    · next hwait =>
      rw [if_neg hwait]
      obtain ⟨k, hk, he⟩ := h.joins j hj
      have hki : k ≠ i := fun e => hwait ⟨hj, by rw [← he, e]⟩
      refine ⟨k, ?_, by rw [freedTable_id, he]⟩
      rw [freedTable_ne hki]
      split
      · simp
      · exact hk

theorem OneRunning.of_imp (h : OneRunning ts thread)
    (himp : ∀ i, (ts' i).state = .THREAD_RUNNING → (ts i).state = .THREAD_RUNNING) :
    OneRunning ts' thread := fun i hi => h i (himp i hi)

theorem OneRunning.fill (h : OneRunning ts thread)
    (ht : t.state ≠ .THREAD_RUNNING) : OneRunning (update ts i t) thread := by
  refine h.of_imp fun j hj => ?_
  by_cases hji : j = i
  · rw [hji, update_self] at hj
    exact absurd hj ht
  · rwa [update_of_ne hji] at hj

theorem MainPage.free (h : MainPage trapframe ts) :
    MainPage trapframe (update ts i { ts i with state := .THREAD_FREE }) := by
  intro hmain
  by_cases h0 : 0 = i
  · rw [h0, update_self] at hmain
    exact absurd rfl hmain
  · rw [update_of_ne h0] at hmain ⊢
    exact h hmain

theorem MainPage.freed (h : MainPage trapframe ts) : MainPage trapframe (freedTable ts i) := by
  intro hmain
  obtain ⟨h0, hmain'⟩ := freedTable_inUse hmain
  rw [freedTable_ne h0]
  split <;> exact h hmain'

theorem Fronted.fill (h : Fronted ts thread) (hi : (ts i).state = .THREAD_FREE) :
    Fronted (update ts i t) thread := by
  intro j hj
  obtain ⟨hrun, hmain⟩ := h j hj
  have hji : j ≠ i := fun e => by
    rw [e, hi] at hrun
    cases hrun
  have h0i : 0 ≠ i := fun e => hmain (e ▸ hi)
  rw [update_of_ne hji, update_of_ne h0i]
  exact ⟨hrun, hmain⟩

end Tables

/-! ## §2. Who runs, after the functions of the table. -/

structure Fronts (trapframe : Option Pa) (ts : ThreadTable) (thread : Option (Fin MAX_THREAD))
    (r : ThreadsResult) : Prop where
  one : OneRunning r.threads r.thread
  fronted : r.after ≠ .yields → r.after ≠ .exits → Fronted r.threads r.thread
  page : MainPage trapframe ts → MainPage trapframe r.threads
  thread : r.thread = thread ∨ thread = none ∧ r.thread = some 0

section Fronts

variable {ts : ThreadTable} {thread : Option (Fin MAX_THREAD)}

section

variable (trapframe : Option Pa) (hone : OneRunning ts thread) (hfront : Fronted ts thread)

include trapframe hone hfront

theorem addMainThread_ends : (addMainThread ts trapframe thread).ends fun r =>
      Fronts trapframe ts thread { threads := r.1, thread := r.2, after := .returns 0 } ∧
        (r.1 0).state ≠ .THREAD_FREE := by
  unfold addMainThread
  split
  · next hfree =>
    intro m
    -- nobody runs: a running thread would have the main thread in the table
    have hnone : ∀ i, thread ≠ some i := fun i hi => (hfront i hi).2 hfree
    refine ⟨⟨fun i hi => ?_, fun _ _ i hi => ?_, fun _ _ => ?_, ?_⟩, ?_⟩
    · by_cases h0 : i = 0
      · rw [h0]
      · dsimp only at hi
        rw [update_of_ne h0] at hi
        exact absurd (hone i hi) (hnone i)
    · cases hi
      dsimp only
      rw [update_self]
      exact ⟨rfl, by simp⟩
    · dsimp only
      rw [update_self]
    · exact .inr ⟨Option.eq_none_iff_forall_ne_some.mpr hnone, rfl⟩
    · dsimp only
      rw [update_self]
      simp
  · next hmain => exact ⟨⟨hone, fun _ _ => hfront, id, .inl rfl⟩, hmain⟩

theorem createThread_ends :
    (createThread ts trapframe thread).ends (Fronts trapframe ts thread) := by
  unfold createThread
  refine (ends_bind _ _).mpr ?_
  refine ends_mono (addMainThread_ends trapframe hone hfront) ?_
  intro r ⟨h, hmain⟩
  have hfront' : Fronted r.1 r.2 := h.fronted nofun nofun
  dsimp only
  split
  · exact ⟨h.one, fun _ _ => hfront', h.page, h.thread⟩
  · next i hi =>
    have hfree := firstFree_eq_some hi
    -- the new thread does not go to entry 0, which is taken
    have h0 : 0 ≠ i := fun e => hmain (e ▸ hfree)
    refine (ends_bind _ _).mpr fun m => ?_
    refine (ends_bind _ _).mpr fun page => ?_
    cases page with
    | none => exact trivial
    | some page =>
      refine ⟨h.one.fill (by simp), fun _ _ => hfront'.fill hfree, fun hpage => ?_, h.thread⟩
      show MainPage trapframe (update r.1 i _)
      unfold MainPage
      rw [update_of_ne h0]
      exact h.page hpage

end

theorem kfreeTrapframe_ends {R : Unit → Prop} (t : Thread) (h : R ()) :
    (kfreeTrapframe t).ends R := by
  unfold kfreeTrapframe
  split
  · exact h
  · exact trivial

theorem freeOthers_ends {R : Unit → Prop} (l : List (Fin MAX_THREAD)) (h : R ()) :
    (freeOthers ts l).ends R := by
  induction l with
  | nil => exact h
  | cons i l ih =>
    unfold freeOthers
    split
    · exact (ends_bind _ _).mpr (kfreeTrapframe_ends _ ih)
    · exact ih

theorem threadCleanup_ends (trapframe : Option Pa) (tid : UInt32) (hone : OneRunning ts thread)
    (hfront : Fronted ts thread) :
    (threadCleanup ts thread tid).ends (Fronts trapframe ts thread) := by
  unfold threadCleanup
  split
  · exact ⟨hone, fun _ _ => hfront, id, .inl rfl⟩
  · next i hi =>
    split
    · refine (ends_bind _ _).mpr (kfreeTrapframe_ends _ ?_)
      split
      · refine (ends_bind _ _).mpr (freeOthers_ends _ ?_)
        exact ⟨hone.fill (by simp), fun _ h => absurd rfl h, MainPage.free, .inl rfl⟩
      · exact ⟨hone.of_imp fun j hj => freedTable_running hj, fun h => absurd rfl h,
          MainPage.freed, .inl rfl⟩
    · exact ⟨hone, fun h => absurd rfl h, id, .inl rfl⟩

end Fronts

/-! ## §3. Ids and joins, after the functions of the table. -/

def TableLeft (n : Nat) (r : ThreadsResult) : Prop :=
  r.after = .exits ∨ (TableOk r.threads n ∧ OneRunning r.threads r.thread ∧
    (r.after ≠ .yields → Fronted r.threads r.thread))

/-- The ids that alloctid hands out before the limit. -/
abbrev IdDraws {α : Type} (Q : Nat → α → Prop) (prog : Kernel α) (n : Nat) : Prop :=
  prog.draws UInt32.toNat (2 ^ 31) Q n

section Functions

variable {ts : ThreadTable} {thread : Option (Fin MAX_THREAD)} {n : Nat}

theorem IdDraws.tableLeft {trapframe : Option Pa} {prog : Kernel ThreadsResult}
    (hd : IdDraws (fun n r => r.after = .exits ∨ TableOk r.threads n) prog n)
    (he : prog.ends (Fronts trapframe ts thread)) : IdDraws TableLeft prog n := by
  refine draws_mono (draws_and_ends hd he) ?_
  intro n r ⟨hleft, hfronts⟩
  by_cases hexits : r.after = .exits
  · exact .inl hexits
  · have hok : TableOk r.threads n := hleft.resolve_left hexits
    exact .inr ⟨hok, hfronts.one, fun hyields => hfronts.fronted hyields hexits⟩

theorem addMainThread_draws (trapframe : Option Pa) (thread : Option (Fin MAX_THREAD))
    (hok : TableOk ts n) :
    IdDraws (fun n r => TableOk r.1 n) (addMainThread ts trapframe thread) n := by
  unfold addMainThread
  split
  · next hfree => exact fun m hm _ => hok.fill hfree hm (by simp)
  · exact hok

theorem createThread_draws (trapframe : Option Pa) (hok : TableOk ts n)
    (hone : OneRunning ts thread) (hfront : Fronted ts thread) :
    IdDraws TableLeft (createThread ts trapframe thread) n := by
  refine IdDraws.tableLeft ?_ (createThread_ends trapframe hone hfront)
  unfold createThread
  refine (draws_bind _ _).mpr ?_
  refine draws_mono (addMainThread_draws trapframe thread hok) ?_
  intro n r hok'
  dsimp only
  split
  · exact .inr hok'
  · next i hi =>
    refine (draws_bind _ _).mpr fun m hm _ => ?_
    refine (draws_bind _ _).mpr fun page => ?_
    cases page with
    | none => exact trivial
    | some page => exact .inr (hok'.fill (firstFree_eq_some hi) hm (by simp))

theorem kfreeTrapframe_draws {Q : Nat → Unit → Prop} (t : Thread) (h : Q n ()) :
    IdDraws Q (kfreeTrapframe t) n := by
  unfold kfreeTrapframe
  split
  · exact h
  · exact trivial

theorem freeOthers_draws {Q : Nat → Unit → Prop} (l : List (Fin MAX_THREAD)) (h : Q n ()) :
    IdDraws Q (freeOthers ts l) n := by
  induction l with
  | nil => exact h
  | cons i l ih =>
    unfold freeOthers
    split
    · exact (draws_bind _ _).mpr (kfreeTrapframe_draws _ ih)
    · exact ih

theorem threadCleanup_draws (tid : UInt32) (hok : TableOk ts n) (hone : OneRunning ts thread)
    (hfront : Fronted ts thread) : IdDraws TableLeft (threadCleanup ts thread tid) n := by
  refine IdDraws.tableLeft ?_ (threadCleanup_ends none tid hone hfront)
  unfold threadCleanup
  split
  · exact .inr hok
  · next i hi =>
    split
    · refine (draws_bind _ _).mpr (kfreeTrapframe_draws _ ?_)
      split
      · exact (draws_bind _ _).mpr (freeOthers_draws _ (.inl rfl))
      · exact .inr hok.freed
    · exact .inr hok

theorem joinThread_front {tid : UInt32} {r : ThreadsResult} (hone : OneRunning ts thread)
    (hfront : Fronted ts thread) (hr : joinThread ts thread tid = some r) :
    OneRunning r.threads thread ∧ (r.after ≠ .yields → Fronted r.threads thread) := by
  unfold joinThread at hr
  split at hr
  · obtain ⟨t, ht, rfl⟩ := Option.map_eq_some_iff.mp hr
    exact ⟨hone.fill (by simp), fun h => absurd rfl h⟩
  · cases hr
    exact ⟨hone, fun _ => hfront⟩

theorem dispatched_front {p : Proc} {c : Sched.Choice}
    (hrest : ∀ i, (p.threads i).state ≠ .THREAD_RUNNING) (hc : Sched.pickThread p = some c)
    (ticks : UInt32) :
    OneRunning (dispatched p ticks c).1.threads (dispatched p ticks c).2 ∧
      Fronted (dispatched p ticks c).1.threads (dispatched p ticks c).2 := by
  cases c with
  | mainOnly => exact ⟨fun i hi => absurd hi (hrest i), nofun⟩
  | thread t =>
    have hmain : (p.threads 0).state ≠ .THREAD_FREE := by
      unfold Sched.pickThread at hc
      split at hc
      · cases hc
      · assumption
    constructor
    · intro i hi
      by_cases hit : i = t
      · rw [hit]
        rfl
      · have hi' : (p.threads i).state = .THREAD_RUNNING := by
          rw [← hi]
          show _ = (update p.threads t _ i).state
          rw [update_of_ne hit]
        exact absurd hi' (hrest i)
    · intro i hi
      cases hi
      refine ⟨by simp [dispatched], ?_⟩
      show (update p.threads t _ 0).state ≠ .THREAD_FREE
      rw [update_apply]
      split
      · simp
      · exact hmain

theorem parked_not_running (hone : OneRunning ts thread) (i : Fin MAX_THREAD) :
    (parked ts thread i).state ≠ .THREAD_RUNNING := by
  intro hi
  unfold parked at hi
  split at hi
  · next =>
    have := hone i hi
    cases this
  · next t =>
    split at hi
    · by_cases hit : i = t
      · rw [hit, update_self] at hi
        cases hi
      · rw [update_of_ne hit] at hi
        exact hit (Option.some.inj (hone i hi)).symm
    · next hnot =>
      have ht := Option.some.inj (hone i hi)
      exact hnot (ht ▸ hi)

end Functions

end Xv6
