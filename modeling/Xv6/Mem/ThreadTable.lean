/-
  Xv6.Mem.ThreadTable — the thread table of a live process.
-/
import Xv6.Mem.RunningThread

namespace Xv6.Mem

open Lib

/-! ## §1. The invariant. -/

structure ThreadsOk (s : State) (p : Slot) : Prop where
  table : TableOk (s.proc p).threads s.heap.next.toNat
  one : OneRunning (s.proc p).threads (s.thread p)
  rest : (s.proc p).state ≠ .RUNNING → ∀ i, ((s.proc p).threads i).state ≠ .THREAD_RUNNING
  count : (s.proc p).runningThreadsCount = if (s.proc p).state = .RUNNING then 1 else 0
  front : (s.proc p).state = .RUNNING → s.path p ≠ .yield →
    Fronted (s.proc p).threads (s.thread p)
  work : ∀ prog, s.path p = .work (.threads prog) →
    ∃ n, n ≤ s.heap.next.toNat ∧ IdDraws TableLeft prog n

section Invariant

variable {ld : Layout} {a : Act} {s s' : State} {q : Slot}

theorem FrontOk.threads (h : FrontOk s q) (htable : TableOk (s.proc q).threads s.heap.next.toNat)
    (hwork : ∀ prog, s.path q = .work (.threads prog) →
      ∃ n, n ≤ s.heap.next.toNat ∧ IdDraws TableLeft prog n) : ThreadsOk s q where
  table := htable
  one := h.one
  rest := h.rest
  count := h.count
  front := h.front
  work := hwork

variable {prog : Kernel ThreadsResult}

theorem ThreadsOk.starts (h : ThreadsOk s q) (hp : s.InUser q)
    (hprog : prog = createThread (s.proc q).threads (s.proc q).trapframe (s.thread q) ∨
      ∃ tid, prog = threadCleanup (s.proc q).threads (s.thread q) tid) :
    IdDraws TableLeft prog s.heap.next.toNat := by
  have hfront := h.front hp.1 (by rw [hp.2]; exact nofun)
  rcases hprog with rfl | ⟨tid, rfl⟩
  · exact createThread_draws _ h.table h.one hfront
  · exact threadCleanup_draws tid h.table h.one hfront

theorem bump_toNat (m : UInt32) (h : m.toNat ≤ 2 ^ 31) : (m + 1).toNat = m.toNat + 1 := by
  rw [UInt32.toNat_add]
  show (m.toNat + 1) % 2 ^ 32 = m.toNat + 1
  omega

theorem Step.next_le (hs : Step ld a s s') (hbound : s.heap.next.toNat ≤ 2 ^ 31) :
    s.heap.next.toNat ≤ s'.heap.next.toNat := by
  cases hs with
  | @effect _ p w w' heap hrun hw hstep =>
    have hnext : heap.next = s.heap.next ∨ heap.next = s.heap.next + 1 := by
      cases w <;> obtain ⟨r, hr, he⟩ := Option.map_eq_some_iff.mp hstep <;> cases he <;>
        exact Prog.step_next hr
    show s.heap.next.toNat ≤ heap.next.toNat
    rcases hnext with h | h
    · rw [h]
    · rw [h, bump_toNat _ hbound]
      omega
  | _ => exact le_refl _

theorem tableOk_step (hlive : ∀ p, NotExiting s p → ThreadsOk s p)
    (hnext : s.heap.next.toNat ≤ s'.heap.next.toNat)
    (hstep : TableStep s q (s'.proc q).threads) :
    TableOk (s'.proc q).threads s'.heap.next.toNat := by
  cases hstep with
  | same hq h =>
    rw [h]
    exact (hlive q hq).table.mono hnext
  | zero h =>
    rw [h]
    exact tableOk_zero
  | ends hq r hfrom hafter h =>
    rw [h]
    obtain ⟨n, hn, hleft⟩ := (hlive q hq).work _ hfrom
    exact (hleft.resolve_left hafter).1.mono (hn.trans hnext)
  | joins hq t tid ht htid h =>
    rw [h]
    exact ((hlive q hq).table.join ht htid).mono hnext
  | sets hq t st ht hfree hjoined h =>
    rw [h]
    exact ((hlive q hq).table.setState ht hfree hjoined).mono hnext

theorem drawing_step (hlive : ∀ p, NotExiting s p → ThreadsOk s p) (ht : TargetsOk s)
    (hs : Step ld a s s') (hbound : s.heap.next.toNat ≤ 2 ^ 31)
    (hw : s'.path q = .work (.threads prog)) :
    ∃ n, n ≤ s'.heap.next.toNat ∧ IdDraws TableLeft prog n := by
  have hnext := hs.next_le hbound
  -- a path in one of these calls belongs to a process that has not started to exit
  have hworks : ∀ prog, s.path q = .work (.threads prog) →
      ∃ n, n ≤ s.heap.next.toNat ∧ IdDraws TableLeft prog n := by
    intro prog hpath
    have hbusy : s.path q ≠ .user := by rw [hpath]; exact nofun
    refine (hlive q ⟨fun hu => hbusy (ht.quiet q (.inl hu)),
      fun hz => hbusy (ht.quiet q (.inr (.inr hz))), ?_⟩).work prog hpath
    rw [hpath]
    exact nofun
  have hstarts : s.InUser q → ThreadsOk s q := fun hp =>
    hlive q (notExiting_of_running hp.1 (by rw [hp.2]; exact nofun))
  rcases hs.threads_cases hw with h | ⟨prog₀, who, h, hstep⟩ | ⟨hp, hprog⟩ | ⟨tid, hp, _, hprog⟩
  · obtain ⟨n, hn, hd⟩ := hworks prog h
    exact ⟨n, hn.trans hnext, hd⟩
  · obtain ⟨n, hn, hd⟩ := hworks prog₀ h
    exact Prog.step_draws bump_toNat hd hn hbound hstep
  · exact ⟨_, hnext, (hstarts hp).starts hp (.inl hprog)⟩
  · exact ⟨_, hnext, (hstarts hp).starts hp (.inr ⟨tid, hprog⟩)⟩

/-- **One step keeps the tables of all processes that have not started to
exit.** -/
theorem threadsOk_step (hfront : FrontInv s) (hlive : ∀ p, NotExiting s p → ThreadsOk s p)
    (hs : Step ld a s s') (hbound : s.heap.next.toNat ≤ 2 ^ 31) (hq : NotExiting s' q) :
    ThreadsOk s' q := by
  apply FrontOk.threads (frontOk_step hfront hs hq)
  · exact tableOk_step hlive (hs.next_le hbound) (hs.tableStep hfront hq)
  · exact fun prog hw => drawing_step hlive hfront.targets hs hbound hw

end Invariant

/-! ## §2. Runs. -/

/-- Fewer than 2^31 ids have been drawn: nexttid, which starts at 1, is at
most 2^31. -/
def FewThreads (s : State) (_ : Act) : Prop := s.heap.next.toNat ≤ 2 ^ 31

structure TablesInv (s : State) : Prop where
  targets : TargetsOk s
  live : ∀ p, NotExiting s p → ThreadsOk s p

theorem boot_tables {ld : Layout} {n : Nat} {s : State} (h : boot ld n = some s) : TablesInv s := by
  have hfront := boot_front h
  obtain ⟨r, _, rfl⟩ := Option.map_eq_some_iff.mp h
  refine ⟨hfront.targets, fun p hp => (hfront.live p hp).threads ?_ fun prog hw => by cases hw⟩
  by_cases h0 : p = 0
  · subst h0
    exact tableOk_zero
  · refine absurd ?_ hp.1
    show (if p = 0 then firstProc r.1 else Proc.init).state = .UNUSED
    rw [if_neg h0]
    rfl

theorem run_tables {ld : Layout} {s : State} (h : RunWith ld FewThreads s) : TablesInv s := by
  refine Reachable.invariant_with FrontInv TablesInv (fun _ => run_front) ?_ ?_ h
  · intro s ⟨n, hboot⟩
    exact boot_tables hboot
  · intro s s' hfront hfront' hinv ⟨a, hs, hfew⟩
    exact ⟨hfront'.targets, fun p hp => threadsOk_step hfront hinv.live hs hfew hp⟩

/-- **The thread table of a process that has not started to exit**, in every run with fewer than
2^31 threads: at most one thread is THREAD_RUNNING, and it is `c->thread` of the CPU; the ids are
distinct; and who has joined a thread waits for one that is still there. -/
theorem thread_table {ld : Layout} {s : State} (hs : RunWith ld FewThreads s) {p : Slot}
    (hp : NotExiting s p) :
    (∀ i j, ((s.proc p).threads i).state = .THREAD_RUNNING →
      ((s.proc p).threads j).state = .THREAD_RUNNING → i = j) ∧
    (∀ i, ((s.proc p).threads i).state = .THREAD_RUNNING →
      (s.proc p).state = .RUNNING ∧ s.thread p = some i) ∧
    ((s.proc p).runningThreadsCount = 0 ∨ (s.proc p).runningThreadsCount = 1) ∧
    (∀ i j, ((s.proc p).threads i).state ≠ .THREAD_FREE →
      ((s.proc p).threads j).state ≠ .THREAD_FREE →
      ((s.proc p).threads i).id = ((s.proc p).threads j).id → i = j) ∧
    (∀ i, ((s.proc p).threads i).state = .THREAD_JOINED →
      ∃ j, ((s.proc p).threads j).state ≠ .THREAD_FREE ∧
        ((s.proc p).threads j).id = ((s.proc p).threads i).join) := by
  have hok := (run_tables hs).live p hp
  refine ⟨fun i j hi hj => ?_, fun i hi => ⟨?_, hok.one i hi⟩, ?_, hok.table.distinct,
    hok.table.joins⟩
  · have hthread := hok.one i hi
    rw [hok.one j hj] at hthread
    exact (Option.some.inj hthread).symm
  · by_contra hrun
    exact hok.rest hrun i hi
  · rw [hok.count]
    split
    · exact .inr rfl
    · exact .inl rfl

theorem run_firstCreate {ld : Layout} {r : Pa × Image} {page : Pa} {rest : List Pa}
    {trace : List (Event Pa)} (h : RunWith ld FewThreads (firstState r ⟨page :: rest, 1, trace⟩)) :
    ∃ s, RunWith ld FewThreads s ∧ NotExiting s 0 ∧ ((s.proc 0).threads 0).state = .THREAD_RUNNING ∧
      ((s.proc 0).threads 1).state = .THREAD_RUNNABLE := by
  have h1 : (1 : UInt32).toNat ≤ 2 ^ 31 := by decide
  have h2 : (1 + 1 : UInt32).toNat ≤ 2 ^ 31 := by decide
  have h3 : (1 + 1 + 1 : UInt32).toNat ≤ 2 ^ 31 := by decide
  have hdispatch := h.next ⟨_, @Step.dispatch ld _ 0 .mainOnly 0 rfl rfl, h1⟩
  have hcall := hdispatch.next ⟨_, Step.createThread (p := 0) ⟨rfl, rfl⟩, h1⟩
  have hmain := hcall.next ⟨_, Step.effect (p := 0) rfl rfl rfl, h1⟩
  have hnew := hmain.next ⟨_, Step.effect (p := 0) rfl rfl rfl, h2⟩
  have hpage := hnew.next ⟨_, Step.effect (p := 0) rfl rfl rfl, h3⟩
  refine ⟨_, hpage.next ⟨_, Step.threadsDone (p := 0) rfl rfl, h3⟩, ?_, rfl, rfl⟩
  exact notExiting_of_running rfl fun _ => nofun

theorem thread_table_firstCreate : ∃ ld s, RunWith ld FewThreads s ∧ NotExiting s 0 ∧
    ((s.proc 0).threads 0).state = .THREAD_RUNNING ∧ s.thread 0 = some 0 := by
  have hboot : ((boot ⟨PHYSTOP - 20 * PGSIZE, 0x80007000⟩ 0).any fun s =>
      s.heap.next = 1 ∧ s.heap.free ≠ []) = true := by
    decide +kernel
  cases hb : boot ⟨PHYSTOP - 20 * PGSIZE, 0x80007000⟩ 0 with
  | none =>
    rw [hb] at hboot
    cases hboot
  | some s₀ =>
    rw [hb] at hboot
    obtain ⟨hnext, hfree⟩ := of_decide_eq_true hboot
    obtain ⟨⟨r, heap⟩, _, rfl⟩ := Option.map_eq_some_iff.mp hb
    obtain ⟨free, next, trace⟩ := heap
    cases hnext
    cases free with
    | nil => exact absurd rfl hfree
    | cons page rest =>
      obtain ⟨s, hs, hp, hmain, _⟩ := run_firstCreate (.start ⟨0, hb⟩)
      exact ⟨_, s, hs, hp, hmain, ((thread_table hs hp).2.1 0 hmain).2⟩

end Xv6.Mem
