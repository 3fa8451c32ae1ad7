/-
  Xv6.Regs.Invariant — where the registers of each thread are.

  While a thread runs, its registers are in `*p->trapframe`.  The others have theirs in pages
  of their own, and the main thread in the scheduler's `ptf`.
-/
import Xv6.Regs.Machine

namespace Xv6.Regs

open Lib Function

/-! ## §1. The pages of the trapframes. -/

def SameEntries (ts ts' : ThreadTable) : Prop :=
  ∀ i, ((ts' i).state = .THREAD_FREE ↔ (ts i).state = .THREAD_FREE) ∧
    (ts' i).trapframe = (ts i).trapframe

def page (ts : ThreadTable) (i : Fin MAX_THREAD) : Pa := (ts i).trapframe.getD 0

/-- `rest` is what is free or somebody else's. -/
structure Table (trapframe : Option Pa) (ts : ThreadTable) (rest : Multiset Pa) : Prop where
  isSome : ∃ tf, trapframe = some tf
  main : (ts 0).state ≠ .THREAD_FREE → (ts 0).trapframe = trapframe
  alone : (ts 0).state = .THREAD_FREE → ∀ i, (ts i).state = .THREAD_FREE
  pages : ∀ i, (ts i).state ≠ .THREAD_FREE → (ts i).trapframe = some (page ts i)
  nodup : (rest + ({trapframe.getD 0} + threadPages ts)).Nodup

section Table

variable {trapframe : Option Pa} {ts ts' : ThreadTable} {rest rest' : Multiset Pa}
  {i j : Fin MAX_THREAD}

section

variable (h : Table trapframe ts rest)

include h

theorem Table.same (he : SameEntries ts ts') : Table trapframe ts' rest := by
  have hpage : ∀ i, page ts' i = page ts i := fun i => by
    unfold page
    rw [(he i).2]
  have hpages : threadPages ts' = threadPages ts :=
    threadPages_congr fun i => threadPage_congr (he i).1 (he i).2
  constructor
  · exact h.isSome
  · intro h0
    rw [(he 0).2]
    exact h.main fun hf => h0 ((he 0).1.mpr hf)
  · intro h0 i
    exact (he i).1.mpr (h.alone ((he 0).1.mp h0) i)
  · intro i hi
    rw [(he i).2, hpage i]
    exact h.pages i fun hf => hi ((he i).1.mpr hf)
  · rw [hpages]
    exact h.nodup

section

variable (hi : i ≠ 0) (hu : (ts i).state ≠ .THREAD_FREE)

include hi hu

theorem Table.threadPage_eq : threadPage i (ts i) = {page ts i} := by
  rw [threadPage, if_neg (by simp [hi, hu]), h.pages i hu]
  rfl

theorem Table.page_mem : page ts i ∈ threadPages ts := by
  have hle : threadPage i (ts i) ≤ threadPages ts :=
    Finset.single_le_sum (fun j _ => Multiset.zero_le (threadPage j (ts j))) (Finset.mem_univ i)
  rw [h.threadPage_eq hi hu] at hle
  exact Multiset.mem_of_le hle (Multiset.mem_singleton_self _)

theorem Table.page_ne : page ts i ≠ trapframe.getD 0 := by
  intro he
  have hdis := (Multiset.nodup_add.mp (Multiset.nodup_add.mp h.nodup).2.1).2.2
  exact Multiset.disjoint_left.mp hdis (Multiset.mem_singleton.mpr he) (h.page_mem hi hu)

end

theorem Table.page_inj (hi : i ≠ 0) (hj : j ≠ 0)
    (hui : (ts i).state ≠ .THREAD_FREE) (huj : (ts j).state ≠ .THREAD_FREE) (hij : i ≠ j) :
    page ts i ≠ page ts j := by
  intro he
  have hle : threadPage i (ts i) + threadPage j (ts j) ≤ threadPages ts := by
    rw [← Finset.sum_pair (f := fun i => threadPage i (ts i)) hij]
    exact Finset.sum_le_sum_of_subset (Finset.subset_univ _)
  have hnd := (Multiset.nodup_add.mp (Multiset.nodup_add.mp h.nodup).2.1).2.1
  have htwo := Multiset.nodup_of_le hle hnd
  rw [h.threadPage_eq hi hui, h.threadPage_eq hj huj, he] at htwo
  have hdis := (Multiset.nodup_add.mp htwo).2.2
  exact Multiset.disjoint_left.mp hdis (Multiset.mem_singleton_self _)
    (Multiset.mem_singleton_self _)

theorem Table.notMem {pa : Pa}
    (hpa : pa ∈ ({trapframe.getD 0} + threadPages ts : Multiset Pa)) : pa ∉ rest := by
  intro hrest
  exact Multiset.disjoint_left.mp (Multiset.nodup_add.mp h.nodup).2.2 hrest hpa

theorem Table.tf_notMem : trapframe.getD 0 ∉ rest :=
  h.notMem (Multiset.mem_add.mpr (.inl (Multiset.mem_singleton_self _)))

theorem Table.page_notMem (hi : i ≠ 0) (hu : (ts i).state ≠ .THREAD_FREE) : page ts i ∉ rest :=
  h.notMem (Multiset.mem_add.mpr (.inr (h.page_mem hi hu)))

end

end Table

/-! ## §2. The invariant. -/

/-- The pages that are not this process's. -/
def State.rest (s : State) : Multiset Pa := s.heap.free + s.others

/-- The registers of every thread are where the switching code looks for them: in `*p->trapframe`
for the one that runs, in its own page, or in the scheduler's `ptf`. -/
structure Inv (s : State) : Prop where
  table : Table s.proc.trapframe s.proc.threads s.rest
  thread : s.Running → (s.thread = none ↔ (s.proc.threads 0).state = .THREAD_FREE)
  inUse : s.Running → s.path ≠ .yield → s.path ≠ .exit → CurrentInUse s.proc.threads s.thread
  ptf : s.Running → s.ptf = if s.current = 0 then none else some (s.last 0)
  frame : s.Running → (∀ regs, s.path ≠ .user regs) → CurrentInUse s.proc.threads s.thread →
    s.frame = s.last s.current
  createdSaved : ∀ i, i ≠ 0 → (s.proc.threads i).state ≠ .THREAD_FREE → (s.Running → i ≠ s.current) →
    s.frames (page s.proc.threads i) = s.last i
  mainSaved : ¬ s.Running → s.frame = s.last 0
  maker : s.Running → ∀ t, s.path.maker = some t → s.current = t

variable {s : State}

theorem Inv.tf_notMem (h : Inv s) : s.tf ∉ s.rest := h.table.tf_notMem

theorem Inv.page_ne_tf (h : Inv s) {i : Fin MAX_THREAD} (hi : i ≠ 0)
    (hu : (s.proc.threads i).state ≠ .THREAD_FREE) : page s.proc.threads i ≠ s.tf :=
  h.table.page_ne hi hu

theorem inv_of_not_running (hnot : ¬ s.Running)
    (htable : Table s.proc.trapframe s.proc.threads s.rest) (hmain : s.frame = s.last 0)
    (hcreated : ∀ i, i ≠ 0 → (s.proc.threads i).state ≠ .THREAD_FREE →
      s.frames (page s.proc.threads i) = s.last i) : Inv s := by
  constructor
  · exact htable
  · exact fun hr => absurd hr hnot
  · exact fun hr => absurd hr hnot
  · exact fun hr => absurd hr hnot
  · exact fun hr => absurd hr hnot
  · exact fun i hi hu _ => hcreated i hi hu
  · exact fun _ => hmain
  · exact fun hr => absurd hr hnot

theorem inv_start (h : Start s) : Inv s := by
  have hnot : ¬ s.Running := by
    unfold State.Running
    rw [h.state]
    exact nofun
  have hfree : ∀ i, (s.proc.threads i).state = .THREAD_FREE := fun i => by
    rw [h.threads]
    rfl
  refine inv_of_not_running hnot ?_ h.last.symm fun i _ hu => absurd (hfree i) hu
  constructor
  · exact ⟨_, h.trapframe⟩
  · exact fun hu => absurd (hfree 0) hu
  · exact fun _ => hfree
  · exact fun i hu => absurd (hfree i) hu
  · have hpages : threadPages s.proc.threads = 0 :=
      Finset.sum_eq_zero fun i _ => threadPage_free (hfree i)
    rw [hpages, add_zero, State.rest, add_assoc]
    exact h.nodup

/-! ## §3. Steps that switch nothing. -/

section Steps

variable {s s' : State}

variable {frames : Pa → Trapframe} {c : Sched.Choice}

theorem Inv.others (h : Inv s) {heap : Heap Pa UInt32} {others : Multiset Pa}
    (hrest : (heap.free : Multiset Pa) + others = s.rest)
    (hframes : ∀ pa, pa ∉ s.rest → frames pa = s.frames pa) :
    Inv { s with heap := heap, others := others, frames := frames } := by
  constructor
  · show Table _ _ ((heap.free : Multiset Pa) + others)
    rw [hrest]
    exact h.table
  · exact h.thread
  · exact h.inUse
  · exact h.ptf
  · intro hr hp hc
    show frames s.tf = _
    rw [hframes _ h.tf_notMem]
    exact h.frame hr hp hc
  · intro i hi hu hne
    show frames (page _ i) = _
    rw [hframes _ (h.table.page_notMem hi hu)]
    exact h.createdSaved i hi hu hne
  · intro hr
    show frames s.tf = _
    rw [hframes _ h.tf_notMem]
    exact h.mainSaved hr
  · exact h.maker

theorem Inv.goto (h : Inv s) {path : Path} (hk : ∀ regs, s.path ≠ .user regs)
    (huse : s.Running → path ≠ .yield → path ≠ .exit → CurrentInUse s.proc.threads s.thread)
    (hmaker : s.Running → ∀ t, path.maker = some t → s.current = t) : Inv (s.goto path) := by
  constructor
  · exact h.table
  · exact h.thread
  · exact huse
  · exact h.ptf
  · exact fun hr _ hc => h.frame hr hk hc
  · exact h.createdSaved
  · exact h.mainSaved
  · exact hmaker

theorem Inv.toUser (h : Inv s) (huse : CurrentInUse s.proc.threads s.thread) (regs : Trapframe) :
    Inv (s.goto (.user regs)) := by
  constructor
  · exact h.table
  · exact h.thread
  · exact fun _ _ _ => huse
  · exact h.ptf
  · exact fun _ hk => absurd rfl (hk regs)
  · exact h.createdSaved
  · exact h.mainSaved
  · exact fun _ t ht => by cases ht

theorem Inv.rewrite (h : Inv s) (hrun : s.Running) (huse : CurrentInUse s.proc.threads s.thread)
    (f : Trapframe) {path : Path} (hmaker : ∀ t, path.maker = some t → s.current = t) :
    Inv (((s.setFrame f).setLast s.current f).goto path) := by
  constructor
  · exact h.table
  · exact h.thread
  · exact fun _ _ _ => huse
  · intro hr
    rw [show (((s.setFrame f).setLast s.current f).goto path).ptf = s.ptf from rfl, h.ptf hr]
    show (if s.current = 0 then none else some (s.last 0)) =
      if s.current = 0 then none else some (update s.last s.current f 0)
    split
    · rfl
    · next hne => rw [update_of_ne (Ne.symm hne)]
  · intro _ _ _
    show update s.frames s.tf f s.tf = update s.last s.current f s.current
    rw [update_self, update_self]
  · intro i hi hu hne
    show update s.frames s.tf f (page s.proc.threads i) = update s.last s.current f i
    have hne' : i ≠ s.current := hne hrun
    rw [update_of_ne (h.page_ne_tf hi hu), update_of_ne hne']
    exact h.createdSaved i hi hu hne
  · exact fun hr => absurd hrun hr
  · exact fun _ => hmaker

/-! ## §4. Switching. -/

theorem sameEntries_parked (ts : ThreadTable) (thread : Option (Fin MAX_THREAD)) :
    SameEntries ts (parked ts thread) := by
  intro i
  unfold parked
  cases thread with
  | none => exact ⟨Iff.rfl, rfl⟩
  | some t =>
    dsimp only
    split
    · next hrun =>
      by_cases hi : i = t
      · subst hi
        rw [update_self]
        exact ⟨iff_of_false nofun (by rw [hrun]; exact nofun), rfl⟩
      · rw [update_of_ne hi]
        exact ⟨Iff.rfl, rfl⟩
    · exact ⟨Iff.rfl, rfl⟩

section

variable (h : Inv s) (hrun : s.Running) (hk : ∀ regs, s.path ≠ .user regs)

include h hrun hk

theorem Inv.left_frames :
    restored s (saved s) s.tf = s.last 0 ∧ ∀ i, i ≠ 0 → (s.proc.threads i).state ≠ .THREAD_FREE →
        restored s (saved s) (page s.proc.threads i) = s.last i := by
  have hptf := h.ptf hrun
  by_cases hcur : s.current = 0
  · -- the main thread: its registers are in `*p->trapframe` already
    rw [if_pos hcur] at hptf
    have hsaved : saved s = s.frames := by
      unfold saved
      cases hth : s.thread with
      | none => rfl
      | some t =>
        have ht : t = 0 := by
          rw [State.current, hth] at hcur
          exact hcur
        subst ht
        dsimp only
        rw [if_neg]
        intro ⟨hu, hne⟩
        exact hne (h.table.main hu)
    have huse : CurrentInUse s.proc.threads s.thread := by
      intro t ht hf
      have ht0 : t = 0 := by
        rw [State.current, ht] at hcur
        exact hcur
      subst ht0
      rw [(h.thread hrun).mpr hf] at ht
      cases ht
    unfold restored
    rw [hptf, hsaved]
    refine ⟨?_, fun i hi hu => h.createdSaved i hi hu fun _ => ?_⟩
    · rw [← hcur]
      exact h.frame hrun hk huse
    · rw [hcur]
      exact hi
  · -- a created thread: its own page gets the registers, `ptf` goes back
    rw [if_neg hcur] at hptf
    have hth : s.thread = some s.current := by
      unfold State.current at hcur ⊢
      cases ht : s.thread with
      | none =>
        rw [ht] at hcur
        exact absurd rfl hcur
      | some t => rfl
    unfold restored
    rw [hptf]
    refine ⟨update_self _ _ _, fun i hi hu => ?_⟩
    show update (saved s) s.tf (s.last 0) (page s.proc.threads i) = s.last i
    rw [update_of_ne (h.page_ne_tf hi hu)]
    unfold saved
    rw [hth]
    dsimp only
    by_cases hic : i = s.current
    · have huse : CurrentInUse s.proc.threads s.thread := by
        intro t ht
        rw [hth] at ht
        cases ht
        rwa [← hic]
      have hcopy : (s.proc.threads i).trapframe ≠ s.proc.trapframe := fun he =>
        h.page_ne_tf hi hu (by rw [page, he]; rfl)
      rw [← hic, if_pos ⟨hu, hcopy⟩]
      show update s.frames (page s.proc.threads i) s.frame (page s.proc.threads i) = _
      rw [update_self, h.frame hrun hk huse, hic]
    · split
      · next hcond =>
        show update s.frames (page s.proc.threads s.current) s.frame _ = _
        rw [update_of_ne (h.table.page_inj hi hcur hu hcond.1 hic)]
        exact h.createdSaved i hi hu fun _ => hic
      · exact h.createdSaved i hi hu fun _ => hic

theorem Inv.switchOut (state : ProcState) (hstate : state ≠ .RUNNING) (ticks : UInt32) :
    Inv (switchOut s state ticks) := by
  obtain ⟨hmain, hothers⟩ := h.left_frames hrun hk
  have hsame := sameEntries_parked s.proc.threads s.thread
  refine inv_of_not_running (s := Regs.switchOut s state ticks) hstate (h.table.same hsame) hmain ?_
  intro i hi hu
  have hpage : page (parked s.proc.threads s.thread) i = page s.proc.threads i := by
    unfold page
    rw [(hsame i).2]
  show restored s (saved s) (page (parked s.proc.threads s.thread) i) = s.last i
  rw [hpage]
  exact hothers i hi fun hf => hu ((hsame i).1.mpr hf)

end

theorem Inv.wakeup (h : Inv s) (hs : s.proc.state = .SLEEPING) :
    Inv { s with proc := { s.proc with state := .RUNNABLE } } := by
  have hnot : ¬ s.Running := by
    unfold State.Running
    rw [hs]
    exact nofun
  refine inv_of_not_running (s := { s with proc := { s.proc with state := .RUNNABLE } }) nofun
    h.table (h.mainSaved hnot) ?_
  exact fun i hi hu => h.createdSaved i hi hu fun hr => absurd hr hnot

theorem sameEntries_dispatched {p : Proc} (hc : Sched.pickThread p = some c)
    (ticks : UInt32) : SameEntries p.threads (dispatched p ticks c).1.threads := by
  intro i
  cases c with
  | mainOnly => exact ⟨Iff.rfl, rfl⟩
  | thread t =>
    show ((update p.threads t _ i : Thread).state = _ ↔ _) ∧ _
    by_cases hi : i = t
    · subst hi
      rw [update_self]
      refine ⟨iff_of_false nofun ?_, ?_⟩
      · rw [pickThread_state hc]
        exact nofun
      · show (update p.threads i _ i : Thread).trapframe = _
        rw [update_self]
    · rw [update_of_ne hi]
      refine ⟨Iff.rfl, ?_⟩
      show (update p.threads t _ i : Thread).trapframe = _
      rw [update_of_ne hi]

theorem pickThread_cases {p : Proc} (hc : Sched.pickThread p = some c) :
    (c = .mainOnly ∧ (p.threads 0).state = .THREAD_FREE) ∨
      ∃ t, c = .thread t ∧ (p.threads 0).state ≠ .THREAD_FREE ∧
        (p.threads t).state ≠ .THREAD_FREE := by
  cases c with
  | mainOnly =>
    left
    unfold Sched.pickThread at hc
    split at hc
    · next h => exact ⟨rfl, h⟩
    · cases hn : Sched.nextRunnable p.threads MAX_THREAD p.lastRunningThreadIndex with
      | none | some t =>
        rw [hn] at hc
        cases hc
  | thread t =>
    right
    refine ⟨t, rfl, ?_, ?_⟩
    · intro hf
      unfold Sched.pickThread at hc
      rw [if_pos hf] at hc
      cases hc
    · rw [pickThread_state hc]
      exact nofun

theorem Inv.switchedTo (h : Inv s) (hnot : ¬ s.Running)
    (hc : Sched.pickThread s.proc = some c) {ticks : UInt32} {ptf : Option Trapframe}
    (hmaker : ∀ t, s.path.maker = some t → chosenThread c = t)
    (hptf : ptf = if chosenThread c = 0 then none else some (s.last 0))
    (hframe : frames s.tf = s.last (chosenThread c))
    (hframes : ∀ pa, pa ≠ s.tf → frames pa = s.frames pa) :
    Inv { s with
      proc := (dispatched s.proc ticks c).1, thread := (dispatched s.proc ticks c).2
      ptf := ptf, frames := frames } := by
  have hsame := sameEntries_dispatched hc ticks
  have hcur : (dispatched s.proc ticks c).2.getD 0 = chosenThread c := by cases c <;> rfl
  have htf : (dispatched s.proc ticks c).1.trapframe = s.proc.trapframe := by cases c <;> rfl
  have hpage : ∀ i, page (dispatched s.proc ticks c).1.threads i = page s.proc.threads i :=
    fun i => by
      unfold page
      rw [(hsame i).2]
  have hrun : (dispatched s.proc ticks c).1.state = .RUNNING := by cases c <;> rfl
  constructor
  · show Table (dispatched s.proc ticks c).1.trapframe _ s.rest
    rw [htf]
    exact h.table.same hsame
  · intro _
    show (dispatched s.proc ticks c).2 = none ↔
      ((dispatched s.proc ticks c).1.threads 0).state = .THREAD_FREE
    rw [(hsame 0).1]
    rcases pickThread_cases hc with ⟨rfl, hfree⟩ | ⟨t, rfl, hmain, _⟩
    · exact iff_of_true rfl hfree
    · exact iff_of_false nofun hmain
  · exact fun _ _ _ => (threadPages_dispatched ticks hc).2
  · intro _
    show ptf = if (dispatched s.proc ticks c).2.getD 0 = 0 then none else some (s.last 0)
    rw [hcur]
    exact hptf
  · intro _ _ _
    show frames ((dispatched s.proc ticks c).1.trapframe.getD 0) =
      s.last ((dispatched s.proc ticks c).2.getD 0)
    rw [htf, hcur]
    exact hframe
  · intro i hi hu _
    show frames (page (dispatched s.proc ticks c).1.threads i) = s.last i
    have hu' : (s.proc.threads i).state ≠ .THREAD_FREE := fun hf => hu ((hsame i).1.mpr hf)
    rw [hpage i, hframes _ (h.page_ne_tf hi hu')]
    exact h.createdSaved i hi hu' fun hr => absurd hr hnot
  · exact fun hr => absurd hrun hr
  · intro _ t ht
    show (dispatched s.proc ticks c).2.getD 0 = t
    rw [hcur]
    exact hmaker t ht

theorem Inv.switchIn (h : Inv s) (hs : s.proc.state = .RUNNABLE)
    (hc : Sched.pickThread s.proc = some c) (ticks : UInt32)
    (hmaker : ∀ t, s.path.maker = some t → chosenThread c = t) : Inv (switchIn s c ticks) := by
  have hnot : ¬ s.Running := by
    unfold State.Running
    rw [hs]
    exact nofun
  have hmain := h.mainSaved hnot
  by_cases h0 : chosenThread c = 0
  · -- the main thread's registers are in place
    have htf : chosenFrame s.proc c = s.proc.trapframe := by
      rcases pickThread_cases hc with ⟨rfl, _⟩ | ⟨t, rfl, hu, _⟩
      · rfl
      · cases h0
        exact h.table.main hu
    unfold Regs.switchIn
    rw [if_neg (not_not.mpr htf)]
    exact h.switchedTo hnot hc hmaker (if_pos h0).symm (by rw [h0]; exact hmain) fun _ _ => rfl
  · obtain ⟨t, rfl, hu⟩ : ∃ t, c = .thread t ∧ (s.proc.threads t).state ≠ .THREAD_FREE := by
      rcases pickThread_cases hc with ⟨rfl, _⟩ | ⟨t, rfl, _, hu⟩
      · exact absurd rfl h0
      · exact ⟨t, rfl, hu⟩
    have ht : t ≠ 0 := h0
    have htf : chosenFrame s.proc (.thread t) ≠ s.proc.trapframe := fun he =>
      h.page_ne_tf ht hu (by rw [page, show (s.proc.threads t).trapframe = _ from he]; rfl)
    unfold Regs.switchIn
    rw [if_pos htf]
    refine h.switchedTo hnot hc hmaker ?_ ?_ ?_
    · rw [if_neg h0, hmain]
    · rw [update_self]
      exact h.createdSaved t ht hu fun hr => absurd hr hnot
    · exact fun pa hpa => update_of_ne hpa _ _

end Steps

end Xv6.Regs
