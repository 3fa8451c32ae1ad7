/-
  Xv6.Regs.ThreadCalls — create_thread, join_thread and thread_cleanup.
-/
import Xv6.Regs.Invariant

namespace Xv6.Regs

open Lib Function

variable {s s' : State}

/-! ## §1. Runs of the functions. -/

def MainAdded (ts : ThreadTable) (trapframe : Option Pa) (thread : Option (Fin MAX_THREAD))
    (ts' : ThreadTable) (thread' : Option (Fin MAX_THREAD)) : Prop :=
  if (ts 0).state = .THREAD_FREE then
    ∃ id, thread' = some 0 ∧ ts' = update ts 0
      { state := .THREAD_RUNNING, id := id, join := 0, trapframe := trapframe }
  else thread' = thread ∧ ts' = ts

section Runs

variable {kend : Pa} {who : Nat} {heap heap' : Heap Pa UInt32} {ts : ThreadTable}
  {trapframe : Option Pa} {thread : Option (Fin MAX_THREAD)} {tid : UInt32} {r : ThreadsResult}

theorem run_addMainThread {r : ThreadTable × Option (Fin MAX_THREAD)}
    (hr : (addMainThread ts trapframe thread).run (kfreeOk kend) (· + 1) who heap =
      some (r, heap')) :
    MainAdded ts trapframe thread r.1 r.2 ∧ heap'.free = heap.free ∧ heap'.trace = heap.trace := by
  unfold addMainThread at hr
  unfold MainAdded
  split at hr
  · next hfree =>
    rw [if_pos hfree]
    cases hr
    exact ⟨⟨_, rfl, rfl⟩, rfl, rfl⟩
  · next hfree =>
    rw [if_neg hfree]
    cases hr
    exact ⟨⟨rfl, rfl⟩, rfl, rfl⟩

theorem run_createThread
    (hr : (createThread ts trapframe thread).run (kfreeOk kend) (· + 1) who heap =
      some (r, heap')) :
    ∃ ts', MainAdded ts trapframe thread ts' r.thread ∧ (∃ v, r.after = .returns v) ∧
      ((r.threads = ts' ∧ heap'.free = heap.free ∧ heap'.trace = heap.trace) ∨
        ∃ i id page, firstFree ts' = some i ∧ r.threads = update ts' i
            { state := .THREAD_RUNNABLE, id := id, join := 0, trapframe := some page } ∧
          heap.free = page :: heap'.free ∧ heap'.trace = heap.trace ++ [.alloc who page]) := by
  unfold createThread at hr
  rw [Prog.run_bind] at hr
  obtain ⟨⟨⟨ts', thread'⟩, heap₁⟩, hmain, hr⟩ := Option.bind_eq_some_iff.mp hr
  obtain ⟨hadded, hfree₁, htrace₁⟩ := run_addMainThread hmain
  refine ⟨ts', ?_⟩
  dsimp only at hr hadded
  split at hr
  · cases hr
    exact ⟨hadded, ⟨_, rfl⟩, .inl ⟨rfl, hfree₁, htrace₁⟩⟩
  · next i hi =>
    rw [Prog.run_bind] at hr
    obtain ⟨⟨id, heap₂⟩, hid, hr⟩ := Option.bind_eq_some_iff.mp hr
    cases hid
    rw [Prog.run_bind] at hr
    obtain ⟨⟨page, heap₃⟩, hpage, hr⟩ := Option.bind_eq_some_iff.mp hr
    cases page with
    | none => cases hr
    | some page =>
      cases hr
      simp only [kalloc, Prog.run] at hpage
      split at hpage
      · cases hpage
      · next pa rest hfree =>
        cases hpage
        refine ⟨hadded, ⟨_, rfl⟩, .inr ⟨i, _, page, hi, rfl, ?_, ?_⟩⟩
        · rw [← hfree₁]
          exact hfree
        · rw [← htrace₁]

theorem run_threadCleanup (hmain : SparesMain ts tid)
    (hr : (threadCleanup ts thread tid).run (kfreeOk kend) (· + 1) who heap = some (r, heap')) :
    r.thread = thread ∧
      ((r.threads = ts ∧ heap' = heap ∧ (r.after = .returns (-1) ∨ r.after = .yields)) ∨
        ∃ i page, i ≠ 0 ∧ (ts i).state ≠ .THREAD_FREE ∧ (ts i).trapframe = some page ∧
          r.threads = wakeJoined (update ts i { ts i with state := .THREAD_FREE })
            (ts i).id ∧
          heap' = { heap with free := page :: heap.free, trace := heap.trace ++ [.free page] } ∧
          r.after = .yields) := by
  unfold threadCleanup at hr
  split at hr
  · cases hr
    exact ⟨rfl, .inl ⟨rfl, rfl, .inl rfl⟩⟩
  · next i hfind =>
    split at hr
    · next hu =>
      obtain ⟨hi, htid⟩ := hmain i hfind hu
      have hid : (ts i).id ≠ 1 := by
        rw [findThread_eq_some hfind]
        exact htid
      rw [Prog.run_bind] at hr
      obtain ⟨⟨_, heap₁⟩, hfree, hr⟩ := Option.bind_eq_some_iff.mp hr
      dsimp only at hr
      rw [if_neg hid] at hr
      cases hr
      unfold kfreeTrapframe at hfree
      split at hfree
      · next page hpage =>
        simp only [kfree, Prog.run] at hfree
        split at hfree
        · cases hfree
          exact ⟨rfl, .inr ⟨i, page, hi, hu, hpage, rfl, rfl, rfl⟩⟩
        · cases hfree
      · cases hfree
    · cases hr
      exact ⟨rfl, .inl ⟨rfl, rfl, .inr rfl⟩⟩

end Runs

/-! ## §2. The invariant. -/

variable {ts : ThreadTable} {thread : Option (Fin MAX_THREAD)} {r : ThreadsResult} {kend : Pa}
  {heap : Heap Pa UInt32}

theorem Inv.sameEntries (h : Inv s) (hsame : SameEntries s.proc.threads ts) :
    Inv { s with proc := { s.proc with threads := ts } } := by
  have huse : CurrentInUse ts s.thread ↔ CurrentInUse s.proc.threads s.thread :=
    forall_congr' fun t => imp_congr_right fun _ => not_congr (hsame t).1
  constructor
  · exact h.table.same hsame
  · intro hr
    show s.thread = none ↔ (ts 0).state = .THREAD_FREE
    rw [(hsame 0).1]
    exact h.thread hr
  · exact fun hr hy he => huse.mpr (h.inUse hr hy he)
  · exact h.ptf
  · exact fun hr hk hc => h.frame hr hk (huse.mp hc)
  · intro i hi hu hne
    show s.frames (page ts i) = s.last i
    have hpage : page ts i = page s.proc.threads i := by
      unfold page
      rw [(hsame i).2]
    rw [hpage]
    exact h.createdSaved i hi (fun hf => hu ((hsame i).1.mpr hf)) hne
  · exact h.mainSaved
  · exact h.maker

theorem sameEntries_joinThread {tid : UInt32} (huse : CurrentInUse ts thread)
    (hr : joinThread ts thread tid = some r) : SameEntries ts r.threads := by
  unfold joinThread at hr
  split at hr
  · cases thread with
    | none => cases hr
    | some t =>
      cases hr
      intro i
      show ((update ts t _ i : Thread).state = _ ↔ _) ∧ (update ts t _ i : Thread).trapframe = _
      by_cases hi : i = t
      · subst hi
        rw [update_self]
        exact ⟨iff_of_false nofun (huse i rfl), rfl⟩
      · rw [update_of_ne hi]
        exact ⟨Iff.rfl, rfl⟩
  · cases hr
    exact fun i => ⟨Iff.rfl, rfl⟩

theorem Inv.run_nodup (h : Inv s) {prog : Kernel ThreadsResult}
    (hwp : prog.wp ThreadsPost (threadPages s.proc.threads))
    (hr : prog.run (kfreeOk kend) (· + 1) 0 s.heap = some (r, heap)) :
    ((heap.free : Multiset Pa) + s.others + ({s.tf} + threadPages r.threads)).Nodup ∧
      ∀ v, r.after = .returns v → CurrentInUse r.threads r.thread := by
  have hshuffle : ∀ free own : Multiset Pa,
      free + s.others + ({s.tf} + own) = (free + own) + (s.others + {s.tf}) := by
    intro free own
    abel
  obtain ⟨own, ⟨hown, huse⟩, hnd⟩ := Prog.run_wp
    (fun h own => ((h.free : Multiset Pa) + s.others + ({s.tf} + own)).Nodup)
    (fun h h' own own' hi hm => by
      rw [hshuffle] at hi ⊢
      rw [hm.conserve]
      exact hi) hwp h.table.nodup hr
  rw [hown] at hnd
  exact ⟨hnd, huse⟩

theorem sameEntries_wakeJoined (ts : ThreadTable) (id : UInt32) :
    SameEntries ts (wakeJoined ts id) := by
  intro i
  unfold wakeJoined
  split
  · next hj => exact ⟨iff_of_false nofun (by rw [hj.1]; exact nofun), rfl⟩
  · exact ⟨Iff.rfl, rfl⟩

theorem Inv.freed (h : Inv s) {tid : UInt32} (hrun : s.Running) (hk : ∀ regs, s.path ≠ .user regs)
    (huse : CurrentInUse s.proc.threads s.thread) (hmain : SparesMain s.proc.threads tid)
    (hr : (threadCleanup s.proc.threads s.thread tid).run (kfreeOk kend) (· + 1) 0 s.heap =
      some (r, heap)) (path : Path) (hmaker : ∀ t, path.maker = some t → s.current = t)
    (hyield : r.after = .yields → path = .yield) :
    Inv { s with
      proc := { s.proc with threads := r.threads }, thread := r.thread, heap := heap
      frames := scrubbed s.frames (heap.trace.drop s.heap.trace.length), path := path } := by
  obtain ⟨hnd, _⟩ := h.run_nodup (threadCleanup_spec _ _ tid huse hmain) hr
  obtain ⟨hth, ⟨hts, hheap, _⟩ | ⟨i, pa, hi, hu, hpa, hts, hheap, hafter⟩⟩ :=
    run_threadCleanup hmain hr
  · rw [hth, hts, hheap, List.drop_length]
    exact h.goto hk (fun _ _ _ => huse) fun _ => hmaker
  · have hpage : page s.proc.threads i = pa := by rw [page, hpa]; rfl
    have htrace : heap.trace.drop s.heap.trace.length = [.free pa] := by
      rw [hheap]
      exact List.drop_left
    rw [hth, htrace, hts]
    rw [hts, threadPages_wakeJoined] at hnd
    generalize hts₁ : update s.proc.threads i
      { s.proc.threads i with state := .THREAD_FREE } = ts at hnd
    have hgone : (ts i).state = .THREAD_FREE := by rw [← hts₁, update_self]
    have hother : ∀ j, j ≠ i → ts j = s.proc.threads j := fun j hj => by
      rw [← hts₁, update_of_ne hj]
    have hzero : ts 0 = s.proc.threads 0 := hother 0 (Ne.symm hi)
    have hleft : ∀ j, (ts j).state ≠ .THREAD_FREE → j ≠ i := by
      rintro j hj rfl
      exact hj hgone
    refine Inv.sameEntries (s := { s with
      proc := { s.proc with threads := ts }, heap := heap
      frames := scrubbed s.frames [.free pa], path := path }) ?_ (sameEntries_wakeJoined ts _)
    have hpath := hyield hafter
    constructor
    · constructor
      · exact h.table.isSome
      · show (ts 0).state ≠ .THREAD_FREE → (ts 0).trapframe = s.proc.trapframe
        rw [hzero]
        exact h.table.main
      · intro h0 j
        by_cases hj : j = i
        · rw [hj]
          exact hgone
        · show (ts j).state = .THREAD_FREE
          rw [hother j hj]
          exact h.table.alone (by rw [← hzero]; exact h0) j
      · intro j hj
        show (ts j).trapframe = some (page ts j)
        have hne := hleft j hj
        rw [page, hother j hne]
        exact h.table.pages j (by rw [← hother j hne]; exact hj)
      · exact hnd
    · show s.Running → (s.thread = none ↔ (ts 0).state = .THREAD_FREE)
      rw [hzero]
      exact h.thread
    · exact fun _ hy => absurd hpath hy
    · exact h.ptf
    · intro hr' _ _
      show update s.frames pa freeJunk s.tf = s.last s.current
      rw [update_of_ne (by rw [← hpage]; exact (h.page_ne_tf hi hu).symm)]
      exact h.frame hr' hk huse
    · intro j hj hju hne
      have hji := hleft j hju
      have hju' : (s.proc.threads j).state ≠ .THREAD_FREE := by
        rw [← hother j hji]
        exact hju
      have hpj : page ts j = page s.proc.threads j := by rw [page, hother j hji]; rfl
      show update s.frames pa freeJunk (page ts j) = s.last j
      rw [hpj, ← hpage, update_of_ne (h.table.page_inj hj hi hju' hu hji)]
      exact h.createdSaved j hj hju' hne
    · exact fun hr' => absurd hrun hr'
    · exact fun _ => hmaker

theorem newEntry_eq {old new : ThreadTable} {o : Option (Fin MAX_THREAD)}
    (h : ∀ j, ((old j).state = .THREAD_FREE ∧ (new j).state = .THREAD_RUNNABLE) ↔ o = some j) :
    newEntry old new = o := by
  unfold newEntry
  cases o with
  | none =>
    refine List.find?_eq_none.mpr fun j _ hj => ?_
    cases (h j).mp (of_decide_eq_true hj)
  | some i =>
    cases hfind : (List.finRange MAX_THREAD).find? fun i =>
        (old i).state = .THREAD_FREE ∧ (new i).state = .THREAD_RUNNABLE with
    | none =>
      exact absurd (decide_eq_true ((h i).mpr rfl))
        (List.find?_eq_none.mp hfind i (List.mem_finRange i))
    | some j =>
      have hj := List.find?_some hfind
      exact ((h j).mp (of_decide_eq_true hj)).symm

/-- The first `if` of create_thread changes nothing but entry 0. -/
theorem Inv.mainAdded (h : Inv s) (hrun : s.Running)
    (hadd : MainAdded s.proc.threads s.proc.trapframe s.thread ts thread) :
    thread.getD 0 = s.current ∧ thread ≠ none ∧
      ((ts 0).state ≠ .THREAD_FREE ∧ (ts 0).trapframe = s.proc.trapframe) ∧
      ((s.proc.threads 0).state = .THREAD_FREE → (ts 0).state ≠ .THREAD_RUNNABLE) ∧
      ∀ j, j ≠ 0 → ts j = s.proc.threads j := by
  unfold MainAdded at hadd
  split at hadd
  · next hfree =>
    obtain ⟨id, rfl, rfl⟩ := hadd
    rw [update_self]
    refine ⟨?_, nofun, ⟨nofun, rfl⟩, fun _ => nofun, fun j hj => update_of_ne hj _ _⟩
    rw [State.current, (h.thread hrun).mpr hfree]
    rfl
  · next hfree =>
    obtain ⟨rfl, rfl⟩ := hadd
    refine ⟨rfl, fun hn => hfree ((h.thread hrun).mp hn), ⟨hfree, h.table.main hfree⟩,
      fun hf => absurd hf hfree, fun _ _ => rfl⟩

section

variable (h : Inv s) (hrun : s.Running) (hk : ∀ regs, s.path ≠ .user regs)
  (huse : CurrentInUse s.proc.threads s.thread)

include h hrun hk huse

theorem Inv.grown (frames : Pa → Trapframe) (last : Fin MAX_THREAD → Trapframe) {path : Path}
    (hnd : ((heap.free : Multiset Pa) + s.others + ({s.tf} + threadPages ts)).Nodup)
    (hcur : thread.getD 0 = s.current) (hth : thread ≠ none)
    (hmain : (ts 0).state ≠ .THREAD_FREE ∧ (ts 0).trapframe = s.proc.trapframe)
    (huse' : CurrentInUse ts thread) (hframe : frames s.tf = s.frame)
    (hlast : last 0 = s.last 0 ∧ last s.current = s.last s.current)
    (hcreated : ∀ j, j ≠ 0 → (ts j).state ≠ .THREAD_FREE →
      (ts j).trapframe = some (page ts j) ∧ (j ≠ s.current → frames (page ts j) = last j))
    (hmaker : ∀ t, path.maker = some t → s.current = t) :
    Inv { s with
      proc := { s.proc with threads := ts }, thread := thread, heap := heap, frames := frames
      last := last, path := path } := by
  constructor
  · constructor
    · exact h.table.isSome
    · exact fun _ => hmain.2
    · exact fun h0 => absurd h0 hmain.1
    · intro j hj
      by_cases h0 : j = 0
      · subst h0
        obtain ⟨tf, htf⟩ := h.table.isSome
        show (ts 0).trapframe = some (page ts 0)
        rw [page, hmain.2, htf]
        rfl
      · exact (hcreated j h0 hj).1
    · exact hnd
  · exact fun _ => iff_of_false hth hmain.1
  · exact fun _ _ _ => huse'
  · intro _
    show s.ptf = if thread.getD 0 = 0 then none else some (last 0)
    rw [hcur, hlast.1]
    exact h.ptf hrun
  · intro _ _ _
    show frames s.tf = last (thread.getD 0)
    rw [hcur, hlast.2, hframe]
    exact h.frame hrun hk huse
  · intro j hj hu hne
    refine (hcreated j hj hu).2 ?_
    rw [← hcur]
    exact hne hrun
  · exact fun hr => absurd hrun hr
  · intro _ t ht
    show thread.getD 0 = t
    rw [hcur]
    exact hmaker t ht

theorem Inv.created (hr : (createThread s.proc.threads s.proc.trapframe s.thread).run (kfreeOk kend) (· + 1) 0
      s.heap = some (r, heap)) (f : Trapframe) {path : Path}
    (hmaker : ∀ t, path.maker = some t → s.current = t) :
    Inv ((initFrame s.proc.threads { s with
      proc := { s.proc with threads := r.threads }, thread := r.thread, heap := heap
      frames := scrubbed s.frames (heap.trace.drop s.heap.trace.length) } f).goto path) := by
  obtain ⟨hnd, huse'⟩ := h.run_nodup (createThread_spec _ s.proc.trapframe _ huse) hr
  obtain ⟨ts, hadd, ⟨v, hafter⟩, hcase⟩ := run_createThread hr
  obtain ⟨hcur, hth, hmain, hrunnable, hother⟩ := h.mainAdded hrun hadd
  have hused := huse' v hafter
  rcases hcase with ⟨hts, _, htrace⟩ | ⟨i, id, pa, hfirst, hts, hfree, htrace⟩
  · -- the table is full
    rw [hts] at hnd hused ⊢
    rw [htrace, List.drop_length]
    have hnew : newEntry s.proc.threads ts = none := by
      refine newEntry_eq fun j => iff_of_false ?_ nofun
      rintro ⟨hf, hj⟩
      by_cases h0 : j = 0
      · subst h0
        exact hrunnable hf hj
      · rw [hother j h0, hf] at hj
        cases hj
    unfold initFrame
    rw [show newEntry s.proc.threads ts = none from hnew]
    refine h.grown hrun hk huse s.frames s.last hnd hcur hth hmain hused rfl ⟨rfl, rfl⟩ ?_ hmaker
    intro j hj hu
    have hju : (s.proc.threads j).state ≠ .THREAD_FREE := by rwa [← hother j hj]
    rw [page, hother j hj]
    refine ⟨h.table.pages j hju, fun hne => h.createdSaved j hj hju fun _ => hne⟩
  · have hi := firstFree_eq_some hfirst
    have hi0 : i ≠ 0 := by
      rintro rfl
      exact hmain.1 hi
    have hifree : (s.proc.threads i).state = .THREAD_FREE := by rwa [← hother i hi0]
    have hi' : r.threads i =
        { state := .THREAD_RUNNABLE, id := id, join := 0, trapframe := some pa } := by
      rw [hts, update_self]
    have hj' : ∀ j, j ≠ i → r.threads j = ts j := fun j hj => by
      rw [hts, update_of_ne hj]
    -- the page was on the free list, so it is none of the process's own
    have hpa : pa ∈ s.rest := by
      refine Multiset.mem_add.mpr (.inl ?_)
      rw [hfree]
      exact Multiset.mem_coe.mpr List.mem_cons_self
    have hnew : newEntry s.proc.threads r.threads = some i := by
      refine newEntry_eq fun j => ⟨?_, ?_⟩
      · rintro ⟨hf, hj⟩
        by_contra hne
        have hji : j ≠ i := fun e => hne (congrArg some e.symm)
        rw [hj' j hji] at hj
        by_cases h0 : j = 0
        · subst h0
          exact hrunnable hf hj
        · rw [hother j h0, hf] at hj
          cases hj
      · intro he
        cases he
        exact ⟨hifree, by rw [hi']⟩
    have hcurne : s.current ≠ i := by
      unfold State.current
      cases hthr : s.thread with
      | none => exact hi0.symm
      | some t =>
        rintro rfl
        exact huse t hthr hifree
    have hframes : update (scrubbed s.frames (heap.trace.drop s.heap.trace.length))
        ((r.threads i).trapframe.getD 0) f = update (update s.frames pa allocJunk) pa f := by
      rw [htrace, List.drop_left, hi']
      rfl
    unfold initFrame
    rw [show newEntry s.proc.threads r.threads = some i from hnew]
    dsimp only
    rw [hframes]
    refine h.grown hrun hk huse (update (update s.frames pa allocJunk) pa f)
      (update s.last i f) hnd hcur hth ?_ hused ?_ ?_ ?_ hmaker
    · rw [hj' 0 hi0.symm]
      exact hmain
    · have hne : s.tf ≠ pa := by
        rintro rfl
        exact h.tf_notMem hpa
      rw [update_of_ne hne, update_of_ne hne]
      rfl
    · exact ⟨update_of_ne hi0.symm _ _, update_of_ne hcurne _ _⟩
    · intro j hj hu
      by_cases hji : j = i
      · subst hji
        rw [page, hi']
        refine ⟨rfl, fun _ => ?_⟩
        show update (update s.frames pa allocJunk) pa f pa = _
        rw [update_self, update_self]
      · have hju : (s.proc.threads j).state ≠ .THREAD_FREE := by
          rwa [← hother j hj, ← hj' j hji]
        rw [page, hj' j hji, hother j hj, update_of_ne hji]
        refine ⟨h.table.pages j hju, fun hne => ?_⟩
        have hpj : page s.proc.threads j ≠ pa := by
          rintro rfl
          exact h.table.page_notMem hj hju hpa
        show update (update s.frames pa allocJunk) pa f
          (page s.proc.threads j) = s.last j
        rw [update_of_ne hpj, update_of_ne hpj]
        exact h.createdSaved j hj hju fun _ => hne

end

end Xv6.Regs
